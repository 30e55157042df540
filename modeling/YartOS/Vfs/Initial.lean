import YartOS.Fs.TreeFacts
import YartOS.Vfs.Tree

/-! The names in the tree that `vfs_init` builds from an initrd. -/
namespace YartOS.Vfs

open Fs Bytes List Forest

/-- A good name that a vnode can hold. -/
def FitName (name : Name) : Prop := GoodName name ∧ name.length ≤ maxName - 1

instance (name : Name) : Decidable (FitName name) :=
  decidable_of_iff ((name ≠ [] ∧ slash ∉ name ∧ name ≠ text "." ∧ name ≠ text "..") ∧ name.length ≤ maxName - 1)
    ⟨fun h => ⟨⟨h.1.1, h.1.2.1, h.1.2.2.1, h.1.2.2.2⟩, h.2⟩,
      fun h => ⟨⟨h.1.nonempty, h.1.noSlash, h.1.notDot, h.1.notDots⟩, h.2⟩⟩

def tops : Forest → List Name
  | .nil => []
  | .cons v _ sibling => v.name :: tops sibling

/-- Sibling names are good and different, and only directories have children. -/
def Named : Forest → Prop
  | .nil => True
  | .cons v child sibling =>
    FitName v.name ∧ v.name ∉ tops sibling ∧ (child = .nil ∨ v.kind = .dir) ∧ Named child ∧ Named sibling

structure Fine (v : Vnode) (child : Forest) : Prop where
  dir : child = .nil ∨ v.kind = .dir
  named : Named child

/-- The change of a vnode and what is below it is one that names allow. -/
structure Changed (v : Vnode) (child : Forest) (result : Vnode × Forest) : Prop where
  fine : Fine result.1 result.2
  name : result.1.name = v.name
  kind : result.1.kind = v.kind

variable {f child below : Forest} {v u : Vnode} {name : Name} {change : Vnode → Forest → Vnode × Forest}

lemma tops_attach (f : Forest) (u : Vnode) (below : Forest) : tops (f.attach u below) = tops f ++ [u.name] := by
  induction f with
  | nil => rfl
  | cons v child sibling _ ih => simp [Forest.attach, tops, ih]

lemma Named.attach (h : Named f) (fit : FitName u.name) (new : u.name ∉ tops f) (fine : Fine u below) :
    Named (f.attach u below) := by
  induction f with
  | nil => exact ⟨fit, by simp [tops], fine.dir, fine.named, trivial⟩
  | cons v child sibling _ ih =>
    obtain ⟨hFit, hNew, hDir, hChild, hSibling⟩ := h
    have new' : u.name ≠ v.name ∧ u.name ∉ tops sibling := by simpa [tops] using new
    refine ⟨hFit, ?_, hDir, hChild, ih hSibling new'.2⟩
    rw [tops_attach]
    simpa [hNew] using Ne.symm new'.1

lemma findChild_none (h : f.findChild name = none) : name ∉ tops f := by
  induction f with
  | nil => simp [tops]
  | cons v child sibling _ ih =>
    unfold findChild at h
    split at h
    · cases h
    · rename_i hne
      simpa [tops, Ne.symm hne] using ih h

lemma tops_onChild (keeps : ∀ v below, f.findChild name = some (v, below) → (change v below).1.name = v.name) :
    tops (f.onChild name change) = tops f := by
  induction f with
  | nil => rfl
  | cons v child sibling _ ih =>
    unfold onChild
    unfold findChild at keeps
    split_ifs with hName
    · rw [if_pos hName] at keeps
      rw [tops, tops, keeps v child rfl]
    · rw [if_neg hName] at keeps
      rw [tops, tops, ih keeps]

lemma Named.fine (h : Named f) (hFind : f.findChild name = some (v, below)) : Fine v below := by
  induction f with
  | nil => cases hFind
  | cons u child sibling _ ih =>
    obtain ⟨-, -, hDir, hChild, hSibling⟩ := h
    unfold findChild at hFind
    split at hFind
    · cases hFind
      exact ⟨hDir, hChild⟩
    · exact ih hSibling hFind

/-- A change of the vnode with the given name. -/
lemma Named.onChild (h : Named f)
    (keeps : ∀ v below, f.findChild name = some (v, below) → Fine v below → Changed v below (change v below)) :
    Named (f.onChild name change) := by
  induction f with
  | nil => exact h
  | cons v child sibling _ ih =>
    obtain ⟨hFit, hNew, hDir, hChild, hSibling⟩ := h
    unfold Forest.onChild
    unfold Forest.findChild at keeps
    split_ifs with hName
    · rw [if_pos hName] at keeps
      obtain ⟨fine, same, -⟩ := keeps v child rfl ⟨hDir, hChild⟩
      exact ⟨same ▸ hFit, same ▸ hNew, fine.dir, fine.named, hSibling⟩
    · rw [if_neg hName] at keeps
      have same : tops (sibling.onChild name change) = tops sibling :=
        tops_onChild fun v below hFind => (keeps v below hFind (hSibling.fine hFind)).name
      exact ⟨hFit, same ▸ hNew, hDir, hChild, ih hSibling keeps⟩

lemma Fine.onChild (h : Fine v child)
    (keeps : ∀ u below, child.findChild name = some (u, below) → Fine u below → Changed u below (change u below)) :
    Fine v (child.onChild name change) := by
  refine ⟨h.dir.imp_left fun hNil => ?_, h.named.onChild keeps⟩
  rw [hNil]
  rfl

variable {env : Caller}

/-- A directory found or made, where the first of its name is one. -/
lemma Named.findOrMakeDir (h : Named child) (fit : FitName name)
    (old : ∀ v below, child.findChild name = some (v, below) → v.kind = .dir ∧ Changed v below (change v below))
    (new : child.findChild name = none → Changed (mknode env name .dir) .nil (change (mknode env name .dir) .nil)) :
    Named (findOrMakeDir env name change child) := by
  unfold Fs.findOrMakeDir
  cases hFind : child.findChild name with
  | some found =>
    obtain ⟨v, below⟩ := found
    simp only
    rw [if_pos (old v below hFind).1]
    exact h.onChild fun v below hFind _ => (old v below hFind).2
  | none =>
    obtain ⟨fine, same, -⟩ := new hFind
    have hName : (mknode env name .dir).name = name := take_of_length_le fit.2
    rw [hName] at same
    refine h.attach ?_ ?_ fine
    · rwa [same]
    · rw [same]
      exact findChild_none hFind

def AllDirs (f : Forest) : Prop := f.All (·.kind = .dir)

lemma AllDirs.found (h : AllDirs f) (hFind : f.findChild name = some (v, below)) : v.kind = .dir ∧ AllDirs below := by
  induction f with
  | nil => cases hFind
  | cons u child sibling _ ih =>
    obtain ⟨hu, hChild, hSibling⟩ := all_cons.mp h
    unfold findChild at hFind
    split at hFind
    · cases hFind
      exact ⟨hu, hChild⟩
    · exact ih hSibling hFind

lemma changed_makeDirs {names : List Name} (fit : ∀ n ∈ names, FitName n) (hKind : v.kind = .dir)
    (h : Named child) (dirs : AllDirs child) : Changed v child (makeDirs env names v child) := by
  induction names generalizing v child with
  | nil => exact ⟨⟨.inr hKind, h⟩, rfl, rfl⟩
  | cons name names ih =>
    have fitNames : ∀ n ∈ names, FitName n := fun n hn => fit n (mem_cons_of_mem name hn)
    refine ⟨⟨.inr hKind, ?_⟩, rfl, rfl⟩
    refine h.findOrMakeDir (fit name mem_cons_self) (fun v below hFind => ?_) fun _ => ?_
    · obtain ⟨hv, hBelow⟩ := dirs.found hFind
      exact ⟨hv, ih fitNames hv (h.fine hFind).named hBelow⟩
    · exact ih fitNames rfl trivial all_nil

def TreeNamed (t : Tree) : Prop := t.root.kind = .dir ∧ Named t.child

lemma treeNamed_makeSkeleton {dirs : List (List Name)} (fit : ∀ names ∈ dirs, ∀ n ∈ names, FitName n) {t : Tree}
    (h : TreeNamed t) (all : AllDirs t.child) : TreeNamed (makeSkeleton env dirs t) := by
  induction dirs generalizing t with
  | nil => exact h
  | cons names dirs ih =>
    have hNames := fit names mem_cons_self
    have made : Changed t.root t.child (makeDirs env names t.root t.child) := changed_makeDirs hNames h.1 h.2 all
    have keeps : Forest.Keeps (·.kind = .dir) (makeDirs env names) := makeDirs_keeps (fun _ => rfl) names
    refine ih (fun other hOther => fit other (mem_cons_of_mem names hOther)) ?_ ?_
    · exact ⟨made.kind.trans h.1, made.fine.named⟩
    · exact (keeps t.root t.child h.1 all).2

/-- No part is `..`, and the parts before the last lead through directories. -/
def InsertSafe (kind : Kind) : List (Name × Bool) → Forest → Prop
  | [], _ => True
  | (part, last) :: rest, child =>
    if part = text "." then InsertSafe kind rest child
    else part ≠ text ".." ∧ (last = false ∨ kind = .dir → match child.findChild part with
      | some (v, below) => v.kind = .dir ∧ InsertSafe kind rest below
      | none => InsertSafe kind rest .nil)

def ImportSafe (env : Caller) (b : Buffer) (total : Nat) : Nat → Nat → Tree → Prop
  | 0, _, _ => True
  | fuel + 1, p, t =>
    if total < p + 512 ∨ b p = 0 ∨ cstr b (p + 257) 5 ≠ text "ustar" then True
    else
      let size := oct b (p + 124) 12 0
      let path := headerPath b p
      let kind := if b (p + 156) = 53 ∨ path.getLast? = some 47 then Kind.dir else Kind.file
      let mode := oct b (p + 100) 8 0 % 2 ^ 16
      InsertSafe kind (pathParts path.length (stripPath path.length path)) t.child ∧
        ImportSafe env b total fuel (p + 512 + (size + 511) / 512 * 512)
          (insertPath env path kind (fun i => b (p + 512 + i)) size mode t)

/-- The part of an initrd that matters for names. -/
def InitrdSafe (env : Caller) (initrd : Buffer) (total : Nat) : Prop :=
  512 ≤ total → ImportSafe env initrd total (total / 512) 0
    (makeSkeleton env skeleton { root := mknode env (text "/") .dir })

variable {path : Name} {fuel mode size total : Nat} {data : Buffer} {kind : Kind} {t : Tree}

lemma pathParts_fit {part : Name × Bool} (h : part ∈ pathParts fuel path) :
    part.1 ≠ [] ∧ slash ∉ part.1 ∧ part.1.length ≤ maxName - 1 := by
  induction fuel generalizing path with
  | zero => cases h
  | succ fuel ih =>
    unfold pathParts at h
    dsimp only at h
    split at h
    · cases h
    rename_i hNe
    rcases mem_cons.mp h with rfl | h
    · refine ⟨by simpa using hNe, fun hMem => ?_, ?_⟩
      · have := mem_takeWhile_imp (mem_of_mem_take hMem)
        simp [slash] at this
      · rw [length_take]
        exact Nat.min_le_left _ _
    · exact ih h

lemma fillFile_frame (data : Buffer) (size mode : Nat) (v : Vnode) :
    (fillFile data size mode v).name = v.name ∧ (fillFile data size mode v).kind = v.kind := by
  unfold fillFile
  split <;> split <;> exact ⟨rfl, rfl⟩

lemma changed_insertParts {names : List (Name × Bool)}
    (fit : ∀ part ∈ names, part.1 ≠ [] ∧ slash ∉ part.1 ∧ part.1.length ≤ maxName - 1) (hKind : v.kind = .dir)
    (h : Named child) (safe : InsertSafe kind names child) :
    Changed v child (insertParts env kind data size mode names v child) := by
  induction names generalizing v child with
  | nil => exact ⟨⟨.inr hKind, h⟩, rfl, rfl⟩
  | cons part rest ih =>
    obtain ⟨part, last⟩ := part
    obtain ⟨hne, hSlash, hShort⟩ := fit _ mem_cons_self
    have fitRest : ∀ part ∈ rest, part.1 ≠ [] ∧ slash ∉ part.1 ∧ part.1.length ≤ maxName - 1 :=
      fun other hOther => fit other (mem_cons_of_mem _ hOther)
    unfold InsertSafe at safe
    unfold insertParts
    by_cases hDot : part = text "."
    · rw [if_pos hDot] at safe ⊢
      exact ih fitRest hKind h safe
    rw [if_neg hDot] at safe ⊢
    have hFit : FitName part := ⟨⟨hne, hSlash, hDot, safe.1⟩, hShort⟩
    split
    · rename_i hDir
      have inner := safe.2 (by simpa using hDir)
      refine ⟨⟨.inr hKind, ?_⟩, rfl, rfl⟩
      refine h.findOrMakeDir hFit (fun v below hFind => ?_) fun hFind => ?_
      · rw [hFind] at inner
        exact ⟨inner.1, ih fitRest inner.1 (h.fine hFind).named inner.2⟩
      · rw [hFind] at inner
        exact ih fitRest rfl trivial inner
    split_ifs with hNone
    · refine ⟨⟨.inr hKind, h.onChild fun f below _ fine => ?_⟩, rfl, rfl⟩
      obtain ⟨hName, hKind⟩ := fillFile_frame data size mode f
      exact ⟨⟨fine.dir.imp_right hKind.trans, fine.named⟩, hName, hKind⟩
    have hName : (fillFile data size mode (mknode env part .file)).name = part :=
      (fillFile_frame data size mode _).1.trans (take_of_length_le hShort)
    refine ⟨⟨.inr hKind, h.attach ?_ ?_ ⟨.inl rfl, trivial⟩⟩, rfl, rfl⟩
    · rwa [hName]
    · rw [hName]
      exact findChild_none (by simpa using hNone)

lemma treeNamed_insertPath
    (h : TreeNamed t) (safe : InsertSafe kind (pathParts path.length (stripPath path.length path)) t.child) :
    TreeNamed (insertPath env path kind data size mode t) := by
  have inserted : Changed t.root t.child (insertParts env kind data size mode _ t.root t.child) :=
    changed_insertParts (fun _ => pathParts_fit) h.1 h.2 safe
  exact ⟨inserted.kind.trans h.1, inserted.fine.named⟩

lemma treeNamed_importInitrd {b : Buffer} {p : Nat} (h : TreeNamed t)
    (safe : ImportSafe env b total fuel p t) : TreeNamed (importInitrd env b total fuel p t) := by
  induction fuel generalizing p t with
  | zero => exact h
  | succ fuel ih =>
    unfold importInitrd
    unfold ImportSafe at safe
    split_ifs with hMore
    · exact h
    · rw [if_neg hMore] at safe
      exact ih (treeNamed_insertPath h safe.1) safe.2

lemma changed_vfsCreate (fit : FitName name) (fine : Fine v child) :
    Changed v child (vfsCreate env name kind v child) := by
  unfold vfsCreate
  split_ifs with hCheck
  · exact ⟨fine, rfl, rfl⟩
  · simp only [ne_eq, not_or, not_not, Option.not_isSome_iff_eq_none] at hCheck
    have hName : (mknode env name kind).name = name := take_of_length_le fit.2
    refine ⟨⟨.inr hCheck.1, fine.named.attach ?_ ?_ ⟨.inl rfl, trivial⟩⟩, rfl, rfl⟩
    · exact hName.symm ▸ fit
    · exact hName.symm ▸ findChild_none hCheck.2

lemma changed_setFileContent {dir content : Name} (fitDir : FitName dir) (fit : FitName name)
    (fine : Fine v child) : Changed v child (setFileContent env dir name content mode v child) := by
  have top : Changed v child (if (child.findChild dir).isSome then (v, child)
      else vfsCreate env dir .dir v child) := by
    split
    · exact ⟨fine, rfl, rfl⟩
    · exact changed_vfsCreate fitDir fine
  refine ⟨top.fine.onChild fun d files _ fineDir => ?_, top.name, top.kind⟩
  split
  · exact ⟨fineDir, rfl, rfl⟩
  · have made : Changed d files (vfsCreate env name .file d files) := changed_vfsCreate fit fineDir
    refine ⟨made.fine.onChild fun _ _ _ fine => ?_, made.name, made.kind⟩
    unfold setContent
    split
    · exact ⟨⟨fine.dir, fine.named⟩, rfl, rfl⟩
    · exact ⟨fine, rfl, rfl⟩

lemma treeNamed_seed {files : List (Name × Name × Name × Nat)} (fit : ∀ file ∈ files, FitName file.1 ∧ FitName file.2.1)
    {t : Tree} (h : TreeNamed t) : TreeNamed (seed env files t) := by
  induction files generalizing t with
  | nil => exact h
  | cons file files ih =>
    obtain ⟨fitDir, fitName⟩ := fit file mem_cons_self
    have set : Changed t.root t.child (setFileContent env file.1 file.2.1 file.2.2.1 file.2.2.2 t.root t.child) :=
      changed_setFileContent fitDir fitName ⟨.inr h.1, h.2⟩
    exact ih (fun other hOther => fit other (mem_cons_of_mem file hOther)) ⟨set.kind.trans h.1, set.fine.named⟩

lemma fitName_skeleton : ∀ names ∈ skeleton, ∀ n ∈ names, FitName n := by decide +kernel

/-- The tree of `vfs_init` has good names where the initrd does. -/
lemma treeNamed_vfsInit {initrd : Buffer} (safe : InitrdSafe env initrd total) :
    TreeNamed (vfsInit env initrd total) := by
  have made : TreeNamed (makeSkeleton env skeleton { root := mknode env (text "/") .dir }) :=
    treeNamed_makeSkeleton fitName_skeleton ⟨rfl, trivial⟩ all_nil
  refine treeNamed_seed (by decide +kernel) ?_
  split
  · exact made
  · exact treeNamed_importInitrd made (safe (by omega))

end YartOS.Vfs
