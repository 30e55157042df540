import YartOS.Fs.Sync

/-! Properties of all nodes of a tree, and how the tree operations keep them. -/
namespace YartOS.Fs

variable {P : Vnode → Prop} {f : Forest} {v u : Vnode} {child sibling below : Forest}
  {change : Vnode → Forest → Vnode × Forest}

namespace Forest

def All (P : Vnode → Prop) (f : Forest) : Prop := ∀ v ∈ f.nodes, P v

@[simp] lemma all_nil : All P nil := by
  intro v hv
  cases hv

@[simp] lemma all_cons : All P (cons v child sibling) ↔ P v ∧ All P child ∧ All P sibling := by
  simp only [All, nodes, List.forall_mem_cons, List.forall_mem_append]

lemma All.attach (h : All P f) (hu : P u) (hBelow : All P below) : All P (f.attach u below) := by
  induction f with
  | nil => exact all_cons.mpr ⟨hu, hBelow, all_nil⟩
  | cons v child sibling _ ih =>
    rw [all_cons] at h
    exact all_cons.mpr ⟨h.1, h.2.1, ih h.2.2⟩

def Keeps (P : Vnode → Prop) (change : Vnode → Forest → Vnode × Forest) : Prop :=
  ∀ v child, P v → All P child → P (change v child).1 ∧ All P (change v child).2

lemma All.onChild (h : All P f) (keeps : Keeps P change) (name : Name) : All P (f.onChild name change) := by
  induction f with
  | nil => exact h
  | cons v child sibling _ ih =>
    rw [all_cons] at h
    unfold Forest.onChild
    split_ifs
    · have := keeps v child h.1 h.2.1
      exact all_cons.mpr ⟨this.1, this.2, h.2.2⟩
    · exact all_cons.mpr ⟨h.1, h.2.1, ih h.2.2⟩

lemma All.erase (h : All P f) (i : Nat) : All P (f.erase i) := by
  induction f generalizing i with
  | nil => exact h
  | cons v child sibling _ ih =>
    rw [all_cons] at h
    cases i with
    | zero => exact h.2.2
    | succ i => exact all_cons.mpr ⟨h.1, h.2.1, ih h.2.2 i⟩

lemma All.update (h : All P f) (keeps : Keeps P change) (i : Nat) (path : List Nat) :
    All P (f.update change i path) := by
  induction f generalizing i path with
  | nil => exact h
  | cons v child sibling ihChild ihSibling =>
    rw [all_cons] at h
    cases i with
    | succ i => exact all_cons.mpr ⟨h.1, h.2.1, ihSibling h.2.2 i path⟩
    | zero =>
      cases path with
      | nil =>
        have := keeps v child h.1 h.2.1
        exact all_cons.mpr ⟨this.1, this.2, h.2.2⟩
      | cons j path => exact all_cons.mpr ⟨h.1, ihChild h.2.1 j path, h.2.2⟩

end Forest

def Tree.All (P : Vnode → Prop) (t : Tree) : Prop := P t.root ∧ t.child.All P

lemma Tree.all_iff {t : Tree} : t.All P ↔ ∀ v ∈ t.nodes, P v := by
  unfold Tree.All Forest.All Tree.nodes
  rw [List.forall_mem_cons]

lemma Tree.All.update {t : Tree} (h : t.All P) (keeps : Forest.Keeps P change) (path : List Nat) :
    (t.update change path).All P := by
  cases path with
  | nil => exact keeps t.root t.child h.1 h.2
  | cons i path => exact ⟨h.1, h.2.update keeps i path⟩

section Init

open Forest

variable {env : Caller}

section Dirs

variable (new : ∀ name, P (mknode env name .dir))

include new

lemma findOrMakeDir_all {name : Name} (keeps : Keeps P change) (h : All P child) :
    All P (findOrMakeDir env name change child) := by
  have fresh := keeps (mknode env name .dir) .nil (new name) all_nil
  unfold findOrMakeDir
  cases child.findChild name with
  | none => exact h.attach fresh.1 fresh.2
  | some found =>
    simp only
    split_ifs
    · exact h.onChild keeps name
    · exact h.attach fresh.1 fresh.2

lemma makeDirs_keeps (names : List Name) : Keeps P (makeDirs env names) := by
  induction names with
  | nil => exact fun v child hv h => ⟨hv, h⟩
  | cons name names ih => exact fun v child hv h => ⟨hv, findOrMakeDir_all new ih h⟩

lemma makeSkeleton_all (dirs : List (List Name)) {t : Tree} (h : t.All P) : (makeSkeleton env dirs t).All P := by
  induction dirs generalizing t with
  | nil => exact h
  | cons names dirs ih => exact ih (h.update (makeDirs_keeps new names) [])

end Dirs

variable (new : ∀ name kind, P (mknode env name kind))

include new

lemma insertParts_keeps {kind : Kind} {data : Bytes.Buffer} {size mode : Nat}
    (fill : ∀ v, P v → P (fillFile data size mode v)) (parts : List (Name × Bool)) :
    Keeps P (insertParts env kind data size mode parts) := by
  induction parts with
  | nil => exact fun v child hv h => ⟨hv, h⟩
  | cons part parts ih =>
    intro v child hv h
    unfold insertParts
    split_ifs
    · exact ih v child hv h
    · exact ⟨hv, findOrMakeDir_all (fun name => new name .dir) ih h⟩
    · exact ⟨hv, h.onChild (fun f below hf hBelow => ⟨fill f hf, hBelow⟩) _⟩
    · exact ⟨hv, h.attach (fill _ (new _ _)) all_nil⟩

lemma importInitrd_all (fill : ∀ data size mode v, P v → P (fillFile data size mode v)) (b : Bytes.Buffer)
    (total fuel p : Nat) {t : Tree} (h : t.All P) : (importInitrd env b total fuel p t).All P := by
  induction fuel generalizing p t with
  | zero => exact h
  | succ fuel ih =>
    unfold importInitrd
    split_ifs
    · exact h
    · exact ih _ (h.update (insertParts_keeps new (fill _ _ _) _) [])

variable (dirtied : ∀ v, P v → P { v with dirty := true })

include dirtied

lemma vfsCreate_keeps (name : Name) (kind : Kind) : Keeps P (vfsCreate env name kind) := by
  intro v child hv h
  unfold vfsCreate
  split_ifs
  · exact ⟨hv, h⟩
  · exact ⟨dirtied v hv, h.attach (dirtied _ (new name kind)) all_nil⟩

lemma setFileContent_keeps {content : Name} {mode : Nat} (set : Keeps P (setContent content mode))
    (dir name : Name) : Keeps P (setFileContent env dir name content mode) := by
  have create := vfsCreate_keeps new dirtied
  intro v child hv h
  have top : P (if (child.findChild dir).isSome then (v, child) else vfsCreate env dir .dir v child).1 ∧
      All P (if (child.findChild dir).isSome then (v, child)
        else vfsCreate env dir .dir v child).2 := by
    split_ifs
    · exact ⟨hv, h⟩
    · exact create dir .dir v child hv h
  refine ⟨top.1, top.2.onChild (fun d files hd hFiles => ?_) dir⟩
  split_ifs
  · exact ⟨hd, hFiles⟩
  · have made := create name .file d files hd hFiles
    exact ⟨made.1, made.2.onChild set name⟩

lemma seed_all (set : ∀ content mode, Keeps P (setContent content mode))
    (files : List (Name × Name × Name × Nat)) {t : Tree} (h : t.All P) : (seed env files t).All P := by
  induction files generalizing t with
  | nil => exact h
  | cons file files ih =>
    exact ih (h.update (setFileContent_keeps new dirtied (set _ _) _ _) [])

/-- The tree after `vfs_init` has every property that its steps keep. -/
lemma vfsInit_all (fill : ∀ data size mode v, P v → P (fillFile data size mode v))
    (set : ∀ content mode, Keeps P (setContent content mode)) (initrd : Bytes.Buffer)
    (total : Nat) : (vfsInit env initrd total).All P := by
  have start : Tree.All P { root := mknode env (text "/") .dir } := ⟨new _ _, all_nil⟩
  have made := makeSkeleton_all (fun name => new name .dir) skeleton start
  unfold vfsInit
  generalize makeSkeleton env skeleton { root := mknode env (text "/") .dir } = t at *
  apply seed_all new dirtied set
  split_ifs
  · exact made
  · exact importInitrd_all new fill initrd total _ 0 made

end Init

end YartOS.Fs
