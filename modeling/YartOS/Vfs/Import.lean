import YartOS.Vfs.Archive
import YartOS.Vfs.Shown

/-! The tree that the import loop makes of an archive, and the bytes of the initrd that it reads. -/
namespace YartOS.Vfs

open Fs Bytes List

variable {env : Caller} {data : Buffer} {size mode : Nat} {v : Vnode} {child : Forest} {cs : List Name} {n : Name}

/-- A part that is no dot leads one directory down. -/
lemma insertParts_cons {kind : Kind} {c : Name} {last : Bool} {rest : List (Name × Bool)} {k : Forest → Forest}
    (inner : (!last) = true ∨ kind = .dir) (ih : ∀ v below, insertParts env kind data size mode rest v below =
      (v, along env k (cs.filter (· ≠ text ".")) below)) :
    insertParts env kind data size mode ((c, last) :: rest) v child =
      (v, along env k ((c :: cs).filter (· ≠ text ".")) child) := by
  rw [insertParts]
  by_cases hDot : c = text "."
  · rw [if_pos hDot, filter_cons_of_neg (by simpa using hDot), ih]
  · rw [if_neg hDot, if_pos inner, filter_cons_of_pos (by simpa using hDot), funext fun v => funext (ih v), along]

lemma insertParts_dir :
    insertParts env .dir data size mode (flagged cs) v child = (v, along env id (cs.filter (· ≠ text ".")) child) := by
  induction cs generalizing v child with
  | nil => rfl
  | cons c cs ih =>
    obtain ⟨last, hFlag⟩ : ∃ last, flagged (c :: cs) = (c, last) :: flagged cs := by
      cases cs <;> exact ⟨_, rfl⟩
    rw [hFlag, insertParts_cons (.inr rfl) fun _ _ => ih]

lemma insertParts_file (hn : n ≠ text ".") : insertParts env .file data size mode (flagged (cs ++ [n])) v child =
      (v, along env (putFile env (fillFile data size mode) n) (cs.filter (· ≠ text ".")) child) := by
  induction cs generalizing v child with
  | nil =>
    rw [nil_append, flagged, insertParts, if_neg hn, if_neg (by simp), filter_nil, along, putFile]
    split <;> rfl
  | cons c cs ih =>
    have hFlag : flagged (c :: cs ++ [n]) = (c, false) :: flagged (cs ++ [n]) := by
      cases cs <;> rfl
    rw [hFlag, insertParts_cons (.inl rfl) fun _ _ => ih]

lemma length_le_joined (h : ∀ c ∈ cs, c ≠ []) : cs.length ≤ (joined cs).length := by
  induction cs with
  | nil => exact le_refl 0
  | cons c cs ih =>
    have hc : c.length ≠ 0 := by simpa using h c mem_cons_self
    have hRest := ih fun d hd => h d (mem_cons_of_mem _ hd)
    cases cs with
    | nil =>
      simp only [joined, length_cons, length_nil]
      omega
    | cons d cs =>
      simp only [joined, length_append, length_cons] at hRest ⊢
      omega

lemma joined_concat (cs : List Name) (n : Name) : ∃ s, joined (cs ++ [n]) = s ++ n := by
  induction cs with
  | nil => exact ⟨[], rfl⟩
  | cons c cs ih =>
    obtain ⟨s, hs⟩ := ih
    have : joined (c :: cs ++ [n]) = c ++ slash :: joined (cs ++ [n]) := by
      cases cs <;> rfl
    exact ⟨c ++ slash :: s, by rw [this, hs, append_assoc, cons_append]⟩

lemma filter_dropWhile_dots (cs : List Name) :
    (cs.dropWhile (· = text ".")).filter (· ≠ text ".") = cs.filter (· ≠ text ".") := by
  induction cs with
  | nil => rfl
  | cons c cs ih =>
    by_cases hc : c = text "."
    · rw [dropWhile_cons_of_pos (by simpa using hc), filter_cons_of_neg (by simpa using hc), ih]
    · rw [dropWhile_cons_of_neg (by simpa using hc)]

namespace Entry

variable {e : Entry}

lemma Plain.target_eq (h : e.Plain) : e.target = e.comps.filter (· ≠ text ".") := by
  refine filter_congr fun c hc => ?_
  simp [h.comps c hc]

lemma WellFormed.parts_eq (wf : e.WellFormed) (plain : e.Plain) :
    pathParts e.path.length (stripPath e.path.length e.path) = flagged (e.comps.dropWhile (· = text ".")) := by
  obtain ⟨k, tail, hPath, hTail⟩ := wf.spelled
  replace hTail : tail = [] ∨ tail = [slash] := hTail.imp_right And.right
  have fit : ∀ c ∈ e.comps, c ≠ [] ∧ slash ∉ c ∧ c.length ≤ maxName - 1 :=
    fun c hc => ⟨plain.comps c hc, wf.comps c hc⟩
  have strip := stripPath_joined hTail (fun c hc => ⟨(fit c hc).1, (fit c hc).2.1⟩) (le_of_eq (congrArg length hPath.symm))
  rw [← hPath] at strip
  rw [strip]
  split_ifs with hNil
  · rw [hNil]
    cases e.path.length <;> rfl
  refine pathParts_joined hTail (fun c hc => fit c (dropWhile_subset _ hc)) ?_
  calc (e.comps.dropWhile (· = text ".")).length ≤ e.comps.length := (dropWhile_suffix _).length_le
    _ ≤ (joined e.comps).length := length_le_joined plain.comps
    _ ≤ e.path.length := by
        rw [hPath]
        simp only [length_append]
        omega

lemma WellFormed.target_length (wf : e.WellFormed) : ∀ n ∈ e.target, n.length ≤ maxName - 1 :=
  fun n hn => (wf.comps n (mem_of_mem_filter hn)).2

/-- The last component of a file and what is before it. -/
lemma WellFormed.last (wf : e.WellFormed) (file : e.dir = false) :
    ∃ cs n, e.comps = cs ++ [n] ∧ n ≠ [] ∧ n ≠ text "." := by
  obtain ⟨n, hn, hne, hDot⟩ := wf.file file
  exact ⟨_, n, (dropLast_append_getLast? n hn).symm, hne, hDot⟩

lemma Encoded.kind_eq {b : Buffer} {p : Nat} (h : e.Encoded b p) (wf : e.WellFormed) :
    (if b (p + 156) = 53 ∨ e.path.getLast? = some 47 then Kind.dir else Kind.file) =
      if e.dir then Kind.dir else Kind.file := by
  have hType := h.type
  cases hDir : e.dir with
  | true =>
    rw [hDir, if_pos rfl] at hType
    rw [if_pos (.inl hType), if_pos rfl]
  | false =>
    rw [hDir, if_neg (by decide)] at hType
    obtain ⟨cs, n, hComps, hne, -⟩ := wf.last hDir
    obtain ⟨k, tail, hPath, hTail⟩ := wf.spelled
    obtain ⟨s, hs⟩ := joined_concat cs n
    obtain rfl : tail = [] := hTail.resolve_right (by simp [hDir])
    have hLast : e.path.getLast? = some (n.getLast hne) := by
      rw [hPath, hComps, hs, append_nil, getLast?_append_of_ne_nil _ (by simp [hne]),
        getLast?_append_of_ne_nil _ hne, getLast?_eq_getLast_of_ne_nil hne]
    rw [if_neg, if_neg (by decide)]
    rintro (hFive | hSlash)
    · rcases hType with h | h <;> rw [h] at hFive <;> exact absurd hFive (by decide)
    · rw [hLast, Option.some_inj] at hSlash
      have hMem := getLast_mem hne
      rw [hSlash] at hMem
      exact (wf.comps n (by simp [hComps])).1 hMem

def updated (env : Caller) (e : Entry) : Option Seen → Seen
  | some (.file bytes mode) =>
    .file (if e.data = [] then bytes else e.data) (if e.mode % 2 ^ 16 = 0 then mode else e.mode &&& 0o777)
  | _ => .file e.data (if e.mode % 2 ^ 16 = 0 then (mknode env [] .file).mode else e.mode &&& 0o777)

lemma permissions_mod (mode : Nat) : mode % 2 ^ 16 &&& 0o777 = mode &&& 0o777 := by
  rw [show 0o777 = 2 ^ 9 - 1 from rfl, Nat.and_two_pow_sub_one_eq_mod, Nat.and_two_pow_sub_one_eq_mod]
  exact Nat.mod_mod_of_dvd mode ⟨2 ^ 7, rfl⟩

variable {data : Buffer}

lemma map_range_getD {l : List UInt8} (h : ∀ i < l.length, data i = l.getD i 0) : (range l.length).map data = l := by
  refine ext_getElem (by simp) fun i hi hi' => ?_
  rw [getElem_map, getElem_range, h i hi', getD_eq_getElem _ _ hi']

lemma shown_fillFile (h : ∀ i < e.data.length, data i = e.data.getD i 0) {v : Vnode}
    (hv : v.kind = .file) : shown (fillFile data e.data.length (e.mode % 2 ^ 16) v) =
      .file (if e.data = [] then (range v.size).map v.data else e.data)
        (if e.mode % 2 ^ 16 = 0 then v.mode else e.mode &&& 0o777) := by
  rw [shown, (fillFile_frame _ _ _ _).2, hv]
  unfold fillFile
  simp only [length_eq_zero_iff, permissions_mod]
  split <;> split <;> simp [map_range_getD h]

section Insert

variable {t : Tree} {c : List Name}

/-- Directories lead to the entry's place, and nothing else is there. -/
structure Fits (e : Entry) (look : List Name → Option Seen) : Prop where
  dirs : ∀ c ≠ [], c <+: e.target → (e.dir = true ∨ c ≠ e.target) → look c = none ∨ look c = some .dir
  file : e.dir = false → look e.target = none ∨ ∃ bytes mode, look e.target = some (.file bytes mode)

def add (env : Caller) (e : Entry) (look : List Name → Option Seen) (c : List Name) : Option Seen :=
  if e.dir = false ∧ c = e.target then some (e.updated env (look c))
  else if c <+: e.target then some .dir
  else look c

lemma WellFormed.insertPath_dir (wf : e.WellFormed) (plain : e.Plain) (size mode : Nat) :
    insertPath env e.path .dir data size mode t = { t with child := along env id e.target t.child } := by
  unfold insertPath
  rw [wf.parts_eq plain]
  simp only [Tree.update, insertParts_dir, filter_dropWhile_dots, plain.target_eq]

lemma WellFormed.insertPath_file (wf : e.WellFormed) (plain : e.Plain) (file : e.dir = false) :
    ∃ ds n, e.target = ds ++ [n] ∧ ∀ env data size mode t, insertPath env e.path .file data size mode t =
      { t with child := along env (putFile env (fillFile data size mode) n) ds t.child } := by
  obtain ⟨cs, n, hComps, -, hDot⟩ := wf.last file
  have hDrop : e.comps.dropWhile (· = text ".") = cs.dropWhile (· = text ".") ++ [n] := by
    rw [hComps, dropWhile_append]
    split_ifs with hNil
    · rw [isEmpty_iff.mp hNil, dropWhile_cons_of_neg (by simpa using hDot)]
      rfl
    · rfl
  refine ⟨cs.filter (· ≠ text "."), n, ?_, ?_⟩
  · rw [plain.target_eq, hComps, filter_append, filter_cons_of_pos (by simpa using hDot), filter_nil]
  · intro env data size mode t
    unfold insertPath
    rw [wf.parts_eq plain, hDrop]
    simp only [Tree.update, insertParts_file hDot, filter_dropWhile_dots]

variable {f : Forest}

lemma Fits.open_target (fits : e.Fits (seen f)) (hDir : e.dir = true) : Open f e.target :=
  open_of_seen fun c hc hPre => fits.dirs c hc hPre (.inl hDir)

lemma Fits.open_dirs (fits : e.Fits (seen f)) {ds : List Name} {n : Name}
    (hTarget : e.target = ds ++ [n]) : Open f ds := by
  refine open_of_seen fun c hc hPre => fits.dirs c hc ?_ (.inr fun h => ?_)
  · exact hTarget ▸ hPre.trans (prefix_append ds [n])
  · have := hPre.length_le
    simp [h, hTarget] at this

/-- The vnode of the file is found or made, and filled. -/
lemma shown_found {n : Name} (bytes : ∀ i < e.data.length, data i = e.data.getD i 0)
    (old : seen f [n] = none ∨ ∃ bytes mode, seen f [n] = some (.file bytes mode)) :
    shown (fillFile data e.data.length (e.mode % 2 ^ 16)
      (((f.findChild n).map (·.1)).getD (mknode env n .file))) = e.updated env (seen f [n]) := by
  unfold seen at old ⊢
  cases hFind : f.findChild n with
  | none =>
    rw [shown_fillFile bytes rfl, updated]
    · split
      · rename_i hNil
        rw [hNil]
        rfl
      · rfl
    · exact fun _ _ h => by cases h
  | some r =>
    simp only [hFind, Option.map_some, reduceCtorEq, Option.some_inj, false_or] at old
    obtain ⟨content, mode, hShown⟩ := old
    have hKind : r.1.kind = .file := by
      unfold shown at hShown
      cases hr : r.1.kind <;> simp [hr] at hShown ⊢
    simp only [Option.map_some, Option.getD_some]
    rw [shown_fillFile bytes hKind, shown, hKind]
    rfl

variable (wf : e.WellFormed) (plain : e.Plain)

include wf plain

lemma WellFormed.seen_file (file : e.dir = false)
    (bytes : ∀ i < e.data.length, data i = e.data.getD i 0) (fits : e.Fits (seen t.child)) (hc : c ≠ []) :
    seen (insertPath env e.path .file data e.data.length (e.mode % 2 ^ 16) t).child c = e.add env (seen t.child) c := by
  obtain ⟨ds, n, hTarget, hInsert⟩ := wf.insertPath_file plain file
  have hLength := wf.target_length
  have hOld := fits.file file
  have hOpen := fits.open_dirs hTarget
  rw [hTarget] at hLength hOld
  rw [seen_append (by simp)] at hOld
  have hShort : n.length ≤ maxName - 1 := hLength n (by simp)
  rw [hInsert, add]
  simp only [seen_along (fun k hk => hLength k (by simp [hk])) hOpen hc, file, true_and, hTarget, prefix_concat_iff]
  by_cases hPre : c <+: ds
  · have hne : c ≠ ds ++ [n] := fun h => by simpa [h] using hPre.length_le
    rw [if_pos hPre, if_neg hne, if_pos (.inr hPre)]
  rw [if_neg hPre]
  by_cases hSuf : ds <+: c
  · obtain ⟨c', rfl⟩ := hSuf
    have hc' : c' ≠ [] := fun h => hPre (by simp [h])
    rw [if_pos (prefix_append ds c'), drop_left,
      seen_putFile hShort (fun v => (fillFile_frame _ _ _ v).1) hc', seen_append hc']
    by_cases hEq : c' = [n]
    · rw [if_pos hEq, if_pos (by rw [hEq]), hEq, shown_found bytes hOld]
    · rw [if_neg hEq, if_neg (by simp [hEq]), if_neg (by simp [hEq, hPre])]
  · have hne : c ≠ ds ++ [n] := fun h => hSuf (h ▸ prefix_append ds [n])
    rw [if_neg hSuf, if_neg hne, if_neg (by simp [hne, hPre])]

lemma WellFormed.distinct (fits : e.Fits (seen t.child)) (h : Distinct t.child) (size mode : Nat) :
    Distinct (insertPath env e.path (if e.dir then .dir else .file) data size mode t).child := by
  cases hDir : e.dir with
  | true =>
    rw [if_pos rfl, wf.insertPath_dir plain]
    exact h.along wf.target_length (fits.open_target hDir) fun _ => id
  | false =>
    obtain ⟨ds, n, hTarget, hInsert⟩ := wf.insertPath_file plain hDir
    have hLength := wf.target_length
    rw [hTarget] at hLength
    rw [if_neg (by decide), hInsert]
    exact h.along (fun k hk => hLength k (by simp [hk])) (fits.open_dirs hTarget) fun _ hBelow =>
      hBelow.putFile (hLength n (by simp)) fun v => (fillFile_frame _ _ _ v).1

lemma WellFormed.target_ne (file : e.dir = false) : e.target ≠ [] := by
  obtain ⟨ds, n, hTarget, -⟩ := wf.insertPath_file plain file
  simp [hTarget]

/-- One round of the import loop. -/
lemma WellFormed.shows (bytes : ∀ i < e.data.length, data i = e.data.getD i 0)
    {look : List Name → Option Seen} (h : Shows t.child look) (fits : e.Fits look) :
    Shows (insertPath env e.path (if e.dir then .dir else .file) data e.data.length (e.mode % 2 ^ 16) t).child
      (e.add env look) := by
  have fits' : e.Fits (seen t.child) := by
    refine ⟨fun c hc => ?_, fun hFile => ?_⟩
    · rw [h.seen c hc]
      exact fits.dirs c hc
    · rw [h.seen _ (wf.target_ne plain hFile)]
      exact fits.file hFile
  refine ⟨wf.distinct plain fits' h.distinct _ _, fun c hc => ?_⟩
  have same : e.add env look c = e.add env (seen t.child) c := by
    unfold add
    rw [h.seen c hc]
  rw [same]
  cases hDir : e.dir with
  | true =>
    rw [if_pos rfl, wf.insertPath_dir plain, add, if_neg (by simp [hDir]), ← seen_along_id wf.target_length (fits'.open_target hDir) hc]
  | false => exact wf.seen_file plain hDir bytes fits' hc

end Insert

end Entry

def filesAt (es : List Entry) (c : List Name) : List Entry := es.filter fun e => e.dir = false ∧ e.target = c

/-- The directories: the skeleton, and what leads to an entry. -/
def Leads (es : List Entry) (c : List Name) : Prop := (∃ names ∈ skeleton, c <+: names) ∨ ∃ e ∈ es, c <+: e.target

instance (es : List Entry) (c : List Name) : Decidable (Leads es c) := by
  unfold Leads
  infer_instance

/-- Skeleton and archive paths, files with bytes and mode of their last entry. -/
def wanted (es : List Entry) (c : List Name) : Option Seen :=
  match (filesAt es c).getLast? with
  | some e => some (.file e.data (e.mode &&& 0o777))
  | none => if Leads es c then some .dir else none

/-- The bytes of the last entry that has some. -/
def lastBytes (es : List Entry) : List UInt8 := es.foldl (fun acc e => if e.data = [] then acc else e.data) []

/-- The mode of the last entry with one; new files start with the caller's. -/
def lastMode (env : Caller) (es : List Entry) : Nat :=
  es.foldl (fun acc e => if e.mode % 2 ^ 16 = 0 then acc else e.mode &&& 0o777) (mknode env [] .file).mode

def imported (env : Caller) (es : List Entry) (c : List Name) : Option Seen :=
  if filesAt es c ≠ [] then some (.file (lastBytes (filesAt es c)) (lastMode env (filesAt es c)))
  else if Leads es c then some .dir else none

/-- No file is used as a directory. -/
structure Compatible (es : List Entry) : Prop where
  skeleton : ∀ e ∈ es, e.dir = false → ∀ names ∈ skeleton, ¬ e.target <+: names
  apart : ∀ e ∈ es, e.dir = false → ∀ e' ∈ es, e.target <+: e'.target → e'.dir = false ∧ e'.target = e.target

/-- Of a file's entries the last has bytes unless none has, and a mode if there is any. -/
def Latest (env : Caller) (l : List Entry) : Prop :=
  ∀ e ∈ l.getLast?, (e.data ≠ [] ∨ ∀ e' ∈ l, e'.data = []) ∧ (e.mode % 2 ^ 16 ≠ 0 ∨ lastMode env l = 0)

variable {es : List Entry} {e : Entry} {c : List Name}

lemma filesAt_concat : filesAt (es ++ [e]) c =
    if e.dir = false ∧ e.target = c then filesAt es c ++ [e] else filesAt es c := by
  unfold filesAt
  rw [filter_append]
  by_cases h : e.dir = false ∧ e.target = c
  · rw [if_pos h, filter_cons_of_pos (by simpa using h), filter_nil]
  · rw [if_neg h, filter_cons_of_neg (by simpa using h), filter_nil, append_nil]

lemma mem_filesAt {e' : Entry} : e' ∈ filesAt es c ↔ e' ∈ es ∧ e'.dir = false ∧ e'.target = c := by simp [filesAt]

lemma leads_concat : Leads (es ++ [e]) c ↔ Leads es c ∨ c <+: e.target := by
  simp [Leads, or_and_right, exists_or, or_assoc]

lemma lastBytes_concat : lastBytes (es ++ [e]) = if e.data = [] then lastBytes es else e.data := by
  simp [lastBytes, foldl_append, foldl_cons, foldl_nil]

lemma lastMode_concat :
    lastMode env (es ++ [e]) = if e.mode % 2 ^ 16 = 0 then lastMode env es else e.mode &&& 0o777 := by
  simp [lastMode, foldl_append, foldl_cons, foldl_nil]

lemma imported_file (hFile : e.dir = false) :
    imported env (es ++ [e]) e.target = some (e.updated env (imported env es e.target)) := by
  have hAt : filesAt (es ++ [e]) e.target = filesAt es e.target ++ [e] := by rw [filesAt_concat, if_pos ⟨hFile, rfl⟩]
  rw [imported, hAt, if_pos (by simp), lastBytes_concat, lastMode_concat, imported]
  by_cases hNil : filesAt es e.target = []
  · -- The first entry of the file: it starts empty, with the mode of a new vnode.
    have hBytes : (if e.data = [] then lastBytes [] else e.data) = e.data := by
      split_ifs with h
      · exact h.symm
      · rfl
    rw [hNil, hBytes, if_neg (not_not_intro rfl)]
    by_cases hLeads : Leads es e.target
    · rw [if_pos hLeads]
      rfl
    · rw [if_neg hLeads]
      rfl
  · rw [if_pos hNil]
    rfl

/-- An entry on whose way the path is shows that the path is no file. -/
lemma Compatible.filesAt_nil (h : Compatible (es ++ [e])) (hPre : c <+: e.target)
    (hNot : ¬ (e.dir = false ∧ c = e.target)) : filesAt es c = [] := by
  refine eq_nil_iff_forall_not_mem.mpr fun e' he' => hNot ?_
  obtain ⟨hMem, hFile, rfl⟩ := mem_filesAt.mp he'
  obtain ⟨h1, h2⟩ := h.apart e' (mem_append_left _ hMem) hFile e (by simp) hPre
  exact ⟨h1, h2.symm⟩

lemma Compatible.fits (h : Compatible (es ++ [e])) : e.Fits (imported env es) where
  dirs c _ hPre hDir := by
    have hNil := h.filesAt_nil hPre fun ⟨hFile, hEq⟩ => by
      rcases hDir with hDir | hDir
      · simp [hFile] at hDir
      · exact hDir hEq
    rw [imported, if_neg (by simp [hNil])]
    split
    · exact .inr rfl
    · exact .inl rfl
  file hFile := by
    unfold imported
    split
    · exact .inr ⟨_, _, rfl⟩
    rename_i hNil
    rw [if_neg]
    · exact .inl rfl
    rintro (⟨names, hNames, hPre⟩ | ⟨e', he', hPre⟩)
    · exact h.skeleton e (by simp) hFile names hNames hPre
    · obtain ⟨h1, h2⟩ := h.apart e (by simp) hFile e' (mem_append_left _ he') hPre
      exact hNil (ne_nil_of_mem (mem_filesAt.mpr ⟨he', h1, h2⟩))

lemma Compatible.imported_concat (h : Compatible (es ++ [e])) :
    imported env (es ++ [e]) c = e.add env (imported env es) c := by
  unfold Entry.add
  by_cases hFile : e.dir = false ∧ c = e.target
  · rw [if_pos hFile, hFile.2, imported_file hFile.1]
  rw [if_neg hFile]
  have hSame : filesAt (es ++ [e]) c = filesAt es c := by
    rw [filesAt_concat, if_neg fun ⟨h1, h2⟩ => hFile ⟨h1, h2.symm⟩]
  by_cases hPre : c <+: e.target
  · rw [if_pos hPre, imported, hSame, h.filesAt_nil hPre hFile, if_neg (by simp), if_pos (leads_concat.mpr (.inr hPre))]
  · rw [if_neg hPre, imported, hSame, imported]
    simp [leads_concat, hPre, or_false]

lemma Compatible.mono {es' : List Entry} (h : Compatible es') (sub : es ⊆ es') : Compatible es where
  skeleton e he := h.skeleton e (sub he)
  apart e he hFile e' he' := h.apart e (sub he) hFile e' (sub he')

variable {total p : Nat} {b : Buffer} {name : Name} {comps : List Name}

/-- The import loop over an archive, from a tree with the earlier entries. -/
lemma Archive.shows {fuel : Nat} {t : Tree} {done : List Entry}
    (h : Archive b total p es) (plain : ∀ e ∈ es, e.Plain) (compatible : Compatible (done ++ es))
    (enough : total < p + (fuel + 1) * 512) (hShows : Shows t.child (imported env done)) :
    Shows (importInitrd env b total fuel p t).child (imported env (done ++ es)) := by
  induction es generalizing p t fuel done with
  | nil =>
    rw [append_nil]
    cases fuel with
    | zero => exact hShows
    | succ fuel =>
      rw [importInitrd, if_pos (h.imp_right .inl)]
      exact hShows
  | cons e es ih =>
    obtain ⟨wf, encoded, hRoom, hRest⟩ := h
    have hPlain := plain e mem_cons_self
    have hMin : 512 ≤ e.room := Nat.le_add_right _ _
    have hHeader : p + 512 ≤ total := by omega
    obtain ⟨fuel, rfl⟩ : ∃ m, fuel = m + 1 := ⟨fuel - 1, by omega⟩
    have hFirst : Compatible (done ++ [e]) := compatible.mono (by simp)
    have step : Shows (insertPath env e.path (if e.dir then .dir else .file) (fun i => b (p + 512 + i))
        e.data.length (e.mode % 2 ^ 16) t).child (imported env (done ++ [e])) :=
      (wf.shows hPlain encoded.data hShows hFirst.fits).congr fun c _ => hFirst.imported_concat.symm
    have hNext : total < p + e.room + (fuel + 1) * 512 := by omega
    rw [importInitrd, if_neg (by simp [encoded.magic_eq, encoded.first_ne wf, hHeader])]
    simp only [encoded.headerPath_eq wf hPlain, encoded.kind_eq wf, encoded.size.oct_eq, encoded.mode.oct_eq]
    rw [append_cons] at compatible ⊢
    rw [Entry.room, ← Nat.add_assoc] at hRest hNext
    exact ih hRest (fun e' he' => plain e' (mem_cons_of_mem _ he')) compatible hNext step

lemma makeDirs_eq (names : List Name) : makeDirs env names = fun v child => (v, along env id names child) := by
  induction names with
  | nil => rfl
  | cons n names ih =>
    funext v child
    rw [makeDirs, ih, along]

/-- The directories of the skeleton, one after another. -/
lemma shows_makeSkeleton {dirs done : List (List Name)} (fit : ∀ names ∈ dirs, ∀ n ∈ names, n.length ≤ maxName - 1)
    {t : Tree} (h : Shows t.child fun c => if ∃ names ∈ done, c <+: names then some .dir else none) :
    Shows (makeSkeleton env dirs t).child fun c => if ∃ names ∈ done ++ dirs, c <+: names then some .dir else none := by
  unfold makeSkeleton
  induction dirs generalizing t done with
  | nil => simpa using h
  | cons names dirs ih =>
    have hFit := fit names mem_cons_self
    have hOpen : Open t.child names := open_of_seen fun c hc _ => by
      rw [h.seen c hc]
      split
      · exact .inr rfl
      · exact .inl rfl
    rw [foldl_cons, append_cons]
    refine ih (fun other hOther => fit other (mem_cons_of_mem _ hOther)) ?_
    rw [makeDirs_eq]
    refine ⟨h.distinct.along hFit hOpen fun _ => id, fun c hc => ?_⟩
    simp only [Tree.update, seen_along_id hFit hOpen hc, h.seen c hc]
    by_cases hPre : c <+: names
    · rw [if_pos hPre, if_pos ⟨names, by simp, hPre⟩]
    · simp [hPre, or_and_right, exists_or]

def importTree (env : Caller) (b : Buffer) (total : Nat) : Tree :=
  importInitrd env b total (total / 512) 0 (makeSkeleton env skeleton { root := mknode env (text "/") .dir })

def Exact (env : Caller) (b : Buffer) (total : Nat) (es : List Entry) : Prop :=
  Shows (importTree env b total).child (wanted es)

lemma Archive.importTree (h : Archive b total 0 es) (plain : ∀ e ∈ es, e.Plain)
    (compatible : Compatible es) : Shows (importTree env b total).child (imported env es) := by
  have empty : Shows Forest.nil fun c => if ∃ names ∈ ([] : List (List Name)), c <+: names then some .dir else none :=
    ⟨trivial, fun c _ => by simp⟩
  have start : Shows (makeSkeleton env skeleton { root := mknode env (text "/") .dir }).child (imported env []) := by
    have made : Shows (makeSkeleton env skeleton { root := mknode env (text "/") .dir }).child fun c =>
        if ∃ names ∈ [] ++ skeleton, c <+: names then some .dir else none :=
      shows_makeSkeleton (fun names hNames n hn => (fitName_skeleton names hNames n hn).2) empty
    exact made.congr fun c _ => by simp [imported, filesAt, Leads]
  rw [← nil_append es] at compatible ⊢
  exact h.shows plain compatible (by omega) start

lemma lastBytes_eq_nil {l : List Entry} : lastBytes l = [] ↔ ∀ e ∈ l, e.data = [] := by
  induction l using reverseRecOn with
  | nil => simp [lastBytes]
  | append_singleton l e ih =>
    rw [lastBytes_concat]
    by_cases hNil : e.data = []
    · rw [if_pos hNil, ih, forall_mem_append]
      simp [hNil]
    · simp [hNil]

lemma imported_eq_wanted : imported env es c = wanted es c ↔ Latest env (filesAt es c) := by
  unfold imported wanted
  rcases eq_nil_or_concat (filesAt es c) with hNil | ⟨l, e, hConcat⟩
  · simp [hNil, Latest]
  rw [concat_eq_append] at hConcat
  rw [hConcat, if_pos (by simp), getLast?_concat]
  have hMode : e.mode % 2 ^ 16 = 0 → e.mode &&& 0o777 = 0 := fun h => by rw [← Entry.permissions_mod, h, Nat.zero_and]
  have bytes : lastBytes (l ++ [e]) = e.data ↔ e.data ≠ [] ∨ ∀ e' ∈ l ++ [e], e'.data = [] := by
    rw [lastBytes_concat, ← lastBytes_eq_nil, lastBytes_concat]
    by_cases hNil : e.data = [] <;> simp [hNil]
  have mode : lastMode env (l ++ [e]) = e.mode &&& 0o777 ↔ e.mode % 2 ^ 16 ≠ 0 ∨ lastMode env (l ++ [e]) = 0 := by
    rw [lastMode_concat]
    by_cases hZero : e.mode % 2 ^ 16 = 0
    · rw [if_pos hZero, hMode hZero, or_iff_right (not_not_intro hZero)]
    · rw [if_neg hZero, or_iff_left_of_imp fun _ => hZero]
      exact iff_of_true rfl hZero
  simp [Seen.file.injEq, bytes, mode, Latest, Option.mem_def, forall_eq']

lemma Archive.wellFormed (h : Archive b total p es) : ∀ e ∈ es, e.WellFormed := by
  induction es generalizing p with
  | nil => simp
  | cons e es ih => exact forall_mem_cons.mpr ⟨h.1, ih h.2.2.2⟩

lemma Archive.exact_iff (h : Archive b total 0 es) (plain : ∀ e ∈ es, e.Plain)
    (compatible : Compatible es) : Exact env b total es ↔ ∀ c, Latest env (filesAt es c) := by
  have hShows : Shows (Vfs.importTree env b total).child (imported env es) := h.importTree plain compatible
  refine ⟨fun exact c => ?_, fun latest => hShows.congr fun c _ => imported_eq_wanted.mpr (latest c)⟩
  by_cases hc : c = []
  · have hNil : filesAt es c = [] := eq_nil_iff_forall_not_mem.mpr fun e he => by
      obtain ⟨hMem, hFile, hTarget⟩ := mem_filesAt.mp he
      exact (h.wellFormed e hMem).target_ne (plain e hMem) hFile (hTarget.trans hc)
    simp [Latest, hNil]
  · exact imported_eq_wanted.mp ((hShows.seen c hc).symm.trans (exact.seen c hc))

section Reads

def Entered (b : Buffer) (total p : Nat) : Prop := p + 512 ≤ total ∧ b p ≠ 0 ∧ cstr b (p + 257) 5 = text "ustar"

def entrySize (b : Buffer) (p : Nat) : Nat := oct b (p + 124) 12 0

inductive Header (b : Buffer) (total : Nat) : Nat → Prop where
  | first : Header b total 0
  | next {p : Nat} (here : Header b total p) (entered : Entered b total p) :
      Header b total (p + 512 + (entrySize b p + 511) / 512 * 512)

/-- `insert_path` comes to the last part of a file's path and copies. -/
def Copies (b : Buffer) (p : Nat) : Prop :=
  let path := headerPath b p
  b (p + 156) ≠ 53 ∧ path.getLast? ≠ some 47 ∧ entrySize b p ≠ 0 ∧
    ∃ part ∈ pathParts path.length (stripPath path.length path), part.1 ≠ text "." ∧ part.2 = true

/-- The bytes read for the header at `p`: header, prefix and contents. -/
inductive Reads (b : Buffer) (total p : Nat) : Nat → Prop where
  | header {i : Nat} (inside : p + 512 ≤ total) (above : p ≤ i) (below : i < p + 512) : Reads b total p i
  | front {i : Nat} (entered : Entered b total p) (present : b (p + 345) ≠ 0) (above : p + 345 ≤ i)
      (below : ∀ j, p + 345 ≤ j → j < i → b j ≠ 0) : Reads b total p i
  | data {i : Nat} (entered : Entered b total p) (copies : Copies b p) (above : p + 512 ≤ i)
      (below : i < p + 512 + entrySize b p) : Reads b total p i

def ReadsInside (b : Buffer) (total : Nat) : Prop := ∀ p, Header b total p → ∀ i, Reads b total p i → i < total

/-- The prefix of the header ends in the initrd, and so do its contents. -/
structure Contained (b : Buffer) (total p : Nat) : Prop where
  front : b (p + 345) ≠ 0 → ∃ j, p + 345 ≤ j ∧ j < total ∧ b j = 0
  data : Copies b p → p + 512 + entrySize b p ≤ total

variable {b : Buffer} {total p : Nat}

lemma contained_iff (entered : Entered b total p) : Contained b total p ↔ ∀ i, Reads b total p i → i < total := by
  constructor
  · intro h i hi
    cases hi with
    | header inside _ below => omega
    | front _ present _ below =>
      obtain ⟨j, hj, hTotal, hZero⟩ := h.front present
      by_contra hOut
      exact below j hj (by omega) hZero
    | data _ copies _ below =>
      have := h.data copies
      omega
  · intro h
    refine ⟨fun present => ?_, fun copies => ?_⟩
    · by_contra hNone
      have : total < total := h total (.front entered present (by have := entered.1; omega) fun j hj hLt hZero =>
        hNone ⟨j, hj, hLt, hZero⟩)
      omega
    · have hSome : entrySize b p ≠ 0 := copies.2.2.1
      have := h (p + 512 + entrySize b p - 1) (.data entered copies (by omega) (by omega))
      omega

lemma readsInside_iff : ReadsInside b total ↔ ∀ p, Header b total p → Entered b total p → Contained b total p := by
  refine ⟨fun h p here entered => (contained_iff entered).mpr (h p here), fun h p here i hi => ?_⟩
  cases hi with
  | header inside _ below => omega
  | front entered present above below =>
    exact (contained_iff entered).mp (h p here entered) i (.front entered present above below)
  | data entered copies above below =>
    exact (contained_iff entered).mp (h p here entered) i (.data entered copies above below)

/-- The loop ends: each round takes a header of the initrd. -/
lemma importInitrd_fuel {env : Caller} {fuel : Nat} (more : Nat) {t : Tree} (enough : total < p + (fuel + 1) * 512) :
    importInitrd env b total (fuel + more) p t = importInitrd env b total fuel p t := by
  induction fuel generalizing p t with
  | zero =>
    cases more with
    | zero => rfl
    | succ more =>
      rw [importInitrd, Nat.zero_add, importInitrd, if_pos (.inl (by omega))]
  | succ fuel ih =>
    rw [Nat.add_right_comm, importInitrd, importInitrd]
    split
    · rfl
    · exact ih (by omega)

end Reads

/-- The import ends for every image and reads inside of one whose headers and contents do. Of a
well-formed archive it makes the tree iff no file loses its last bytes or mode to an earlier entry. -/
theorem import_exact (env : Caller) (b : Buffer) (total : Nat) : (∀ t fuel, total / 512 ≤ fuel →
      importInitrd env b total fuel 0 t = importInitrd env b total (total / 512) 0 t) ∧
    (ReadsInside b total ↔ ∀ p, Header b total p → Entered b total p → Contained b total p) ∧
    ∀ es : List Entry, Archive b total 0 es → Compatible es → (∀ e ∈ es, e.Plain) →
      vfsInit env b total = seed env seedFiles (importTree env b total) ∧
      (Exact env b total es ↔ ∀ c, Latest env (filesAt es c)) := by
  refine ⟨fun t fuel hFuel => ?_, readsInside_iff, fun es h compatible plain =>
    ⟨?_, h.exact_iff plain compatible⟩⟩
  · obtain ⟨more, rfl⟩ := Nat.exists_eq_add_of_le hFuel
    exact importInitrd_fuel more (by omega)
  · unfold vfsInit importTree
    split_ifs with h
    · rw [Nat.div_eq_of_lt h, importInitrd]
    · rfl

/-- The header after the name, for mode `0644` and this size. -/
def headerTail (size : Name) : List UInt8 :=
  text "0000644" ++ replicate 17 0 ++ size ++ replicate 21 0 ++ [48] ++ replicate 100 0 ++
    text "ustar" ++ replicate 250 0

def oneByteImage (name : Name) : Buffer :=
  ofBytes (name ++ replicate (100 - name.length) 0 ++ (headerTail (text "00000000001") ++ [120]))

def oneByteEntry (comps : List Name) : Entry where
  front := []
  name := joined comps
  comps := comps
  dir := false
  mode := 0o644
  data := [120]

lemma oneByteImage_name (h : name.length ≤ 100) : Field (oneByteImage name) 0 100 name := by
  intro i hi
  rw [Nat.zero_add, oneByteImage, ofBytes, getD_append _ _ _ _ (by simp; omega)]
  rcases Nat.lt_or_ge i name.length with hLt | hGe
  · rw [getD_append _ _ _ _ hLt]
  · rw [getD_append_right _ _ _ _ hGe, getD_replicate _ (by omega), getD_eq_default _ _ hGe]

lemma oneByteImage_tail (h : name.length ≤ 100) (i : Nat) :
    oneByteImage name (100 + i) = (headerTail (text "00000000001") ++ [120]).getD i 0 := by
  have hLength : (name ++ replicate (100 - name.length) 0).length = 100 := by
    simp
    omega
  rw [oneByteImage, ofBytes, getD_append_right _ _ _ _ (by omega), hLength, Nat.add_sub_cancel_left]

lemma oneByteEntry_encoded (h : (joined comps).length ≤ 100) :
    (oneByteEntry comps).Encoded (oneByteImage (joined comps)) 0 := by
  have tail := oneByteImage_tail h
  have at_ (off i : Nat) (hOff : 100 ≤ off) : oneByteImage (joined comps) (0 + off + i) =
      (headerTail (text "00000000001") ++ [120]).getD (off - 100 + i) 0 := by
    rw [← tail]
    congr 1
    omega
  refine ⟨oneByteImage_name h, ⟨[0, 0, 0, 0, 6, 4, 4], ?_⟩, ⟨[0, 0, 0, 0, 0, 0, 0, 0, 0, 0, 1], ?_⟩, .inl ?_, ?_, ?_, ?_, ?_⟩
  · simp only [at_ 100 _ (by decide), oneByteEntry]
    decide +kernel
  · simp only [at_ 124 _ (by decide), oneByteEntry]
    decide +kernel
  · rw [← Nat.add_zero (0 + 156), at_ 156 0 (by decide)]
    decide +kernel
  · simp only [at_ 257 _ (by decide)]
    decide +kernel
  · simp only [Field, at_ 345 _ (by decide), oneByteEntry]
    decide +kernel
  · simp only [Field, at_ 500 _ (by decide)]
    decide +kernel
  · simp only [at_ 512 _ (by decide), oneByteEntry]
    decide +kernel

lemma oneByteEntry_archive (hLength : joined comps ≠ [] ∧ (joined comps).length ≤ 100) (noZero : 0 ∉ joined comps)
    (fit : ∀ c ∈ comps, slash ∉ c ∧ c.length ≤ maxName - 1) (last : ∃ c ∈ comps.getLast?, c ≠ [] ∧ c ≠ text ".") :
    Archive (oneByteImage (joined comps)) 1024 0 [oneByteEntry comps] := by
  have hPath : (oneByteEntry comps).path = joined comps := by simp [Entry.path, oneByteEntry]
  refine ⟨?_, oneByteEntry_encoded hLength.2, by simp [oneByteEntry, Entry.room], .inl (by simp [oneByteEntry, Entry.room])⟩
  refine ⟨by simp [oneByteEntry], ⟨hLength.1, hLength.2, noZero⟩, ?_, fit, ⟨0, [], ?_, .inl rfl⟩, fun _ => last,
    by simp [oneByteEntry]⟩
  · rw [hPath]
    omega
  · rw [hPath]
    simp [oneByteEntry]

lemma oneByteEntry_compatible
    (h : ∀ names ∈ skeleton, ¬ (oneByteEntry comps).target <+: names) : Compatible [oneByteEntry comps] := by
  refine ⟨fun e he _ => ?_, fun e he hFile e' he' _ => ?_⟩
  · rwa [mem_singleton.mp he]
  · rw [mem_singleton.mp he, mem_singleton.mp he']
    exact ⟨rfl, rfl⟩

theorem import_exact_on_one_file : Archive (oneByteImage (joined [text "a"])) 1024 0 [oneByteEntry [text "a"]] ∧
      Exact {} (oneByteImage (joined [text "a"])) 1024 [oneByteEntry [text "a"]] := by
  have archive : Archive (oneByteImage (joined [text "a"])) 1024 0 [oneByteEntry [text "a"]] :=
    oneByteEntry_archive (by decide) (by decide) (by decide) (by decide)
  refine ⟨archive, ((import_exact {} _ _).2.2 _ archive (oneByteEntry_compatible (by decide)) ?_).2.mpr ?_⟩
  · exact forall_mem_singleton.mpr ⟨by decide, by decide⟩
  · intro c e he
    obtain rfl : e = oneByteEntry [text "a"] := by simpa [filesAt] using (mem_filesAt.mp (mem_of_getLast? he)).1
    exact ⟨.inl (by decide), .inl (by decide)⟩

def fullName : List Name := [replicate 49 97, replicate 50 98]

/-- Contents are copied from behind a cut image, and a name that fills its field runs into the
mode. -/
theorem import_not_exact : (∃ b total, ¬ ReadsInside b total) ∧
    ∃ env b total es, Archive b total 0 es ∧ Compatible es ∧ ¬ Exact env b total es := by
  constructor
  · refine ⟨oneByteImage (text "a"), 512, fun inside => ?_⟩
    have entered : Entered (oneByteImage (text "a")) 512 0 := by
      unfold Entered
      decide +kernel
    have copies : Copies (oneByteImage (text "a")) 0 := by
      unfold Copies
      decide +kernel
    exact absurd (inside 0 .first 512 (.data entered copies (by decide) (by decide +kernel))) (by decide)
  · refine ⟨{}, oneByteImage (joined fullName), 1024, [oneByteEntry fullName], ?_, ?_, fun exact => ?_⟩
    · exact oneByteEntry_archive (by decide) (by decide) (by decide) (by decide)
    · exact oneByteEntry_compatible (by decide +kernel)
    · exact absurd (exact.seen fullName (by decide)) (by decide +kernel)

end YartOS.Vfs
