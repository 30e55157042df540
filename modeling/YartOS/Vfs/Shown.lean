import YartOS.Vfs.Initial

/-! What the paths of a tree show, and how it changes when directories and files are put into it
along a path. -/
namespace YartOS.Vfs

open Fs Bytes List Option

inductive Seen where
  | dir
  | file (bytes : List UInt8) (mode : Nat)
  | symlink
deriving DecidableEq

def shown (v : Vnode) : Seen :=
  match v.kind with
  | .dir => .dir
  | .file => .file ((range v.size).map v.data) v.mode
  | .symlink => .symlink

def under (f : Forest) (n : Name) : Forest := ((f.findChild n).map (·.2)).getD .nil

/-- What the path shows, where the first vnode of a name counts. -/
def seen : Forest → List Name → Option Seen
  | _, [] => none
  | f, [n] => (f.findChild n).map (shown ·.1)
  | f, n :: m :: rest => seen (under f n) (m :: rest)

def Distinct : Forest → Prop
  | .nil => True
  | .cons v child sibling => v.name ∉ tops sibling ∧ Distinct child ∧ Distinct sibling

/-- The names lead through directories as far as they exist. -/
def Open : Forest → List Name → Prop
  | _, [] => True
  | f, n :: rest => (∀ v ∈ (f.findChild n).map (·.1), v.kind = .dir) ∧ Open (under f n) rest

/-- The forest shows at each path what the function says, and nothing twice. -/
structure Shows (f : Forest) (look : List Name → Option Seen) : Prop where
  distinct : Distinct f
  seen : ∀ c ≠ [], seen f c = look c

lemma Shows.congr {f : Forest} {look look' : List Name → Option Seen} (h : Shows f look)
    (same : ∀ c ≠ [], look c = look' c) : Shows f look' :=
  ⟨h.distinct, fun c hc => (h.seen c hc).trans (same c hc)⟩

/-- Changes what is below a path of directories, made where missing. -/
def along (env : Caller) (change : Forest → Forest) : List Name → Forest → Forest
  | [], f => change f
  | n :: rest, f => findOrMakeDir env n (fun v below => (v, along env change rest below)) f

def putFile (env : Caller) (fill : Vnode → Vnode) (n : Name) (f : Forest) : Forest :=
  if (f.findChild n).isSome then f.onChild n fun v below => (fill v, below)
  else f.attach (fill (mknode env n .file)) .nil

variable {f child below : Forest} {v u : Vnode} {n m : Name} {c names : List Name} {env : Caller}
  {change : Vnode → Forest → Vnode × Forest} {g : Forest → Forest} {fill : Vnode → Vnode}

lemma findChild_attach :
    (f.attach u below).findChild m = (f.findChild m).or (if u.name = m then some (u, below) else none) := by
  induction f with
  | nil => rfl
  | cons v child sibling _ ih =>
    unfold Forest.attach Forest.findChild
    split
    · rfl
    · exact ih

lemma findChild_onChild (keeps : ∀ v below, (change v below).1.name = v.name) : (f.onChild n change).findChild m =
      if m = n then (f.findChild n).map fun r => change r.1 r.2 else f.findChild m := by
  induction f with
  | nil => simp [Forest.onChild, Forest.findChild]
  | cons v child sibling _ ih =>
    unfold Forest.onChild
    by_cases hn : v.name = n
    · subst hn
      rw [if_pos rfl]
      simp only [Forest.findChild, keeps]
      by_cases hm : m = v.name
      · simp [hm]
      · simp [hm, Ne.symm hm]
    · simp only [Forest.findChild, ih, if_neg hn]
      by_cases hm : m = n
      · simp [hm, hn]
      · simp [hm]

lemma Distinct.attach (h : Distinct f) (new : u.name ∉ tops f) (hBelow : Distinct below) :
    Distinct (f.attach u below) := by
  induction f with
  | nil => exact ⟨not_mem_nil, hBelow, trivial⟩
  | cons v child sibling _ ih =>
    obtain ⟨hNew, hChild, hSibling⟩ := h
    have new' : u.name ≠ v.name ∧ u.name ∉ tops sibling := by simpa [tops] using new
    refine ⟨?_, hChild, ih hSibling new'.2⟩
    rw [tops_attach]
    simpa [hNew] using Ne.symm new'.1

lemma Distinct.onChild (h : Distinct f) (keeps : ∀ v below, (change v below).1.name = v.name)
    (inner : ∀ v below, f.findChild n = some (v, below) → Distinct below → Distinct (change v below).2) :
    Distinct (f.onChild n change) := by
  induction f with
  | nil => trivial
  | cons v child sibling _ ih =>
    obtain ⟨hNew, hChild, hSibling⟩ := h
    unfold Forest.onChild
    unfold Forest.findChild at inner
    split_ifs with hn
    · rw [if_pos hn] at inner
      refine ⟨?_, inner v child rfl hChild, hSibling⟩
      rwa [keeps]
    · rw [if_neg hn] at inner
      refine ⟨?_, hChild, ih hSibling inner⟩
      rwa [tops_onChild fun v below _ => keeps v below]

@[simp] lemma seen_nil : seen .nil c = none := by
  induction c with
  | nil => rfl
  | cons n c ih =>
    cases c with
    | nil => rfl
    | cons m c => exact ih

lemma seen_cons (hc : c ≠ []) : seen f (n :: c) = seen (under f n) c := by
  obtain ⟨m, rest, rfl⟩ := exists_cons_of_ne_nil hc
  rfl

/-- The path goes on below the names. -/
lemma seen_append (hc : c ≠ []) : seen f (names ++ c) = seen (names.foldl under f) c := by
  induction names generalizing f with
  | nil => rfl
  | cons n names ih =>
    rw [cons_append, seen_cons (by simp [hc]), ih]
    rfl

lemma shown_dir : shown v = .dir ↔ v.kind = .dir := by
  unfold shown
  cases v.kind <;> simp

lemma open_of_seen (h : ∀ c ≠ [], c <+: names → seen f c = none ∨ seen f c = some .dir) : Open f names := by
  induction names generalizing f with
  | nil => trivial
  | cons n names ih =>
    refine ⟨fun v hv => ?_, ih fun c hc hPre => ?_⟩
    · have first := h [n] (by simp) (by simp)
      obtain ⟨r, hr, rfl⟩ := mem_map.mp hv
      simp only [seen, mem_def.mp hr, map_some, reduceCtorEq, some.injEq, false_or] at first
      exact shown_dir.mp first
    · rw [← seen_cons hc]
      exact h (n :: c) (by simp) (cons_prefix_cons.mpr ⟨rfl, hPre⟩)

section FindOrMake

variable (fit : n.length ≤ maxName - 1) (dir : ∀ v ∈ (f.findChild n).map (·.1), v.kind = .dir)

include fit dir

lemma findChild_findOrMakeDir : (findOrMakeDir env n (fun v below => (v, g below)) f).findChild m =
      if m = n then some (((f.findChild n).map (·.1)).getD (mknode env n .dir), g (under f n))
      else f.findChild m := by
  have hName : (mknode env n .dir).name = n := take_of_length_le fit
  unfold findOrMakeDir under
  cases hFind : f.findChild n with
  | some found =>
    obtain ⟨v, below⟩ := found
    simp only
    rw [if_pos (dir v (by simp [hFind])), findChild_onChild fun _ _ => rfl, hFind]
    rfl
  | none =>
    rw [findChild_attach, hName]
    by_cases hm : m = n
    · rw [if_pos hm, if_pos hm.symm, hm, hFind]
      rfl
    · rw [if_neg hm, if_neg (Ne.symm hm), or_none]

lemma under_findOrMakeDir :
    under (findOrMakeDir env n (fun v below => (v, g below)) f) m = if m = n then g (under f n) else under f m := by
  rw [under, findChild_findOrMakeDir fit dir]
  split <;> rfl

lemma seen_findOrMakeDir : seen (findOrMakeDir env n (fun v below => (v, g below)) f) [m] =
      if m = n then some .dir else seen f [m] := by
  rw [seen, findChild_findOrMakeDir fit dir]
  split
  · rw [map_some, some_inj, shown_dir]
    cases hFind : (f.findChild n).map (·.1) with
    | none => rfl
    | some v => exact dir v hFind
  · rfl

lemma Distinct.findOrMakeDir (h : Distinct f) (inner : Distinct (under f n) → Distinct (g (under f n))) :
    Distinct (findOrMakeDir env n (fun v below => (v, g below)) f) := by
  have hName : (mknode env n .dir).name = n := take_of_length_le fit
  unfold Fs.findOrMakeDir
  unfold under at inner
  cases hFind : f.findChild n with
  | some found =>
    simp only [hFind, map_some, getD_some] at inner ⊢
    rw [if_pos (dir found.1 (by simp [hFind]))]
    refine h.onChild (fun _ _ => rfl) fun v below hv => ?_
    rw [hFind, some_inj] at hv
    rwa [hv] at inner
  | none =>
    simp only [hFind, map_none, getD_none] at inner ⊢
    refine h.attach ?_ (inner trivial)
    rw [hName]
    exact findChild_none hFind

end FindOrMake

section

variable (fit : ∀ n ∈ names, n.length ≤ maxName - 1)

include fit

lemma seen_along (h : Open f names) (hc : c ≠ []) : seen (along env g names f) c = if c <+: names then some .dir
      else if names <+: c then seen (g (names.foldl under f)) (c.drop names.length) else seen f c := by
  induction names generalizing f c with
  | nil => simp [along, hc]
  | cons n names ih =>
    obtain ⟨m, c, rfl⟩ := exists_cons_of_ne_nil hc
    have fitNames : ∀ n ∈ names, n.length ≤ maxName - 1 := fun k hk => fit k (mem_cons_of_mem _ hk)
    have fitName := fit n mem_cons_self
    simp only [cons_prefix_cons, along]
    cases c with
    | nil =>
      rw [seen_findOrMakeDir fitName h.1]
      by_cases hm : m = n
      · simp [hm]
      · simp [hm, Ne.symm hm]
    | cons k c =>
      rw [seen, under_findOrMakeDir fitName h.1]
      by_cases hm : m = n
      · subst hm
        rw [if_pos rfl, ih fitNames h.2 (by simp)]
        simp [seen]
      · simp [hm, Ne.symm hm, seen]

lemma Distinct.along (h : Distinct f) (hOpen : Open f names)
    (inner : ∀ below, Distinct below → Distinct (g below)) : Distinct (along env g names f) := by
  induction names generalizing f with
  | nil => exact inner f h
  | cons n names ih =>
    exact h.findOrMakeDir (fit n mem_cons_self) hOpen.1 fun hUnder =>
      ih (fun k hk => fit k (mem_cons_of_mem _ hk)) hUnder hOpen.2

lemma seen_along_id (h : Open f names) (hc : c ≠ []) :
    seen (along env id names f) c = if c <+: names then some .dir else seen f c := by
  rw [seen_along fit h hc]
  split
  · rfl
  rename_i hNot
  split_ifs with hPre
  · obtain ⟨c', rfl⟩ := hPre
    have hc' : c' ≠ [] := fun h => hNot (by simp [h])
    rw [drop_left, seen_append hc', id_eq]
  · rfl

end

lemma seen_putFile (fit : n.length ≤ maxName - 1) (keeps : ∀ v, (fill v).name = v.name) (hc : c ≠ []) :
    seen (putFile env fill n f) c =
      if c = [n] then some (shown (fill (((f.findChild n).map (·.1)).getD (mknode env n .file))))
      else seen f c := by
  have hName : (fill (mknode env n .file)).name = n := (keeps _).trans (take_of_length_le fit)
  obtain ⟨m, c, rfl⟩ := exists_cons_of_ne_nil hc
  have found : (putFile env fill n f).findChild m =
      if m = n then some (fill (((f.findChild n).map (·.1)).getD (mknode env n .file)), under f n)
      else f.findChild m := by
    unfold putFile under
    cases hFind : f.findChild n with
    | some r =>
      rw [if_pos (by rfl), findChild_onChild fun v _ => keeps v, hFind]
      rfl
    | none =>
      rw [if_neg (by simp), findChild_attach, hName]
      by_cases hm : m = n
      · rw [if_pos hm, if_pos hm.symm, hm, hFind]
        rfl
      · rw [if_neg hm, if_neg (Ne.symm hm), or_none]
  cases c with
  | nil =>
    rw [seen, found]
    by_cases hm : m = n
    · simp [hm]
    · simp [hm, seen]
  | cons k c =>
    rw [seen, under, found]
    by_cases hm : m = n
    · simp [hm, seen]
    · simp [hm, seen, under]

lemma Distinct.putFile (fit : n.length ≤ maxName - 1) (keeps : ∀ v, (fill v).name = v.name) (h : Distinct f) :
    Distinct (putFile env fill n f) := by
  unfold Vfs.putFile
  split_ifs with hNone
  · exact h.onChild (fun v _ => keeps v) fun _ _ _ => id
  · refine h.attach ?_ trivial
    rw [keeps, show (mknode env n .file).name = n from take_of_length_le fit]
    exact findChild_none (by simpa using hNone)

end YartOS.Vfs
