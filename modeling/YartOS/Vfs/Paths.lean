import YartOS.Vfs.Permissions

/-! How paths are cut: a lookup is a walk over the parts of the path. -/
namespace YartOS.Vfs

open Fs List

def parts (path : Name) : List Name := (lookupParts path.length path).filter (!·.isEmpty)

def firstPart (path : Name) : Name := (path.takeWhile (· ≠ slash)).take (maxName - 1)

def restParts (path : Name) : Name := (path.drop (firstPart path).length).dropWhile (· = slash)

variable {path : Name}

lemma restParts_length (h : path ≠ []) : (restParts path).length < path.length := by
  obtain ⟨c, rest, rfl⟩ := exists_cons_of_ne_nil h
  by_cases hc : c = slash
  · subst hc
    have hFirst : firstPart (slash :: rest) = [] := by simp [firstPart]
    have := (dropWhile_sublist (l := rest) (fun c => decide (c = slash))).length_le
    simp only [restParts, hFirst, length_nil, drop_zero, dropWhile_cons, decide_true, if_true]
    simp only [length_cons]
    omega
  have hFirst : firstPart (c :: rest) = c :: (rest.takeWhile (· ≠ slash)).take (maxName - 2) := by
    simp [firstPart, hc, maxName]
  have := (dropWhile_sublist (l := (c :: rest).drop (firstPart (c :: rest)).length)
    (fun c => decide (c = slash))).length_le
  rw [length_drop] at this
  unfold restParts
  rw [hFirst] at this ⊢
  simp only [length_cons] at this ⊢
  omega

variable {fuel : Nat}

lemma lookupParts_cons (h : path ≠ []) :
    lookupParts (fuel + 1) path = firstPart path :: lookupParts fuel (restParts path) := by
  rw [lookupParts, if_neg (by simpa using h)]
  rfl

/-- Any fuel from the length of the path on gives the same parts. -/
lemma lookupParts_eq (h : path.length ≤ fuel) : lookupParts fuel path = lookupParts path.length path := by
  induction hn : path.length using Nat.strong_induction_on generalizing path fuel with
  | _ n ih =>
    subst hn
    by_cases hPath : path = []
    · subst hPath
      cases fuel <;> simp [lookupParts]
    · have hLess := restParts_length hPath
      obtain ⟨m, hm⟩ : ∃ m, path.length = m + 1 := ⟨path.length - 1, by omega⟩
      obtain ⟨k, rfl⟩ : ∃ k, fuel = k + 1 := ⟨fuel - 1, by omega⟩
      rw [hm, lookupParts_cons hPath, lookupParts_cons hPath,
        ih _ hLess (by omega) rfl, ← @ih _ hLess _ m (by omega) rfl]

lemma lookupParts_mem {part : Name} (h : part ∈ lookupParts fuel path) : slash ∉ part ∧ part.length ≤ maxName - 1 := by
  induction fuel generalizing path with
  | zero => cases h
  | succ fuel ih =>
    by_cases hPath : path = []
    · subst hPath
      simp [lookupParts] at h
    rw [lookupParts_cons hPath] at h
    rcases mem_cons.mp h with rfl | h
    · refine ⟨fun hMem => ?_, ?_⟩
      · have := mem_takeWhile_imp (mem_of_mem_take hMem)
        simp at this
      · rw [firstPart, length_take]
        exact Nat.min_le_left _ _
    · exact ih h

@[simp] lemma parts_nil : parts [] = [] := rfl

lemma parts_cons (h : path ≠ []) :
    parts path = (if firstPart path = [] then [] else [firstPart path]) ++ parts (restParts path) := by
  obtain ⟨m, hm⟩ : ∃ m, path.length = m + 1 := ⟨path.length - 1, by have := length_pos_iff.mpr h; omega⟩
  have hLess := restParts_length h
  rw [parts, hm, lookupParts_cons h, lookupParts_eq (by omega), filter_cons]
  by_cases hFirst : firstPart path = []
  · simp [hFirst, parts]
  · simp [hFirst, parts]

lemma parts_slash (path : Name) : parts (slash :: path) = parts (path.dropWhile (· = slash)) := by
  have hFirst : firstPart (slash :: path) = [] := by simp [firstPart]
  have hRest : restParts (slash :: path) = path.dropWhile (· = slash) := by simp [restParts, hFirst]
  rw [parts_cons (cons_ne_nil _ _), hFirst, hRest]
  rfl

lemma parts_dropWhile (path : Name) : parts (path.dropWhile (· = slash)) = parts path := by
  cases path with
  | nil => rfl
  | cons c rest =>
    by_cases hc : c = slash
    · subst hc
      rw [parts_slash]
      simp
    · simp [hc]

/-- A leading slash changes where a lookup starts, not the parts. -/
@[simp] lemma parts_slash_cons (path : Name) : parts (slash :: path) = parts path := by
  rw [parts_slash, parts_dropWhile]

lemma firstPart_append (a b : Name) : firstPart (a ++ slash :: b) = firstPart a := by
  unfold firstPart
  congr 1
  by_cases h : slash ∈ a
  · obtain ⟨u, v, rfl, hu⟩ := eq_append_cons_of_mem h
    have hAll : ∀ x ∈ u, decide (x ≠ slash) = true := by
      intro x hx
      simp only [decide_eq_true_eq]
      rintro rfl
      exact hu hx
    rw [append_assoc, takeWhile_append_of_pos hAll, takeWhile_append_of_pos hAll]
    simp
  · have hAll : ∀ x ∈ a, decide (x ≠ slash) = true := by
      intro x hx
      simp only [decide_eq_true_eq]
      rintro rfl
      exact h hx
    rw [takeWhile_append_of_pos hAll, takeWhile_eq_self_iff.mpr hAll]
    simp

lemma firstPart_length_le (a : Name) : (firstPart a).length ≤ a.length := by
  unfold firstPart
  rw [length_take]
  have := (takeWhile_sublist (l := a) (fun c => decide (c ≠ slash))).length_le
  omega

/-- The parts of two paths joined by a slash. -/
lemma parts_append (a b : Name) : parts (a ++ slash :: b) = parts a ++ parts b := by
  induction hn : a.length using Nat.strong_induction_on generalizing a with
  | _ n ih =>
    subst hn
    by_cases ha : a = []
    · subst ha
      simp
    have hRest : parts (restParts (a ++ slash :: b)) = parts (restParts a) ++ parts b := by
      unfold restParts
      rw [firstPart_append, drop_append_of_le_length (firstPart_length_le a), dropWhile_append]
      split_ifs with hEmpty
      · rw [isEmpty_iff.mp hEmpty, parts_dropWhile, parts_slash_cons]
        rfl
      · exact ih _ (restParts_length ha) _ rfl
    rw [parts_cons (by simp), firstPart_append, hRest, parts_cons ha, append_assoc]

/-- A name that needs no cut is its only part. -/
lemma parts_name (hne : path ≠ []) (hSlash : slash ∉ path) (hLen : path.length ≤ maxName - 1) :
    parts path = [path] := by
  have hFirst : firstPart path = path := by
    unfold firstPart
    rw [takeWhile_eq_self_iff.mpr, take_of_length_le hLen]
    intro x hx
    simp only [decide_eq_true_eq]
    rintro rfl
    exact hSlash hx
  have hRest : restParts path = [] := by simp [restParts, hFirst]
  rw [parts_cons hne, hFirst, hRest, if_neg hne]
  rfl

def beforeSlash (path : Name) : Name := (path.reverse.dropWhile (· ≠ slash)).tail.reverse

def afterSlash (path : Name) : Name := (path.reverse.takeWhile (· ≠ slash)).reverse

lemma eq_before_after (h : slash ∈ path) : path = beforeSlash path ++ slash :: afterSlash path := eq_around_last_slash h

lemma slash_notMem_afterSlash (path : Name) : slash ∉ afterSlash path := by
  intro h
  have := mem_takeWhile_imp (mem_reverse.mp h)
  simp at this

lemma splitPath_length (path : Name) : (splitPath path).2.length ≤ maxName - 1 := by
  unfold splitPath
  split
  · rw [length_take]
    exact Nat.min_le_left _ _
  · rw [length_take]
    exact Nat.min_le_left _ _

lemma splitPath_noSlash (path : Name) : slash ∉ (splitPath path).2 := by
  unfold splitPath
  split_ifs with hNone
  · exact fun h => slash_notMem_afterSlash path (mem_of_mem_take h)
  · exact fun h => hNone (mem_of_mem_take h)

/-- The name in a split path before it is cut, and the parts around it. -/
lemma splitPath_parts (path : Name) : ∃ base, (splitPath path).2 = base.take (maxName - 1) ∧ slash ∉ base ∧
      ∀ (s : Files) resolve cur, s.walk resolve true cur (parts (splitPath path).1 ++ parts base) =
        s.walk resolve true cur (parts path) := by
  unfold splitPath
  by_cases h : slash ∈ path
  · rw [if_pos h]
    refine ⟨afterSlash path, rfl, slash_notMem_afterSlash path, fun s resolve cur => ?_⟩
    have hDir : parts (if (beforeSlash path).isEmpty then [slash] else beforeSlash path) = parts (beforeSlash path) := by
      split_ifs with hEmpty
      · rw [isEmpty_iff.mp hEmpty]
        rfl
      · rfl
    change s.walk resolve true cur (parts (if (beforeSlash path).isEmpty then [slash] else beforeSlash path) ++ _) = _
    rw [hDir, ← parts_append, ← eq_before_after h]
  · rw [if_neg h]
    refine ⟨path, rfl, h, fun s resolve cur => ?_⟩
    have hDot : parts (text ".") = [text "."] := by decide +kernel
    rw [hDot, singleton_append, Files.walk, if_pos (.inr rfl)]

namespace Files

variable {s : Files} {resolve : Nat → Option (Option Nat)} {cur : Nat}

/-- Empty parts are skipped. -/
lemma walk_filter (names : List Name) :
    s.walk resolve true cur (names.filter (!·.isEmpty)) = s.walk resolve true cur names := by
  induction names generalizing cur with
  | nil => rfl
  | cons part rest ih =>
    by_cases hPart : part.isEmpty
    · rw [filter_cons_of_neg (by simp [hPart]), ih, walk, if_pos (.inl hPart)]
    rw [filter_cons_of_pos (by simp [hPart]), walk, walk]
    split
    · exact ih
    split
    · exact ih
    split
    · rfl
    · simp only [Bool.not_true, Bool.false_eq_true, and_false, if_false]
      split
      · rfl
      · rfl
      · exact ih

lemma walk_append {first : List Name} (rest : List Name) {v : Nat} (h : s.walk resolve true cur first = some (some v)) :
    s.walk resolve true cur (first ++ rest) = s.walk resolve true v rest := by
  induction first generalizing cur with
  | nil =>
    cases h
    rfl
  | cons part first ih =>
    rw [cons_append, walk]
    rw [walk] at h
    split at h
    · rename_i hSkip
      rw [if_pos hSkip]
      exact ih h
    rename_i hSkip
    rw [if_neg hSkip]
    split at h
    · rename_i hUp
      rw [if_pos hUp]
      exact ih h
    rename_i hUp
    rw [if_neg hUp]
    cases hChild : s.findChild cur part with
    | none =>
      rw [hChild] at h
      cases h
    | some child =>
      rw [hChild] at h
      simp only [Bool.not_true, Bool.false_eq_true, and_false, if_false] at h ⊢
      cases hResolve : resolve child with
      | none =>
        rw [hResolve] at h
        cases h
      | some found =>
        rw [hResolve] at h
        cases found with
        | none => cases h
        | some v' => exact ih h

/-- A lookup walks over the parts of the path. -/
lemma lookupFrom_eq_walk (cwd : Option Nat) (path : Name) :
    s.lookupFrom resolve true cwd path = s.walk resolve true (start cwd path) (parts path) := by
  unfold lookupFrom
  split
  · rename_i h
    have hParts : parts path = [] := by
      rcases h with h | h
      · rw [isEmpty_iff.mp h]
        rfl
      · rw [h]
        rfl
    rw [hParts]
    rfl
  · cases path with
    | nil => simp_all
    | cons c rest =>
      by_cases hc : c = slash
      · subst hc
        rw [parts_slash_cons, parts, walk_filter]
        rfl
      · have hHead : (c :: rest).head? ≠ some slash := by simpa using hc
        rw [if_neg hHead, parts, walk_filter]

lemma vfsLookupAt_succ (fuel : Nat) (cwd : Option Nat) (path : Name) : s.vfsLookupAt (fuel + 1) cwd path =
      s.walk (s.followLinks (s.vfsLookupAt fuel) 8) true (start cwd path) (parts path) :=
  s.lookupFrom_eq_walk cwd path

/-- A path that ends in no name finds what is before it, or the directory above. -/
lemma walk_dots {names : List Name} {v : Nat} (h : s.walk resolve true cur names = some (some v))
    {base : Name} (hBase : base = [] ∨ base = text "." ∨ base = text "..") :
    ∃ v', s.walk resolve true cur (names ++ parts base) = some (some v') := by
  rw [walk_append _ h]
  rcases hBase with rfl | rfl | rfl
  · exact ⟨v, rfl⟩
  · have hParts : parts (text ".") = [text "."] := by decide +kernel
    exact ⟨v, by simp [hParts, walk]⟩
  · have hParts : parts (text "..") = [text ".."] := by decide +kernel
    rw [hParts, walk, walk]
    split
    · exact ⟨v, rfl⟩
    · exact ⟨_, rfl⟩

end Files

end YartOS.Vfs
