import YartOS.Tls.Handshake

/-! The padding of the premaster: how the client puts it on and how the server takes it off. -/
namespace YartOS.Tls

open List

/-- `00 02`, at least 8 nonzero bytes, `00`, and a rest of this kind. -/
def Padded (rest : List UInt8 → Prop) (block : List UInt8) : Prop :=
  ∃ ps r, block = [0, 2] ++ (ps ++ 0 :: r) ∧ 0 ∉ ps ∧ 8 ≤ ps.length ∧ rest r

def WellPadded : List UInt8 → Prop := Padded fun r => r.length = 48 ∧ r.take 2 = [3, 3]

/-- The server accepts the well padded blocks only, and looks at nothing behind the block. -/
def UnpadsExactly (block stack : List UInt8) : Prop :=
  ((unpad block.length (block ++ stack)).1.isSome ↔ WellPadded block) ∧
    ∀ i ∈ (unpad block.length (block ++ stack)).2, i < block.length

/-- One byte short of a premaster, or longer than one. -/
def Misjudged : List UInt8 → Prop := Padded fun r => r.length = 47 ∨ 48 < r.length ∧ r.take 2 = [3, 3]

variable {ps r : List UInt8}

lemma takeWhile_nonzero (r : List UInt8) (h : 0 ∉ ps) : (ps ++ r).takeWhile (· ≠ 0) = ps ++ r.takeWhile (· ≠ 0) :=
  takeWhile_append_of_pos fun _ hb => decide_eq_true fun hZero => h (hZero ▸ hb)

lemma takeWhile_zero (h : 0 ∉ ps) : (ps ++ 0 :: r).takeWhile (· ≠ 0) = ps := by
  rw [takeWhile_nonzero _ h, takeWhile_cons_of_neg (by simp), append_nil]

lemma padded_parts {rest : List UInt8 → Prop} {ps r : List UInt8} (h : 0 ∉ ps) :
    Padded rest ([0, 2] ++ (ps ++ 0 :: r)) ↔ 8 ≤ ps.length ∧ rest r := by
  refine ⟨?_, fun ⟨hLong, hRest⟩ => ⟨ps, r, rfl, h, hLong, hRest⟩⟩
  rintro ⟨ps', r', hEq, h', hLong, hRest⟩
  have hTails := append_cancel_left hEq
  have hPs := congrArg (takeWhile (· ≠ 0)) hTails
  rw [takeWhile_zero h, takeWhile_zero h'] at hPs
  subst hPs
  obtain rfl := (cons_inj_right 0).mp (append_cancel_left hTails)
  exact ⟨hLong, hRest⟩

/-- The unpadding of a block with a separator. -/
lemma unpad_parts {ps r : List UInt8} (stack : List UInt8) (h : 0 ∉ ps) :
    unpad ([0, 2] ++ (ps ++ 0 :: r)).length ([0, 2] ++ (ps ++ 0 :: r) ++ stack) =
      if ps.length < 8 ∨ r.length < 47 then (none, range (ps.length + 3))
      else (if ((r ++ stack).take 48).take 2 = [3, 3] then some ((r ++ stack).take 48) else none,
        range (ps.length + 3) ++ range' (ps.length + 3) 48) := by
  have hDrop : ([0, 2] ++ (ps ++ 0 :: r) ++ stack).drop (2 + ps.length + 1) = r ++ stack := by
    rw [show [0, 2] ++ (ps ++ 0 :: r) ++ stack = ([0, 2] ++ ps ++ [0]) ++ (r ++ stack) by simp,
      drop_left' (by simp; omega)]
  have hLength : ([0, 2] ++ (ps ++ 0 :: r)).length = ps.length + r.length + 3 := by
    simp
    omega
  have hSeen : min (2 + ps.length + 1) (ps.length + r.length + 3) = ps.length + 3 := by omega
  have hShort : (2 + ps.length < 10 ∨ ps.length + r.length + 3 < 2 + ps.length + 48) ↔
      (ps.length < 8 ∨ r.length < 47) := by omega
  rw [unpad, if_neg (by simp), take_left, drop_left' (by rfl), takeWhile_zero h]
  simp only [hDrop, hLength, hSeen, hShort]
  rw [show 2 + ps.length + 1 = ps.length + 3 by omega]

lemma unpad_unseparated {tail : List UInt8} (stack : List UInt8) (h : 0 ∉ tail) :
    unpad ([0, 2] ++ tail).length ([0, 2] ++ tail ++ stack) = (none, range (tail.length + 2)) := by
  have hAll : tail.takeWhile (· ≠ 0) = tail := by simpa using takeWhile_nonzero [] h
  have hLength : ([0, 2] ++ tail).length = tail.length + 2 := by simp
  rw [unpad, if_neg (by simp), take_left, drop_left' (by rfl), hAll]
  simp only [hLength]
  rw [if_pos (by omega), Nat.min_eq_right (by omega)]

variable (e : ClientEnv)

lemma ClientEnv.premaster_length : e.premaster.length = 48 := by simp [ClientEnv.premaster, e.secret_length]

lemma encryptionBlock_length {modlen : Nat} (h : 51 ≤ modlen) : (encryptionBlock e modlen).length = modlen := by
  simp only [encryptionBlock, length_append, length_map, length_range, length_cons, length_nil, e.premaster_length]
  omega

lemma unpad_encryptionBlock {nlen : Nat} (stack : List UInt8) (h : 59 ≤ nlen) :
    (unpad nlen (encryptionBlock e nlen ++ stack)).1 = some e.premaster := by
  have hBlock : encryptionBlock e nlen = [0, 2] ++ ((range (nlen - 3 - 48)).map e.pad ++ 0 :: e.premaster) := by
    simp [encryptionBlock]
  have hPads : 0 ∉ (range (nlen - 3 - 48)).map e.pad := by
    intro hZero
    obtain ⟨i, -, hi⟩ := mem_map.mp hZero
    exact e.pad_ne i hi
  have hParts := @unpad_parts _ e.premaster stack hPads
  rw [← hBlock, encryptionBlock_length e (by omega)] at hParts
  have hPremaster := e.premaster_length
  rw [hParts, if_neg (by simp [length_map, length_range]; omega), take_left' hPremaster]
  rfl

/-- Where nothing is padded at all, a refusal is right. -/
lemma exactly_of_refused {block stack : List UInt8} {seen : List Nat}
    (hUnpad : unpad block.length (block ++ stack) = (none, seen)) (hSeen : ∀ i ∈ seen, i < block.length)
    (hNot : ∀ rest, ¬ Padded rest block) : UnpadsExactly block stack ↔ ¬ Misjudged block := by
  rw [UnpadsExactly, hUnpad]
  exact iff_of_true ⟨by simp [WellPadded, hNot], hSeen⟩ (hNot _)

lemma exactly_parts (stack : List UInt8) (h : 0 ∉ ps) :
    UnpadsExactly ([0, 2] ++ (ps ++ 0 :: r)) stack ↔ ¬ Misjudged ([0, 2] ++ (ps ++ 0 :: r)) := by
  have hLength : ([0, 2] ++ (ps ++ 0 :: r)).length = ps.length + r.length + 3 := by
    simp
    omega
  rw [UnpadsExactly, unpad_parts stack h, WellPadded, Misjudged, padded_parts h, padded_parts h, hLength]
  by_cases hShort : ps.length < 8 ∨ r.length < 47
  · rw [if_pos hShort]
    refine iff_of_true ⟨iff_of_false (by simp) ?_, fun i hi => ?_⟩ ?_
    · rintro ⟨hLong, hRest, -⟩
      omega
    · have hi := mem_range.mp hi
      omega
    · rintro ⟨hLong, hRest | ⟨hRest, -⟩⟩ <;> omega
  rw [if_neg hShort]
  by_cases hEnough : 48 ≤ r.length
  · have hSeen : ∀ i ∈ range (ps.length + 3) ++ range' (ps.length + 3) 48, i < ps.length + r.length + 3 := by
      simp only [mem_append, mem_range, mem_range'_1]
      omega
    have hLong : 8 ≤ ps.length := by omega
    rw [take_append_of_le_length hEnough, take_take, and_iff_left hSeen]
    by_cases hVersion : r.take 2 = [3, 3]
    · simp [hVersion, hLong]
      omega
    · simp [hVersion]
      omega
  · -- the copy ends with the byte behind the block
    refine iff_of_false (fun hExact => ?_) (by simp; omega)
    have hLast := hExact.2 (ps.length + 3 + 47) (by simp)
    omega

/-- What the client pads is taken off again. Blocks are judged rightly, and read inside, iff the
rest behind the separator is not one byte short of a premaster, and not longer than one. -/
theorem padding_exact_iff (block stack : List UInt8) (hGe : 59 ≤ block.length) (hLe : block.length ≤ 256) :
    (unpad block.length (encryptionBlock e block.length ++ stack)).1 = some e.premaster ∧
      (UnpadsExactly block stack ↔ ¬ Misjudged block) := by
  refine ⟨unpad_encryptionBlock e stack hGe, ?_⟩
  by_cases hHeader : block.take 2 = [0, 2]
  · obtain ⟨tail, rfl⟩ : ∃ tail, block = [0, 2] ++ tail := ⟨block.drop 2, by simp [← hHeader]⟩
    by_cases hZero : 0 ∈ tail
    · obtain ⟨ps, r, rfl, hPs⟩ := eq_append_cons_of_mem hZero
      exact exactly_parts stack hPs
    · refine exactly_of_refused (unpad_unseparated stack hZero) (fun _ => mem_range.mp) ?_
      rintro rest ⟨ps, r, hEq, -⟩
      exact hZero (append_cancel_left hEq ▸ by simp)
  · refine @exactly_of_refused _ _ [0, 1] ?_ (by simp; omega) ?_
    · rw [unpad, take_append_of_le_length (by omega), if_pos hHeader]
    · rintro rest ⟨ps, r, rfl, -⟩
      exact hHeader rfl

theorem rest_of_48_judged : UnpadsExactly (encryptionBlock zeroClient 59) [] :=
  ((padding_exact_iff zeroClient (encryptionBlock zeroClient 59) [] (by decide) (by decide)).2).mpr
    fun h => absurd ((@padded_parts _ (replicate 8 1) zeroClient.premaster (by decide)).mp h).2 (by decide)

/-- With a key of 256 bytes, 47 bytes behind the separator are read beyond the block, and 49 are
accepted. -/
theorem rest_of_47_or_49_misjudged : ¬ UnpadsExactly ([0, 2] ++ (replicate 206 1 ++ 0 :: 3 :: 3 :: replicate 45 0)) [] ∧
      ¬ UnpadsExactly ([0, 2] ++ (replicate 204 1 ++ 0 :: 3 :: 3 :: replicate 47 0)) [] := by
  have hOnes : ∀ n, 0 ∉ replicate n (1 : UInt8) := fun n hZero => absurd (eq_of_mem_replicate hZero) (by decide)
  rw [exactly_parts [] (hOnes 206), exactly_parts [] (hOnes 204), Misjudged, padded_parts (hOnes 206),
    padded_parts (hOnes 204)]
  simp only [length_cons, length_replicate]
  decide

end YartOS.Tls
