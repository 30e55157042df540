import YartOS.Fs.Release

/-! Which slots `truncate_blocks` empties, and for which lengths that is what a
truncation should do. -/
namespace YartOS.Fs

open Bytes List Function

variable {v v' : Volume} {ino ino' : Inode} {n m i x : Nat} {s : Slot} {lost : Slot → Prop}

def blockAt (v : Volume) (ino : Inode) (index : Nat) : Nat := (inodeGetBlock v ino index false 0).1

/-- The slot is the other one, or a table on the way to it. -/
def Slot.LeadsTo : Slot → Slot → Prop
  | .direct i, .direct j => i = j
  | .node depth up, .node depth' path => depth = depth' ∧ up <:+ path
  | _, _ => False

/-- A file of `m` blocks has a use for the slot. -/
def Slot.Needed (m : Nat) (s : Slot) : Prop := ∃ i < m, s.LeadsTo (slotOf i)

/-- A well-formed map: indices below `m` are mapped, with the tables on the way, by distinct blocks
in use. -/
structure MapOk (v : Volume) (ino : Inode) (m : Nat) : Prop where
  small : m ≤ mappedBlocks
  present : ∀ s, s.Valid → (ptr v.disk ino s ≠ 0 ↔ s.Needed m)
  nonzero : ¬ IsData v 0
  isData : ∀ s, s.Valid → ptr v.disk ino s ≠ 0 → IsData v (ptr v.disk ino s)
  used : ∀ s, s.Valid → ptr v.disk ino s ≠ 0 → bbit v (ptr v.disk ino s) = true
  once : ∀ s t, s.Valid → t.Valid → ptr v.disk ino s = ptr v.disk ino t → ptr v.disk ino s ≠ 0 → s = t

def Idle (v : Volume) (ino : Inode) (n : Nat) (s : Slot) : Prop :=
  s.Valid ∧ ∀ i < n, s.LeadsTo (slotOf i) → blockAt v ino i = 0

/-- The map is cut at `n`: indices below keep their blocks, and the blocks and tables of the others
are freed. -/
structure CutAt (n : Nat) (v : Volume) (ino : Inode) (v' : Volume) (ino' : Inode) : Prop where
  blocks : ∀ i, blockAt v' ino' i = if i < n then blockAt v ino i else 0
  bits : ∀ x, bbit v x = true ∧ bbit v' x = false ↔ x ≠ 0 ∧ ((∃ i, n ≤ i ∧ blockAt v ino i = x) ∨
      ∃ t, t.IsTable ∧ Idle v ino n t ∧ ptr v.disk ino t = x)
  unmarked : ∀ x, bbit v' x = true → bbit v x = true

lemma leadsTo_refl (s : Slot) : s.LeadsTo s := by
  cases s with
  | direct i => rfl
  | node depth path => exact ⟨rfl, suffix_rfl⟩

lemma blockAt_eq (v : Volume) (ino : Inode) (hi : i < mappedBlocks) : blockAt v ino i = ptr v.disk ino (slotOf i) := by
  rw [blockAt, inodeGetBlock_reads, if_pos hi]

lemma blockAt_of_le (v : Volume) (ino : Inode) (hi : mappedBlocks ≤ i) : blockAt v ino i = 0 := by
  rw [blockAt, inodeGetBlock_reads, if_neg (by omega)]

variable {path : List Nat}

/-- The slots of the single tree lead to the indices from 12 on that it maps. -/
lemma leadsTo_single (h : (Slot.node 1 path).LeadsTo (slotOf i)) : directCount ≤ i ∧ i < directCount + indirectPer := by
  unfold slotOf at h
  split_ifs at h with hDirect hSingle
  · exact h.elim
  · omega
  · exact absurd h.1 (by decide)

lemma not_leadsTo_triple : ¬ (Slot.node 3 path).LeadsTo (slotOf i) := by
  intro h
  unfold slotOf at h
  split_ifs at h with hDirect hSingle
  · exact h.elim
  · exact absurd h.1 (by decide)
  · exact absurd h.1 (by decide)

lemma single_leadsTo (hlo : directCount ≤ i) (hhi : i < directCount + indirectPer) :
    (Slot.node 1 []).LeadsTo (slotOf i) := by
  unfold slotOf
  rw [if_neg (by omega), if_pos (by omega)]
  exact ⟨rfl, nil_suffix⟩

/-- A data slot leads to itself only. -/
lemma eq_of_leadsTo (hs : s.Valid) (leaf : ¬ s.IsTable) (h : s.LeadsTo (slotOf i)) : s = slotOf i := by
  have hLength : ∀ depth path, slotOf i = .node depth path → path.length = depth := by
    intro depth path
    unfold slotOf
    split_ifs <;> simp +contextual
    all_goals rintro rfl rfl; rfl
  cases s with
  | direct k =>
    cases hSlot : slotOf i with
    | direct j =>
      rw [hSlot] at h
      exact congrArg Slot.direct h
    | node depth path =>
      rw [hSlot] at h
      exact h.elim
  | node depth path =>
    cases hSlot : slotOf i with
    | direct j =>
      rw [hSlot] at h
      exact h.elim
    | node depth' path' =>
      rw [hSlot] at h
      obtain ⟨rfl, hSuffix⟩ := h
      have := hLength depth path' hSlot
      have : ¬ path.length < depth := leaf
      rw [hSuffix.eq_of_length_le (by omega)]

namespace MapOk

lemma blockAt_ne (ok : MapOk v ino m) (hi : i < m) : blockAt v ino i ≠ 0 := by
  have hIndex : i < mappedBlocks := lt_of_lt_of_le hi ok.small
  rw [blockAt_eq v ino hIndex]
  exact (ok.present _ (slotOf_valid hIndex).1).mpr ⟨i, hi, leadsTo_refl _⟩

/-- The single table is there as soon as the file has more than 12 blocks. -/
lemma single_iff (ok : MapOk v ino m) : ino.singleIndirect ≠ 0 ↔ directCount < m := by
  have valid : (Slot.node 1 []).Valid := ⟨le_rfl, by decide, by decide, nofun⟩
  refine (ok.present (.node 1 []) valid).trans ⟨?_, fun h => ?_⟩
  · rintro ⟨i, hi, leads⟩
    have := leadsTo_single leads
    omega
  · exact ⟨directCount, h, single_leadsTo le_rfl (by decide)⟩

end MapOk

/-- The code empties the data slots from `n` on, unless `n` reaches the double tree. -/
lemma lost_slotOf (sound : n < directCount + indirectPer ∨ i < directCount) : Lost n (slotOf i) ↔ n ≤ i := by
  unfold Lost SingleLost DoubleLost TripleLost slotOf
  split_ifs with hDirect hSingle
  · simp
  · simp only [and_false, exists_false, Slot.node.injEq, true_and, exists_eq_left',
      cons.injEq, and_true, exists_eq_right', false_or, Nat.reduceEqDiff, false_and, or_false]
    omega
  · simp only [and_false, exists_false, Slot.node.injEq, Nat.reduceEqDiff, false_and,
      exists_eq_left', false_or, true_and, or_false]
    omega

lemma idle_slotOf (ok : MapOk v ino m) (hi : i < m) : Idle v ino n (slotOf i) ↔ n ≤ i := by
  have hIndex : i < mappedBlocks := lt_of_lt_of_le hi ok.small
  constructor
  · rintro ⟨-, idle⟩
    by_contra hlt
    exact ok.blockAt_ne hi (idle i (by omega) (leadsTo_refl _))
  · intro hn
    refine ⟨(slotOf_valid hIndex).1, fun j hj leads => ?_⟩
    have hLeaf := slotOf_valid hIndex
    have := slotOf_injective (eq_of_leadsTo hLeaf.1 hLeaf.2 leads)
    omega

/-- The code empties the tables not needed below `n`. -/
lemma lost_table_iff (ok : MapOk v ino m) (hn : n < directCount + indirectPer) (hs : s.Valid)
    (table : s.IsTable) (present : ptr v.disk ino s ≠ 0) : Lost n s ↔ Idle v ino n s := by
  obtain ⟨k, hk, leads⟩ := (ok.present s hs).mp present
  cases s with
  | direct i => exact table.elim
  | node depth path =>
    obtain rfl | rfl | rfl : depth = 1 ∨ depth = 2 ∨ depth = 3 := by
      have := hs.1
      have := hs.2.1
      omega
    · obtain rfl : path = [] := eq_nil_of_length_eq_zero (Nat.lt_one_iff.mp table)
      have hk12 := leadsTo_single leads
      have hLost : Lost n (.node 1 []) ↔ n ≤ directCount := by
        constructor
        · rintro (⟨j, -, h⟩ | ⟨q, h, hWhole | ⟨j, -, rfl⟩⟩ | ⟨q, h, -⟩ | ⟨q, h⟩)
          · cases h
          · omega
          · cases h
          · cases h
          · cases h
        · exact fun h => .inr (.inl ⟨[], rfl, .inl (.inl h)⟩)
      rw [hLost]
      constructor
      · intro hShort
        refine ⟨hs, fun i hi hLeads => ?_⟩
        have := leadsTo_single hLeads
        omega
      · rintro ⟨-, idle⟩
        by_contra hlt
        exact ok.blockAt_ne (by omega) (idle directCount (by omega) (single_leadsTo le_rfl (by decide)))
    · refine iff_of_true (.inr (.inr (.inl ⟨path, rfl, by omega⟩))) ⟨hs, fun i hi hLeads => ?_⟩
      unfold slotOf at hLeads
      split_ifs at hLeads
      · exact hLeads.elim
      · exact absurd hLeads.1 (by decide)
      · omega
    · exact absurd leads not_leadsTo_triple

/-- A slot in use is a table or the slot of a data block. -/
lemma MapOk.slot_cases (ok : MapOk v ino m) (hs : s.Valid) (present : ptr v.disk ino s ≠ 0) :
    s.IsTable ∨ ∃ i < m, s = slotOf i := by
  obtain ⟨i, hi, leads⟩ := (ok.present s hs).mp present
  by_cases table : s.IsTable
  · exact .inl table
  · exact .inr ⟨i, hi, eq_of_leadsTo hs table leads⟩

/-- The lengths at which the code cuts the map rightly. -/
def CutsRightly (ino : Inode) (n : Nat) : Prop := n < directCount + indirectPer ∨ ino.singleIndirect = 0

/-- Then the slots emptied are those that are not needed any more. -/
lemma lost_iff (ok : MapOk v ino m) (rightly : CutsRightly ino n) (hs : s.Valid)
    (present : ptr v.disk ino s ≠ 0) : Lost n s ↔ Idle v ino n s := by
  rcases ok.slot_cases hs present with table | ⟨i, hi, rfl⟩
  · rcases rightly with hn | hSingle
    · exact lost_table_iff ok hn hs table present
    have hm := mt ok.single_iff.mpr (not_not.mpr hSingle)
    obtain ⟨k, hk, leads⟩ := (ok.present s hs).mp present
    unfold slotOf at leads
    rw [if_pos (by omega)] at leads
    cases s with
    | direct j => exact table.elim
    | node depth path => exact leads.elim
  · rw [idle_slotOf ok hi]
    apply lost_slotOf
    rcases rightly with hn | hSingle
    · exact .inl hn
    · have hm := mt ok.single_iff.mpr (not_not.mpr hSingle)
      exact .inr (by omega)

/-- The cleared bits are those of the lost slots. -/
lemma MapOk.cleared_iff (ok : MapOk v ino m) (dropped : Dropped lost v ino v' ino') (x : Nat) :
    bbit v x = true ∧ bbit v' x = false ↔ x ≠ 0 ∧ ∃ s, s.Valid ∧ lost s ∧ ptr v.disk ino s = x := by
  have bits := dropped.cleared.bits x
  constructor
  · rintro ⟨hBefore, hAfter⟩
    have hx : IsData v x := dropped.cleared.same.isData.mp (isData_of_bbit hAfter)
    refine ⟨fun h => ok.nonzero (h ▸ hx), ?_⟩
    by_contra hNone
    rw [(bits hx).mpr ⟨hBefore, hNone⟩] at hAfter
    cases hAfter
  · rintro ⟨hx0, s, hs, hLost, rfl⟩
    have hBefore := ok.used s hs hx0
    refine ⟨hBefore, ?_⟩
    rw [← Bool.not_eq_true, bits (ok.isData s hs hx0)]
    exact fun h => h.2 ⟨s, hs, hLost, rfl⟩

lemma Cleared.unmarked {gone : Nat → Prop} (cleared : Cleared v v' gone) (h : bbit v' x = true) : bbit v x = true := by
  by_contra hFree
  have hData := isData_of_bbit (Bool.eq_false_of_not_eq_true hFree)
  exact hFree ((cleared.bits x hData).mp h).1

lemma cutAt_of_cutsRightly (ok : MapOk v ino m) (rightly : CutsRightly ino n)
    (dropped : Dropped (Lost n) v ino v' ino') : CutAt n v ino v' ino' := by
  refine ⟨fun i => ?_, fun x => ?_, fun x => dropped.cleared.unmarked⟩
  · by_cases hIndex : i < mappedBlocks
    · rw [blockAt_eq v' ino' hIndex, blockAt_eq v ino hIndex]
      have hs := (slotOf_valid hIndex).1
      by_cases present : ptr v.disk ino (slotOf i) = 0
      · rw [present, ite_self]
        rcases dropped.shrinks hs with h | h
        · exact h
        · exact h.trans present
      have hi : i < m := by
        obtain ⟨j, hj, leads⟩ := (ok.present _ hs).mp present
        have := slotOf_injective (eq_of_leadsTo hs (slotOf_valid hIndex).2 leads)
        omega
      have hLost := (lost_iff ok rightly hs present).trans (idle_slotOf ok hi)
      by_cases hn : i < n
      · rw [if_pos hn]
        exact dropped.kept _ hs fun h => by have := hLost.mp h; omega
      · rw [if_neg hn]
        exact dropped.emptied _ hs (hLost.mpr (by omega))
    · rw [blockAt_of_le v' ino' (by omega), blockAt_of_le v ino (by omega), ite_self]
  · rw [ok.cleared_iff dropped x]
    refine and_congr_right fun hx0 => ⟨?_, ?_⟩
    · rintro ⟨s, hs, hLost, rfl⟩
      have idle := (lost_iff ok rightly hs hx0).mp hLost
      rcases ok.slot_cases hs hx0 with table | ⟨i, hi, rfl⟩
      · exact .inr ⟨s, table, idle, rfl⟩
      · exact .inl ⟨i, (idle_slotOf ok hi).mp idle, blockAt_eq v ino (lt_of_lt_of_le hi ok.small)⟩
    rintro (⟨i, hn, rfl⟩ | ⟨s, -, idle, rfl⟩)
    · have hIndex : i < mappedBlocks := by
        by_contra hge
        exact hx0 (blockAt_of_le v ino (by omega))
      have hs := (slotOf_valid hIndex).1
      rw [blockAt_eq v ino hIndex] at hx0 ⊢
      obtain ⟨j, hj, leads⟩ := (ok.present _ hs).mp hx0
      have hij := slotOf_injective (eq_of_leadsTo hs (slotOf_valid hIndex).2 leads)
      exact ⟨_, hs, (lost_iff ok rightly hs hx0).mpr ((idle_slotOf ok (by omega)).mpr hn), rfl⟩
    · exact ⟨s, idle.1, (lost_iff ok rightly idle.1 hx0).mpr idle, rfl⟩

/-- A length in the double tree gives up the single tree. -/
lemma cutsRightly_of_cutAt (ok : MapOk v ino m) (dropped : Dropped (Lost n) v ino v' ino')
    (cut : CutAt n v ino v' ino') : CutsRightly ino n := by
  by_contra wrong
  rw [CutsRightly, not_or] at wrong
  have hm := ok.single_iff.mp wrong.2
  have hPer : 0 < indirectPer := by decide
  -- index 12 is below the length and mapped before, but not after
  have hIndex : directCount < mappedBlocks := by decide
  have hEmpty := dropped.emptied (slotOf directCount) (slotOf_valid hIndex).1
    (.inr (.inl ⟨[0], rfl, .inl (.inr (by omega))⟩))
  have hKept := cut.blocks directCount
  rw [if_pos (by omega), blockAt_eq _ _ hIndex, hEmpty] at hKept
  exact ok.blockAt_ne hm hKept.symm

/-- A truncation cuts at `n` iff that lies before the double tree, or there is no table. -/
theorem truncateBlocks_cutAt_iff (ok : MapOk v ino m) :
    CutAt n v ino (truncateBlocks v ino n).2 (truncateBlocks v ino n).1 ↔ CutsRightly ino n := by
  have dropped := truncateBlocks_dropped (n := n) ok.nonzero ok.once Prod.mk.eta.symm
  exact ⟨cutsRightly_of_cutAt ok dropped, fun rightly => cutAt_of_cutsRightly ok rightly dropped⟩

def tableVolume : Volume where
  disk := update (fun _ => zeros) 113 (putU32 zeros 0 112)
  sb := { totalGroups := 1 }
  desc := fun _ => { dataStart := 100, dataEnd := 200 }
  bbitmap := fun _ _ => 0xFF

def thirteenBlocks : Inode where
  direct := fun i => 100 + i
  singleIndirect := 113
  blocksCount := 13

lemma thirteenBlocks_entry (j : Nat) :
    ptr tableVolume.disk thirteenBlocks (.node 1 [j]) = if j = 0 then 112 else 0 := by
  change getU32 (update (fun _ => zeros) 113 (putU32 zeros 0 112) 113) (4 * j) = _
  rw [update_self]
  split_ifs with hj
  · rw [hj]
    exact getU32_putU32_self
  · rw [getU32_putU32_of_apart (by omega), getU32_zeros]

/-- The slots in use: the block, and why it is there. -/
lemma thirteenBlocks_cases (hs : s.Valid) : (∃ i < directCount, s = .direct i) ∨ s = .node 1 [] ∨ s = .node 1 [0] ∨
      ptr tableVolume.disk thirteenBlocks s = 0 ∧ ¬ s.Needed 13 := by
  cases s with
  | direct i => exact .inl ⟨i, hs, rfl⟩
  | node depth path =>
    obtain ⟨hlo, hhi, hLength, -⟩ := hs
    have shallow : (Slot.node depth path).Needed 13 → depth = 1 ∧ path <:+ [0] := by
      rintro ⟨i, hi, leads⟩
      by_cases h12 : i = 12
      · subst h12
        exact leads
      · unfold slotOf at leads
        rw [if_pos (show i < directCount by unfold directCount; omega)] at leads
        exact leads.elim
    obtain rfl | rfl | rfl : depth = 1 ∨ depth = 2 ∨ depth = 3 := by omega
    · rcases path with _ | ⟨j, _ | ⟨k, path⟩⟩
      · exact .inr (.inl rfl)
      · by_cases hj : j = 0
        · exact .inr (.inr (.inl (by rw [hj])))
        · refine .inr (.inr (.inr ⟨?_, fun needed => hj ?_⟩))
          · rw [thirteenBlocks_entry, if_neg hj]
          · simpa using (shallow needed).2.eq_of_length rfl
      · simp at hLength
    · exact .inr (.inr (.inr ⟨ptrAt_zero path, fun h => absurd (shallow h).1 (by decide)⟩))
    · exact .inr (.inr (.inr ⟨ptrAt_zero path, fun h => absurd (shallow h).1 (by decide)⟩))

lemma thirteenBlocks_isData (hlo : 100 ≤ x) (hhi : x < 200) : IsData tableVolume x ∧ bbit tableVolume x = true := by
  refine ⟨⟨0, one_pos, hlo, hhi⟩, ?_⟩
  have hGroup : groupOfDataBlock tableVolume x = some 0 := by exact if_pos (by simp [tableVolume, hlo, hhi])
  unfold bbit
  rw [hGroup]
  change (2 ^ 8 - 1 : Nat).testBit ((x - 100) % 8) = true
  rw [Nat.testBit_two_pow_sub_one, decide_eq_true_eq]
  exact Nat.mod_lt _ (by decide)

lemma thirteenBlocks_ok : MapOk tableVolume thirteenBlocks 13 := by
  have hEntry : ptr tableVolume.disk thirteenBlocks (.node 1 [0]) = 112 := thirteenBlocks_entry 0
  have hDirect : ∀ i, ptr tableVolume.disk thirteenBlocks (.direct i) = 100 + i := fun _ => rfl
  have hRoot : ptr tableVolume.disk thirteenBlocks (.node 1 []) = 113 := rfl
  -- a block number tells its slot
  let slotWith (x : Nat) : Slot :=
    if x = 113 then .node 1 [] else if x = 112 then .node 1 [0] else .direct (x - 100)
  have known : ∀ s, s.Valid → ptr tableVolume.disk thirteenBlocks s ≠ 0 →
      (100 ≤ ptr tableVolume.disk thirteenBlocks s ∧ ptr tableVolume.disk thirteenBlocks s < 200) ∧
        s = slotWith (ptr tableVolume.disk thirteenBlocks s) := by
    intro s hs hne
    rcases thirteenBlocks_cases hs with ⟨i, hi, rfl⟩ | rfl | rfl | ⟨h, -⟩
    · unfold directCount at hi
      rw [hDirect]
      refine ⟨by omega, ?_⟩
      simp only [slotWith]
      rw [if_neg (by omega), if_neg (by omega), Nat.add_sub_cancel_left]
    · exact ⟨by omega, rfl⟩
    · exact ⟨by omega, rfl⟩
    · exact absurd h hne
  refine ⟨by decide, fun s hs => ?_, ?_, fun s hs hne => ?_, fun s hs hne => ?_, fun s t hs ht heq hne => ?_⟩
  · rcases thirteenBlocks_cases hs with ⟨i, hi, rfl⟩ | rfl | rfl | ⟨h, hNeeded⟩
    · refine iff_of_true (by rw [hDirect]; omega) ⟨i, by unfold directCount at hi; omega, ?_⟩
      rw [slotOf, if_pos hi]
      rfl
    · exact iff_of_true (by rw [hRoot]; decide) ⟨12, by decide, rfl, nil_suffix⟩
    · exact iff_of_true (by rw [hEntry]; decide) ⟨12, by decide, rfl, suffix_rfl⟩
    · exact iff_of_false (not_not.mpr h) hNeeded
  · rintro ⟨g, -, h, -⟩
    exact absurd (show 100 ≤ 0 from h) (by decide)
  · exact (thirteenBlocks_isData (known s hs hne).1.1 (known s hs hne).1.2).1
  · exact (thirteenBlocks_isData (known s hs hne).1.1 (known s hs hne).1.2).2
  · rw [(known s hs hne).2, (known t ht (heq ▸ hne)).2, heq]

theorem truncateBlocks_to_five : CutAt 5 tableVolume thirteenBlocks (truncateBlocks tableVolume thirteenBlocks 5).2
      (truncateBlocks tableVolume thirteenBlocks 5).1 :=
  (truncateBlocks_cutAt_iff thirteenBlocks_ok).mpr (.inl (by decide))

/-- A truncation of thirteen blocks to 1036 loses the thirteenth. -/
theorem truncateBlocks_loses_block : MapOk tableVolume thirteenBlocks 13 ∧
    ¬ CutAt 1036 tableVolume thirteenBlocks (truncateBlocks tableVolume thirteenBlocks 1036).2
      (truncateBlocks tableVolume thirteenBlocks 1036).1 := by
  refine ⟨thirteenBlocks_ok, fun cut => ?_⟩
  have dropped := truncateBlocks_dropped (n := 1036) thirteenBlocks_ok.nonzero thirteenBlocks_ok.once
    Prod.mk.eta.symm
  have rightly : CutsRightly thirteenBlocks 1036 := cutsRightly_of_cutAt thirteenBlocks_ok dropped cut
  rcases rightly with h | h
  · exact absurd h (by decide)
  · exact absurd h (by decide)

end YartOS.Fs
