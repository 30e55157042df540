import YartOS.Fs.MapBlock

/-! Giving blocks back: the slots that a truncation empties; other blocks keep their owner. -/
namespace YartOS.Fs

open Bytes Function List

variable {v v' v'' : Volume} {inodes inodes' : Nat → Inode} {ino ino' ino'' : Inode}
  {a x i n depth : Nat} {blocks path : List Nat} {s t : Slot} {gone gone' : Nat → Prop}
  {lost lost' : Slot → Prop}

/-- The bits of the blocks in `gone` were cleared, and no other bit changed. -/
structure Cleared (v v' : Volume) (gone : Nat → Prop) : Prop where
  same : DataOnly v v'
  bits : ∀ x, IsData v x → (bbit v' x = true ↔ bbit v x = true ∧ ¬ gone x)

namespace Cleared

lemma refl (v : Volume) : Cleared v v fun _ => False := ⟨.refl v, fun _ _ => (and_iff_left id).symm⟩

lemma trans (first : Cleared v v' gone) (second : Cleared v' v'' gone') : Cleared v v'' fun x => gone x ∨ gone' x := by
  refine ⟨first.same.trans second.same, fun x hx => ?_⟩
  rw [second.bits x (first.same.isData.mpr hx), first.bits x hx, not_or, and_assoc]

lemma congr (cleared : Cleared v v' gone) (same : ∀ x, IsData v x → (gone x ↔ gone' x)) : Cleared v v' gone' :=
  ⟨cleared.same, fun x hx => by rw [cleared.bits x hx, same x hx]⟩

lemma wrBlk (cleared : Cleared v v' gone) (b : Nat) (buf : Buffer) : Cleared v (wrBlk v' b buf) gone :=
  ⟨cleared.same.trans (.wrBlk v' b buf), cleared.bits⟩

end Cleared

lemma Freed.cleared (freed : Freed v v' blocks) : Cleared v v' (· ∈ blocks) := by
  refine ⟨freed.2.2.1, fun x hx => ?_⟩
  rw [freed.2.2.2 x hx, Bool.and_eq_true, Bool.not_eq_true', decide_eq_false_iff_not]

def Distinct (v : Volume) (ino : Inode) : Prop :=
  ∀ s t, s.Valid → t.Valid → ptr v.disk ino s = ptr v.disk ino t → ptr v.disk ino s ≠ 0 → s = t

/-- The slots in `lost` were emptied; only tables of the inode were written. -/
structure Dropped (lost : Slot → Prop) (v : Volume) (ino : Inode) (v' : Volume) (ino' : Inode) : Prop where
  cleared : Cleared v v' fun x => ∃ s, s.Valid ∧ lost s ∧ ptr v.disk ino s = x
  emptied : ∀ s, s.Valid → lost s → ptr v'.disk ino' s = 0
  kept : ∀ s, s.Valid → ¬ lost s → ptr v'.disk ino' s = ptr v.disk ino s
  disk : ∀ x, (∀ t, t.Valid → t.IsTable → ptr v.disk ino t = x → x = 0) → v'.disk x = v.disk x

namespace Dropped

lemma of_empty (hzero : ¬ IsData v 0) (empty : ∀ s, s.Valid → lost s → ptr v.disk ino s = 0) :
    Dropped lost v ino v ino := by
  refine ⟨(Cleared.refl v).congr fun x hx => ⟨False.elim, ?_⟩, empty, fun _ _ _ => rfl, fun _ _ => rfl⟩
  rintro ⟨s, hs, hLost, rfl⟩
  rw [empty s hs hLost] at hx
  exact hzero hx

/-- Fields of the inode that are no pointers do not matter. -/
lemma of_pointers (hzero : ¬ IsData v 0) (same : ino'.pointers = ino.pointers) :
    Dropped (fun _ => False) v ino v ino' := by
  have none : Dropped (fun _ => False) v ino v ino := of_empty hzero fun _ _ => False.elim
  exact ⟨none.cleared, fun _ _ => False.elim, fun s _ _ => ptr_of_pointers same s, fun _ _ => rfl⟩

/-- Nothing was written; the blocks of the lost slots were freed. -/
lemma of_freed (freed : Freed v v' blocks)
    (mem : ∀ x, IsData v x → (x ∈ blocks ↔ ∃ s, s.Valid ∧ lost s ∧ ptr v.disk ino s = x))
    (emptied : ∀ s, s.Valid → lost s → ptr v.disk ino' s = 0)
    (kept : ∀ s, s.Valid → ¬ lost s → ptr v.disk ino' s = ptr v.disk ino s) : Dropped lost v ino v' ino' := by
  refine ⟨freed.cleared.congr mem, ?_, ?_, fun x _ => congrFun freed.1 x⟩
  · rw [freed.1]
    exact emptied
  · rw [freed.1]
    exact kept

section

variable (dropped : Dropped lost v ino v' ino')

include dropped

lemma congr (same : ∀ s, s.Valid → (lost s ↔ lost' s)) : Dropped lost' v ino v' ino' := by
  refine ⟨dropped.cleared.congr fun x _ => ?_, fun s hs h => dropped.emptied s hs ((same s hs).mpr h),
    fun s hs h => dropped.kept s hs (mt (same s hs).mp h), dropped.disk⟩
  exact exists_congr fun s => and_congr_right fun hs => and_congr_left fun _ => same s hs

lemma nonzero (hzero : ¬ IsData v 0) : ¬ IsData v' 0 := mt dropped.cleared.same.isData.mp hzero

lemma shrinks (hs : s.Valid) : ptr v'.disk ino' s = 0 ∨ ptr v'.disk ino' s = ptr v.disk ino s := by
  by_cases hLost : lost s
  · exact .inl (dropped.emptied s hs hLost)
  · exact .inr (dropped.kept s hs hLost)

lemma distinct (before : Distinct v ino) : Distinct v' ino' := by
  intro s t hs ht heq hne
  have hs' := (dropped.shrinks hs).resolve_left hne
  have ht' := (dropped.shrinks ht).resolve_left (heq ▸ hne)
  exact before s t hs ht (by rw [← hs', ← ht', heq]) (hs' ▸ hne)

end

lemma trans (hzero : ¬ IsData v 0) (first : Dropped lost v ino v' ino') (second : Dropped lost' v' ino' v'' ino'') :
    Dropped (fun s => lost s ∨ lost' s) v ino v'' ino'' := by
  refine ⟨(first.cleared.trans second.cleared).congr fun x hx => ⟨?_, ?_⟩, fun s hs h => ?_, fun s hs h => ?_, fun x hx => ?_⟩
  · rintro (⟨s, hs, h, rfl⟩ | ⟨s, hs, h, rfl⟩)
    · exact ⟨s, hs, .inl h, rfl⟩
    · by_cases hLost : lost s
      · rw [first.emptied s hs hLost] at hx
        exact absurd hx hzero
      · exact ⟨s, hs, .inr h, (first.kept s hs hLost).symm⟩
  · rintro ⟨s, hs, h | h, rfl⟩
    · exact .inl ⟨s, hs, h, rfl⟩
    · by_cases hLost : lost s
      · exact .inl ⟨s, hs, hLost, rfl⟩
      · exact .inr ⟨s, hs, h, first.kept s hs hLost⟩
  · by_cases hLater : lost' s
    · exact second.emptied s hs hLater
    · rw [second.kept s hs hLater]
      exact first.emptied s hs (h.resolve_right hLater)
  · rw [not_or] at h
    rw [second.kept s hs h.2, first.kept s hs h.1]
  · rw [← first.disk x hx]
    apply second.disk x
    intro t ht table h
    cases first.shrinks ht with
    | inl hEmpty => exact h.symm.trans hEmpty
    | inr hKept => exact hx t ht table (hKept.symm.trans h)

end Dropped

/-- Some slots of `a` were emptied; only tables of `a` were written. -/
structure Released (a : Nat) (v : Volume) (inodes : Nat → Inode) (v' : Volume)
    (inodes' : Nat → Inode) : Prop where
  same : DataOnly v v'
  own : Own v' inodes'
  shrinks : ∀ t, t.Valid → ptr v'.disk (inodes' a) t = 0 ∨ ptr v'.disk (inodes' a) t = ptr v.disk (inodes a) t
  others : ∀ c t, t.Valid → c ≠ a → ptr v'.disk (inodes' c) t = ptr v.disk (inodes c) t
  disk : ∀ x, (∀ t, t.Valid → t.IsTable → ptr v.disk (inodes a) t = x → x = 0) → v'.disk x = v.disk x

lemma Own.distinct (own : Own v inodes) (a : Nat) : Distinct v (inodes a) :=
  fun s t hs ht heq hne => (own.once a s a t hs ht heq hne).2

/-- The tables of another inode are not written. -/
lemma Dropped.others (own : Own v inodes) (dropped : Dropped lost v (inodes a) v' ino') {c : Nat}
    (ht : t.Valid) (hc : c ≠ a) : ptr v'.disk (inodes c) t = ptr v.disk (inodes c) t := by
  cases t with
  | direct i => rfl
  | node d q =>
    apply ptrAt_congr
    intro up hup _ hne
    apply dropped.disk
    intro u hu _ h
    exact absurd (own.once c (.node d up) a u (ht.of_suffix hup) hu h.symm hne).1 hc

lemma Dropped.released (own : Own v inodes) (dropped : Dropped lost v (inodes a) v' ino') :
    Released a v inodes v' (update inodes a ino') := by
  have others : ∀ c t, t.Valid → c ≠ a → ptr v'.disk (update inodes a ino' c) t = ptr v.disk (inodes c) t := by
    intro c t ht hc
    rw [update_of_ne hc]
    exact dropped.others own ht hc
  refine ⟨dropped.cleared.same, ?_, fun t ht => ?_, others, dropped.disk⟩
  · apply own.drop dropped.cleared.same fun c s => c = a ∧ lost s
    · rintro c s hs ⟨rfl, hLost⟩
      rw [update_self]
      exact dropped.emptied s hs hLost
    · intro c s hs hLost
      by_cases hc : c = a
      · subst hc
        rw [update_self]
        exact dropped.kept s hs fun h => hLost ⟨rfl, h⟩
      · exact others c s hs hc
    intro x hx
    rw [dropped.cleared.bits x hx]
    refine and_congr_right fun _ => not_congr ⟨?_, ?_⟩
    · rintro ⟨s, hs, hLost, h⟩
      exact ⟨a, s, hs, ⟨rfl, hLost⟩, h⟩
    · rintro ⟨c, s, hs, ⟨rfl, hLost⟩, h⟩
      exact ⟨s, hs, hLost, h⟩
  · rw [update_self]
    exact dropped.shrinks ht

namespace Released

/-- Fields of the inode that are no pointers do not matter. -/
lemma of_pointers (own : Own v (update inodes a ino)) (same : ino'.pointers = ino.pointers) :
    Released a v (update inodes a ino) v (update inodes a ino') := by
  have none : Dropped (fun _ => False) v (update inodes a ino a) v ino' :=
    .of_pointers own.nonzero (by rw [update_self, same])
  have released := none.released own
  rwa [update_idem] at released

end Released

/-- Rewriting a table whose entries are data blocks moves those entries only. -/
lemma ptr_update_table {T : Nat} (distinct : Distinct v ino) (hs : (Slot.node depth path).Valid)
    (last : path.length + 1 = depth) (hT : ptr v.disk ino (.node depth path) = T) (hT0 : T ≠ 0) (buf : Buffer) :
    (∀ j, ptr (update v.disk T buf) ino (.node depth (j :: path)) = getU32 buf (4 * j)) ∧
    ∀ t, t.Valid → (∀ j, t ≠ .node depth (j :: path)) → ptr (update v.disk T buf) ino t = ptr v.disk ino t := by
  have rest : ∀ t, t.Valid → (∀ j, t ≠ .node depth (j :: path)) →
      ptr (update v.disk T buf) ino t = ptr v.disk ino t := by
    intro t ht hne
    cases t with
    | direct i => rfl
    | node d q =>
      apply ptrAt_congr
      intro up hup hShort hzero
      apply update_of_ne
      intro hUp
      -- the only table that changed is the one above the entries of `path`
      have hSlot := distinct (.node d up) (.node depth path) (ht.of_suffix hup) hs (hUp.trans hT.symm) hzero
      obtain ⟨rfl, rfl⟩ := hSlot
      obtain ⟨front, rfl⟩ := hup
      have hLength := ht.2.2.1
      rw [length_append] at hLength
      cases front with
      | nil => exact hShort rfl
      | cons j front =>
        simp only [length_cons] at hLength
        have : front = [] := eq_nil_of_length_eq_zero (by omega)
        exact hne j (by rw [this]; rfl)
  refine ⟨fun j => ?_, rest⟩
  have above : ptrAt (update v.disk T buf) (ino.root depth) path = T := by
    refine (rest (.node depth path) hs fun j h => ?_).trans hT
    simp at h
  change ptrAt _ _ (j :: path) = _
  rw [ptrAt_cons (above.trans_ne hT0), above, update_self]

lemma clearDirect_dropped (hi : i < directCount) : Dropped (· = .direct i) v ino (bset v (ino.direct i) false)
      { ino with direct := update ino.direct i 0 } := by
  apply Dropped.of_freed (Freed.bset v _)
  · intro x _
    rw [mem_singleton]
    constructor
    · rintro rfl
      exact ⟨.direct i, hi, rfl, rfl⟩
    · rintro ⟨s, -, rfl, rfl⟩
      rfl
  · rintro s _ rfl
    change update ino.direct i 0 i = 0
    rw [update_self]
  · intro s _ hs
    cases s with
    | direct k =>
      apply update_of_ne
      rintro rfl
      exact hs rfl
    | node d path => rfl

lemma freeDirect_dropped (hzero : ¬ IsData v 0) {fuel : Nat} (hi : fuel ≤ directCount - i)
    (h : freeDirect v ino fuel i = (ino', v')) :
    Dropped (fun s => ∃ j, i ≤ j ∧ j < i + fuel ∧ s = .direct j) v ino v' ino' := by
  induction fuel generalizing i v ino with
  | zero =>
    obtain ⟨rfl, rfl⟩ := h
    refine .of_empty hzero ?_
    rintro s _ ⟨j, hlo, hhi, -⟩
    omega
  | succ fuel ih =>
    have split : ∀ s : Slot, (s = .direct i ∨ ∃ j, i + 1 ≤ j ∧ j < i + 1 + fuel ∧ s = .direct j) ↔
        ∃ j, i ≤ j ∧ j < i + (fuel + 1) ∧ s = .direct j := by
      intro s
      constructor
      · rintro (rfl | ⟨j, hlo, hhi, rfl⟩)
        · exact ⟨i, le_rfl, by omega, rfl⟩
        · exact ⟨j, by omega, by omega, rfl⟩
      · rintro ⟨j, hlo, hhi, rfl⟩
        by_cases hj : j = i
        · exact .inl (by rw [hj])
        · exact .inr ⟨j, by omega, by omega, rfl⟩
    rw [freeDirect] at h
    by_cases hEmpty : ino.direct i = 0
    · rw [if_neg (not_not.mpr hEmpty)] at h
      have rest := ih hzero (by omega) h
      have step : Dropped (· = .direct i) v ino v ino := .of_empty hzero fun s _ hs => hs ▸ hEmpty
      exact (step.trans hzero rest).congr fun s _ => split s
    · rw [if_pos hEmpty] at h
      have step := @clearDirect_dropped v ino i (by omega)
      have rest := ih (step.nonzero hzero) (by omega) h
      exact (step.trans hzero rest).congr fun s _ => split s

/-- A whole tree of tables is dropped. -/
lemma freeTree_dropped (hzero : ¬ IsData v 0) (hd : 1 ≤ depth ∧ depth ≤ 3) :
    Dropped (fun s => ∃ q, s = .node depth q) v ino (freeIndirectTree depth v (ino.root depth))
      (ino.setRoot depth 0) := by
  apply Dropped.of_freed (freeIndirectTree_spec depth v (ino.root depth))
  · intro x hx
    rw [mem_treeBlocks fun h => hzero (h ▸ hx)]
    constructor
    · rintro ⟨q, hLength, hq, h⟩
      exact ⟨.node depth q, ⟨hd.1, hd.2, hLength, hq⟩, ⟨q, rfl⟩, h⟩
    · rintro ⟨s, hs, ⟨q, rfl⟩, h⟩
      exact ⟨q, hs.2.2.1, hs.2.2.2, h⟩
  · rintro s _ ⟨q, rfl⟩
    change ptrAt _ ((ino.setRoot depth 0).root depth) q = 0
    rw [Inode.root_setRoot ino hd, if_pos rfl, ptrAt_zero]
  · intro s _ hs
    cases s with
    | direct i =>
      change (ino.setRoot depth 0).direct i = ino.direct i
      rw [Inode.direct_setRoot]
    | node d q =>
      have hne : d ≠ depth := fun e => hs ⟨q, by rw [e]⟩
      change ptrAt _ ((ino.setRoot depth 0).root d) q = _
      rw [Inode.root_setRoot ino hd, if_neg hne]
      rfl

/-- A tree without a root has nothing to drop. -/
lemma noTree_dropped (hzero : ¬ IsData v 0) (none : ino.root depth = 0)
    (inTree : ∀ s, lost s → ∃ q, s = .node depth q) : Dropped lost v ino v ino := by
  apply Dropped.of_empty hzero
  intro s _ hs
  obtain ⟨q, rfl⟩ := inTree s hs
  change ptrAt _ (ino.root depth) q = 0
  rw [none, ptrAt_zero]

/-- The entries from `i` on are freed and cleared in the buffer. -/
lemma freeEntries_spec {buf buf' : Buffer} {fuel i : Nat}
    (h : freeEntries v buf fuel i = (buf', v')) : (∃ blocks, Freed v v' blocks ∧ ∀ x, x ≠ 0 →
      (x ∈ blocks ↔ ∃ j, i ≤ j ∧ j < i + fuel ∧ getU32 buf (4 * j) = x)) ∧
    ∀ j, getU32 buf' (4 * j) = if i ≤ j ∧ j < i + fuel then 0 else getU32 buf (4 * j) := by
  induction fuel generalizing i v buf with
  | zero =>
    rw [freeEntries, Prod.mk.injEq] at h
    obtain ⟨rfl, rfl⟩ := h
    refine ⟨⟨[], .nil v, fun x _ => ?_⟩, fun j => ?_⟩
    · simp only [not_mem_nil, false_iff, not_exists, not_and]
      omega
    · rw [if_neg (by omega)]
  | succ fuel ih =>
    rw [freeEntries] at h
    by_cases hzero : getU32 buf (4 * i) = 0
    · rw [if_neg (not_not.mpr hzero)] at h
      obtain ⟨⟨blocks, freed, mem⟩, entries⟩ := ih h
      refine ⟨⟨blocks, freed, fun x hx => ?_⟩, fun j => ?_⟩
      · rw [mem x hx]
        constructor
        · rintro ⟨j, hlo, hhi, hj⟩
          exact ⟨j, by omega, by omega, hj⟩
        · rintro ⟨j, hlo, hhi, hj⟩
          have : j ≠ i := by
            rintro rfl
            exact hx (hj.symm.trans hzero)
          exact ⟨j, by omega, by omega, hj⟩
      · rw [entries j]
        by_cases hji : j = i
        · rw [if_neg (by omega), if_pos (by omega), hji, hzero]
        · exact if_congr (by omega) rfl rfl
    · rw [if_pos hzero] at h
      obtain ⟨⟨blocks, freed, mem⟩, entries⟩ := ih h
      have hPut : ∀ j, j ≠ i → getU32 (putU32 buf (4 * i) 0) (4 * j) = getU32 buf (4 * j) :=
        fun j hj => getU32_putU32_of_apart (by omega)
      refine ⟨⟨_, (Freed.bset v _).trans freed, fun x hx => ?_⟩, fun j => ?_⟩
      · rw [mem_append, mem_singleton, mem x hx]
        constructor
        · rintro (rfl | ⟨j, hlo, hhi, hj⟩)
          · exact ⟨i, le_rfl, by omega, rfl⟩
          · exact ⟨j, by omega, by omega, (hPut j (by omega)).symm.trans hj⟩
        · rintro ⟨j, hlo, hhi, hj⟩
          by_cases hji : j = i
          · exact .inl (by rw [← hj, hji])
          · exact .inr ⟨j, by omega, by omega, (hPut j hji).trans hj⟩
      · rw [entries j]
        by_cases hji : j = i
        · rw [if_neg (by omega), if_pos (by omega), hji, getU32_putU32_self]
          rfl
        · rw [hPut j hji]
          exact if_congr (by omega) rfl rfl

/-- The single tree goes as a whole unless the length ends in the middle of it. -/
def SingleLost (n : Nat) (s : Slot) : Prop :=
  ∃ q, s = .node 1 q ∧ ((n ≤ directCount ∨ indirectPer ≤ n - directCount) ∨ ∃ j, n - directCount ≤ j ∧ q = [j])

lemma truncateSingle_dropped (hzero : ¬ IsData v 0) (distinct : Distinct v ino)
    (h : truncateSingle v ino n = (ino', v')) : Dropped (SingleLost n) v ino v' ino' := by
  rw [truncateSingle] at h
  by_cases hT0 : ino.singleIndirect = 0
  · rw [if_pos hT0, Prod.mk.injEq] at h
    obtain ⟨rfl, rfl⟩ := h
    exact @noTree_dropped _ _ 1 _ hzero hT0 fun s ⟨q, hs, _⟩ => ⟨q, hs⟩
  rw [if_neg hT0] at h
  by_cases hWhole : n ≤ directCount ∨ indirectPer ≤ n - directCount
  · rw [if_pos hWhole, Prod.mk.injEq] at h
    obtain ⟨rfl, rfl⟩ := h
    refine (@freeTree_dropped v ino 1 hzero (by omega)).congr fun s _ => ⟨?_, ?_⟩
    · rintro ⟨q, rfl⟩
      exact ⟨q, rfl, .inl hWhole⟩
    · rintro ⟨q, rfl, -⟩
      exact ⟨q, rfl⟩
  rw [if_neg hWhole] at h
  generalize hHi : n - directCount = hi at h hWhole
  rcases hEntries : freeEntries v (rdBlk v ino.singleIndirect) (indirectPer - hi) hi with ⟨buf, w⟩
  simp only [hEntries, Prod.mk.injEq] at h
  obtain ⟨rfl, rfl⟩ := h
  obtain ⟨⟨blocks, freed, mem⟩, entries⟩ := freeEntries_spec hEntries
  have hRoot : (Slot.node 1 []).Valid := ⟨le_rfl, by omega, Nat.zero_le _, by simp⟩
  have hLeaf : ∀ {j}, (Slot.node 1 [j]).Valid ↔ j < indirectPer := by
    intro j
    simp [Slot.Valid]
  have hLost : ∀ s, SingleLost n s ↔ ∃ j, hi ≤ j ∧ s = .node 1 [j] := by
    intro s
    unfold SingleLost
    rw [hHi]
    constructor
    · rintro ⟨q, rfl, hq | ⟨j, hj, rfl⟩⟩
      · exact absurd hq hWhole
      · exact ⟨j, hj, rfl⟩
    · rintro ⟨j, hj, rfl⟩
      exact ⟨[j], rfl, .inr ⟨j, hj, rfl⟩⟩
  obtain ⟨moved, rest⟩ := ptr_update_table distinct hRoot rfl rfl hT0 buf
  have hOld : ∀ j, ptr v.disk ino (.node 1 [j]) = getU32 (rdBlk v ino.singleIndirect) (4 * j) :=
    fun j => ptrAt_cons hT0
  refine Dropped.congr ⟨(freed.cleared.congr fun x hx => ?_).wrBlk _ _, ?_, ?_,
    fun x hx => ?_⟩ fun s _ => (hLost s).symm
  · rw [mem x fun e => hzero (e ▸ hx)]
    constructor
    · rintro ⟨j, hlo, hhi, hj⟩
      exact ⟨.node 1 [j], hLeaf.mpr (by omega), ⟨j, hlo, rfl⟩, (hOld j).trans hj⟩
    · rintro ⟨s, hs, ⟨j, hlo, rfl⟩, hj⟩
      have := hLeaf.mp hs
      exact ⟨j, hlo, by omega, (hOld j).symm.trans hj⟩
  · rintro s hs ⟨j, hlo, rfl⟩
    have := hLeaf.mp hs
    rw [wrBlk_disk, freed.1]
    exact (moved j).trans ((entries j).trans (if_pos (by omega)))
  · intro s hs hKept
    rw [wrBlk_disk, freed.1]
    by_cases hEntry : ∃ j, s = .node 1 [j]
    · obtain ⟨j, rfl⟩ := hEntry
      have hlt : ¬ hi ≤ j := fun h => hKept ⟨j, h, rfl⟩
      exact (moved j).trans ((entries j).trans ((if_neg (by omega)).trans (hOld j).symm))
    · exact rest s hs fun j h => hEntry ⟨j, h⟩
  · rw [wrBlk_disk_of_ne, freed.1]
    intro hxT
    have := hx (.node 1 []) hRoot Nat.zero_lt_one hxT.symm
    exact hT0 (hxT.symm.trans this)

def DoubleLost (n : Nat) (s : Slot) : Prop := ∃ q, s = .node 2 q ∧ n ≤ directCount + indirectPer

lemma truncateDouble_dropped (hzero : ¬ IsData v 0) (h : truncateDouble v ino n = (ino', v')) :
    Dropped (DoubleLost n) v ino v' ino' := by
  rw [truncateDouble] at h
  by_cases hWhole : ino.doubleIndirect ≠ 0 ∧ n ≤ directCount + indirectPer
  · rw [if_pos hWhole, Prod.mk.injEq] at h
    obtain ⟨rfl, rfl⟩ := h
    refine (@freeTree_dropped v ino 2 hzero (by omega)).congr fun s _ => ⟨?_, ?_⟩
    · rintro ⟨q, rfl⟩
      exact ⟨q, rfl, hWhole.2⟩
    · rintro ⟨q, rfl, -⟩
      exact ⟨q, rfl⟩
  · rw [if_neg hWhole, Prod.mk.injEq] at h
    obtain ⟨rfl, rfl⟩ := h
    by_cases hShort : n ≤ directCount + indirectPer
    · have none : ino.doubleIndirect = 0 := by
        by_contra hne
        exact hWhole ⟨hne, hShort⟩
      exact @noTree_dropped _ _ 2 _ hzero none fun s ⟨q, hs, _⟩ => ⟨q, hs⟩
    · exact .of_empty hzero fun s _ ⟨q, _, h⟩ => absurd h hShort

def TripleLost (s : Slot) : Prop := ∃ q, s = .node 3 q

lemma truncateTriple_dropped (hzero : ¬ IsData v 0) (h : truncateTriple v ino = (ino', v')) :
    Dropped TripleLost v ino v' ino' := by
  rw [truncateTriple] at h
  split_ifs at h with hRoot
  · obtain ⟨rfl, rfl⟩ := h
    exact @freeTree_dropped v ino 3 hzero (by omega)
  · obtain ⟨rfl, rfl⟩ := h
    exact @noTree_dropped _ _ 3 _ hzero (not_not.mp hRoot) fun s hs => hs

def Lost (n : Nat) (s : Slot) : Prop := (∃ j, n ≤ j ∧ s = .direct j) ∨ SingleLost n s ∨ DoubleLost n s ∨ TripleLost s

lemma truncateBlocks_dropped (hzero : ¬ IsData v 0) (distinct : Distinct v ino)
    (h : truncateBlocks v ino n = (ino', v')) : Dropped (Lost n) v ino v' ino' := by
  rw [truncateBlocks] at h
  rcases hDirect : freeDirect v ino (directCount - n) n with ⟨ino₁, v₁⟩
  rcases hSingle : truncateSingle v₁ ino₁ n with ⟨ino₂, v₂⟩
  rcases hDouble : truncateDouble v₂ ino₂ n with ⟨ino₃, v₃⟩
  rcases hTriple : truncateTriple v₃ ino₃ with ⟨ino₄, v₄⟩
  simp only [hDirect, hSingle, hDouble, hTriple, Prod.mk.injEq] at h
  obtain ⟨rfl, rfl⟩ := h
  have first := freeDirect_dropped hzero le_rfl hDirect
  have second := truncateSingle_dropped (first.nonzero hzero) (first.distinct distinct) hSingle
  have two := first.trans hzero second
  have third := truncateDouble_dropped (two.nonzero hzero) hDouble
  have three := two.trans hzero third
  have fourth := truncateTriple_dropped (three.nonzero hzero) hTriple
  have four := three.trans hzero fourth
  have recount : Dropped (fun _ => False) v₄ ino₄ v₄ { ino₄ with blocksCount := n } :=
    .of_pointers (four.nonzero hzero) rfl
  refine (four.trans hzero recount).congr fun s hs => ?_
  have direct : (∃ j, n ≤ j ∧ j < n + (directCount - n) ∧ s = .direct j) ↔ ∃ j, n ≤ j ∧ s = .direct j := by
    refine exists_congr fun j => and_congr_right fun hj => and_iff_right_of_imp ?_
    rintro rfl
    change j < directCount at hs
    omega
  rw [Lost, direct, or_false, or_assoc, or_assoc]

lemma truncateBlocks_spec (own : Own v (update inodes a ino)) (h : truncateBlocks v ino n = (ino', v'))
    : Released a v (update inodes a ino) v' (update inodes a ino') := by
  have distinct := own.distinct a
  rw [update_self] at distinct
  have dropped := truncateBlocks_dropped own.nonzero distinct h
  rw [← update_self a ino inodes] at dropped
  have released := dropped.released own
  rwa [update_idem] at released

end YartOS.Fs
