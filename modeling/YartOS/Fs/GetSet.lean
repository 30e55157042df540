import YartOS.Fs.BlockOwners

/-! The block map of one inode: what `inode_get_block` stores is what it finds. -/
namespace YartOS.Fs

open Bytes Function List

variable {v v' v'' : Volume} {ino ino' : Inode} {b m n preferGroup : Nat}

/-- The blocks of the inode are distinct data blocks in use; other blocks may be in use too. -/
structure InodeOk (v : Volume) (ino : Inode) : Prop where
  nonzero : ¬ IsData v 0
  isData : ∀ s : Slot, s.Valid → ptr v.disk ino s ≠ 0 → IsData v (ptr v.disk ino s)
  used : ∀ s : Slot, s.Valid → ptr v.disk ino s ≠ 0 → bbit v (ptr v.disk ino s) = true
  once : ∀ s t : Slot, s.Valid → t.Valid → ptr v.disk ino s = ptr v.disk ino t →
    ptr v.disk ino s ≠ 0 → s = t

/-- In use, and no block of the inode. -/
def Foreign (v : Volume) (ino : Inode) (c : Nat) : Prop :=
  IsData v c ∧ bbit v c = true ∧ ∀ s : Slot, s.Valid → ptr v.disk ino s ≠ c

open Classical in
/-- Inode 0 is the given one, inode `c` holds block `c` if that is foreign. -/
noncomputable def owners (v : Volume) (ino : Inode) (c : Nat) : Inode :=
  if c = 0 then ino else { direct := fun i => if i = 0 ∧ Foreign v ino c then c else 0 }

open Classical in
lemma ptr_owners (c : Nat) (s : Slot) : ptr v.disk (owners v ino c) s =
    if c = 0 then ptr v.disk ino s else if s = .direct 0 ∧ Foreign v ino c then c else 0 := by
  unfold owners
  split_ifs with hc hOwn
  · rfl
  · rw [hOwn.1]
    exact if_pos ⟨rfl, hOwn.2⟩
  · cases s with
    | direct i => exact if_neg fun h => hOwn ⟨by rw [h.1], h.2⟩
    | node depth path => exact ptr_empty v.disk (.node depth path)

lemma InodeOk.own (ok : InodeOk v ino) : Own v (owners v ino) := by
  obtain ⟨nonzero, isData, used, once⟩ := ok
  refine ⟨nonzero, fun c s hs h => ?_, fun c s d t hs ht same h => ?_,
    fun x hx => ⟨fun hUsed => ?_, ?_⟩⟩
  · rw [ptr_owners] at h ⊢
    grind [Foreign]
  · simp only [ptr_owners] at same h
    grind [Foreign]
  · by_cases hForeign : Foreign v ino x
    · refine ⟨x, .direct 0, (by decide : 0 < directCount), ?_⟩
      rw [ptr_owners, if_neg fun h : x = 0 => nonzero (h ▸ hx), if_pos ⟨rfl, hForeign⟩]
    · obtain ⟨s, hs, h⟩ : ∃ s : Slot, s.Valid ∧ ptr v.disk ino s = x := by
        simpa [Foreign, hx, hUsed] using hForeign
      exact ⟨0, s, hs, h⟩
  · rintro ⟨c, s, hs, h⟩
    rw [ptr_owners] at h
    grind [Foreign]

/-- At most `n` bits of the bitmap were set, all clear before, and no allocation failed. -/
structure Marks (n : Nat) (v v' : Volume) : Prop where
  failed : v'.failed = v.failed
  bits : ∃ set : List Nat, set.length ≤ n ∧ (∀ x ∈ set, bbit v x = false) ∧
    ∀ x, bbit v' x = (bbit v x || decide (x ∈ set))

namespace Marks

lemma refl (v : Volume) : Marks n v v := ⟨rfl, [], Nat.zero_le _, nofun, by simp⟩

lemma trans (first : Marks m v v') (second : Marks n v' v'') : Marks (m + n) v v'' := by
  obtain ⟨set, hLength, hClear, hBits⟩ := first.bits
  obtain ⟨set', hLength', hClear', hBits'⟩ := second.bits
  refine ⟨second.failed.trans first.failed, set ++ set', ?_, fun x hx => ?_, fun x => ?_⟩
  · rw [length_append]
    omega
  · rcases mem_append.mp hx with hx | hx
    · exact hClear x hx
    · have hNow := hClear' x hx
      rw [hBits, Bool.or_eq_false_iff] at hNow
      exact hNow.1
  · rw [hBits', hBits, Bool.or_assoc]
    simp

/-- Writing a block marks nothing. -/
lemma wrBlk (marks : Marks n v v') (b : Nat) (buf : Buffer) : Marks n v (wrBlk v' b buf) :=
  ⟨marks.failed, marks.bits⟩

end Marks

/-- A block that is there is taken; a fresh one is marked. -/
lemma marks_of_demand (p : Nat) (make : Nat → Volume → Volume)
    (quiet : ∀ b w, Marks (n + 1) v w → Marks (n + 1) v (make b w)) (hb : b ≠ 0)
    (h : demand v p preferGroup make = (b, v')) : Marks (n + 1) v v' := by
  unfold demand at h
  split_ifs at h with hThere hNone <;> obtain ⟨rfl, rfl⟩ := Prod.mk.inj h
  · exact .refl v
  · exact absurd rfl hb
  refine quiet _ _ ?_
  rcases allocBlock_cases v preferGroup with ⟨c, hc, hAlloc⟩ | hAlloc <;> rw [hAlloc] at hb ⊢
  · refine ⟨bset_failed v c true, [c], Nat.le_add_left 1 n, forall_mem_singleton.mpr hc, fun x => ?_⟩
    rw [bbit_bset (isData_of_bbit hc)]
    by_cases hx : x = c <;> simp [hx]
  · exact absurd rfl hb

lemma rootOf_marks {root : Nat} (hb : b ≠ 0) (h : rootOf v root true preferGroup = (b, v')) :
    Marks (n + 1) v v' :=
  marks_of_demand root (fun c w => wrBlk w c zeros) (fun _ _ marks => marks.wrBlk _ _) hb h

lemma leafOf_marks {tbl i : Nat} (hb : b ≠ 0) (h : leafOf v tbl i true preferGroup = (b, v')) :
    Marks (n + 1) v v' :=
  marks_of_demand (entry v tbl i) (fun c w => setEntry w tbl i c) (fun _ _ marks => marks.wrBlk _ _)
    hb h

lemma tableOf_marks {dtbl i : Nat} (hb : b ≠ 0) (h : tableOf v dtbl i true preferGroup = (b, v')) :
    Marks (n + 1) v v' := by
  rw [tableOf_eq] at h
  exact marks_of_demand _ _ (fun _ _ marks => (marks.wrBlk _ _).wrBlk _ _) hb h

/-- The root table, a table under it and the block itself may be new. -/
lemma inodeGetBlock_marks {index : Nat} (hb : b ≠ 0)
    (h : inodeGetBlock v ino index true preferGroup = (b, ino', v')) :
    Marks 3 v v' := by
  unfold inodeGetBlock at h
  split_ifs at h
  · refine @marks_of_demand v v' b 2 preferGroup (ino.direct index) (fun _ w => w)
      (fun _ _ h => h) hb ?_
    unfold getDirect at h
    unfold demand
    simp only [Bool.not_true, Bool.false_eq_true, if_false] at h
    split_ifs at h ⊢ <;> cases h <;> rfl
  · unfold getSingle at h
    rcases hRoot : rootOf v ino.singleIndirect true preferGroup with ⟨tbl, v₁⟩
    rcases hLeaf : leafOf v₁ tbl (index - directCount) true preferGroup with ⟨c, v₂⟩
    simp only [hRoot, hLeaf] at h
    split_ifs at h with hTbl <;> cases h
    · exact absurd rfl hb
    · exact Marks.trans (m := 2) (n := 1) (rootOf_marks hTbl hRoot) (leafOf_marks hb hLeaf)
  · unfold getDouble at h
    generalize (index - directCount - indirectPer) / indirectPer = i at h
    generalize (index - directCount - indirectPer) % indirectPer = j at h
    rcases hRoot : rootOf v ino.doubleIndirect true preferGroup with ⟨dtbl, v₁⟩
    rcases hTable : tableOf v₁ dtbl i true preferGroup with ⟨tbl, v₂⟩
    rcases hLeaf : leafOf v₂ tbl j true preferGroup with ⟨c, v₃⟩
    simp only [hRoot, hTable, hLeaf] at h
    split_ifs at h with hDtbl hTbl <;> cases h
    · exact absurd rfl hb
    · exact absurd rfl hb
    · have tables := Marks.trans (m := 1) (n := 1) (rootOf_marks hDtbl hRoot)
        (tableOf_marks hTbl hTable)
      exact tables.trans (n := 1) (leafOf_marks hb hLeaf)
  · cases h
    exact absurd rfl hb

/-- Get after set: the block is found at its index, every other index is as before, and at most
three blocks were taken, all free; a lookup changes nothing. -/
theorem getBlock_setBlock (v : Volume) (ino : Inode) (index preferGroup : Nat) (ok : InodeOk v ino)
    (working : v.failed = false) (hIndex : index < mappedBlocks) :
    (∀ b ino' v', inodeGetBlock v ino index true preferGroup = (b, ino', v') → b ≠ 0 →
        (inodeGetBlock v' ino' index false 0).1 = b ∧
        (∀ other ≠ index,
          (inodeGetBlock v' ino' other false 0).1 = (inodeGetBlock v ino other false 0).1) ∧
        ∃ set : List Nat, set.length ≤ 3 ∧ (∀ x ∈ set, bbit v x = false) ∧
          ∀ x, bbit v' x = (bbit v x || decide (x ∈ set))) ∧
      (inodeGetBlock v ino index false preferGroup).2 = (ino, v) := by
  refine ⟨fun b ino' v' h hb => ?_, ?_⟩
  · have marks := inodeGetBlock_marks hb h
    have own : Own v (update (owners v ino) 0 ino) := (update_eq_self 0 (owners v ino)).symm ▸ ok.own
    obtain ⟨-, mapped, hSlot⟩ := inodeGetBlock_spec own hIndex h (marks.failed.trans working)
    refine ⟨?_, fun other hOther => ?_, marks.bits⟩
    · rw [inodeGetBlock_reads, if_pos hIndex, hSlot]
    · rw [inodeGetBlock_reads, inodeGetBlock_reads]
      split_ifs with hMapped
      · obtain ⟨hValid, hLeaf⟩ := slotOf_valid hMapped
        have hSame := mapped.leaves 0 (slotOf other) hValid hLeaf
          fun h => hOther (slotOf_injective h.2)
        rwa [update_self, update_self] at hSame
      · rfl
  · rw [inodeGetBlock_stuck (fun h => Bool.noConfusion h) ino hIndex]
    exact congrArg (Prod.mk ino) (if_neg fun h => Bool.noConfusion h.1)

/-- On an empty volume the first block behind the single table takes three blocks. -/
theorem firstDouble_set :
    ∃ b ino' v', inodeGetBlock fourMebibytes {} 1036 true 0 = (b, ino', v') ∧ b ≠ 0 ∧
    (inodeGetBlock v' ino' 1036 false 0).1 = b := by
  have ok : InodeOk fourMebibytes {} := by
    refine ⟨fourMebibytes_ok.1.not_isData_zero, fun s _ h => ?_, fun s _ h => ?_,
      fun s t _ _ _ h => ?_⟩ <;>
      exact absurd (ptr_empty _ s) h
  have hNew : (inodeGetBlock fourMebibytes {} 1036 true 0).1 ≠ 0 ∧ fourMebibytes.failed = false := by
    decide +kernel
  have law := (getBlock_setBlock fourMebibytes {} 1036 0 ok hNew.2 (by decide)).1 _ _ _
    Prod.mk.eta.symm hNew.1
  exact ⟨_, _, _, Prod.mk.eta.symm, hNew.1, law.1⟩

end YartOS.Fs
