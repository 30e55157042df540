import YartOS.Fs.Parts
import YartOS.Fs.Release
import Mathlib.Tactic.IntervalCases

/-! Writing the contents of a file; what other files hold does not change. -/
namespace YartOS.Fs

open Bytes Function Inode

variable {v v' v'' : Volume} {inodes inodes' inodes'' : Nat → Inode} {ino ino' : Inode}
  {a b c x first mid last preferGroup size : Nat} {content : Nat → Buffer} {data : Buffer}

lemma crcStoreBlock_disk (crc : Nat) (hx : x ≠ crcBlockOf v (dataIndex v b)) :
    (crcStoreBlock v b crc).disk x = v.disk x := by
  unfold crcStoreBlock
  simp only
  split_ifs
  · rfl
  · exact wrBlk_disk_of_ne _ hx

lemma bbit_crcStoreBlock (v : Volume) (b crc x : Nat) : bbit (crcStoreBlock v b crc) x = bbit v x := by
  unfold crcStoreBlock
  simp only
  split_ifs <;> rfl

lemma ptr_crcStoreBlock (wf : WellFormed v) (own : Own v inodes) (hb : IsData v b) (crc c : Nat) {t : Slot}
    (ht : t.Valid) : ptr (crcStoreBlock v b crc).disk (inodes c) t = ptr v.disk (inodes c) t := by
  unfold crcStoreBlock
  simp only
  split_ifs
  · rfl
  · exact ptr_update_of_not_table _ ht fun u hu _ =>
      own.not_table (wf.crcBlockOf_not_isData hb) c u hu

/-- Blocks `first` to `last` of inode `a` hold `content`; besides, only checksums were written. -/
structure Stored (a first last : Nat) (content : Nat → Buffer) (v : Volume)
    (inodes : Nat → Inode) (v' : Volume) (inodes' : Nat → Inode) : Prop where
  same : DataOnly v v'
  own : Own v' inodes'
  others : ∀ c t, t.Valid → c ≠ a → ptr v'.disk (inodes' c) t = ptr v.disk (inodes c) t
  kept : ∀ c t, t.Valid → ¬ t.IsTable → (c = a → ∀ j, first ≤ j → j < last → t ≠ slotOf j) →
    ptr v.disk (inodes c) t ≠ 0 → ptr v'.disk (inodes' c) t = ptr v.disk (inodes c) t ∧
      v'.disk (ptr v.disk (inodes c) t) = v.disk (ptr v.disk (inodes c) t)
  stored : ∀ j, first ≤ j → j < last → ptr v'.disk (inodes' a) (slotOf j) ≠ 0 ∧
    v'.disk (ptr v'.disk (inodes' a) (slotOf j)) = content j
  outside : ∀ x, ¬ IsData v x → ¬ Part.checksums.Holds v x → v'.disk x = v.disk x

namespace Stored

lemma refl (own : Own v inodes) : Stored a first first content v inodes v inodes :=
  ⟨.refl v, own, fun _ _ _ _ => rfl, fun _ _ _ _ _ _ => ⟨rfl, rfl⟩, fun j hlo hhi => by omega, fun _ _ _ => rfl⟩

lemma holds_iff (same : DataOnly v v') (p : Part) : p.Holds v' x ↔ p.Holds v x := by
  unfold Part.Holds
  rw [same.sb, same.desc]

lemma trans (hlo : first ≤ mid) (hmid : mid ≤ last) (hMapped : last ≤ mappedBlocks)
    (head : Stored a first mid content v inodes v' inodes') (tail : Stored a mid last content v' inodes' v'' inodes'') :
    Stored a first last content v inodes v'' inodes'' := by
  refine ⟨head.same.trans tail.same, tail.own, fun c t ht hc => ?_, fun c t ht leaf hOut hne => ?_,
    fun j hj hj' => ?_, fun x hx hCrc => ?_⟩
  · rw [tail.others c t ht hc, head.others c t ht hc]
  · have hHead := head.kept c t ht leaf (fun hc j h h' => hOut hc j h (by omega)) hne
    have hTail := tail.kept c t ht leaf (fun hc j h h' => hOut hc j (by omega) h') (hHead.1 ▸ hne)
    rw [hHead.1] at hTail
    exact ⟨hTail.1, hTail.2.trans hHead.2⟩
  · by_cases hjm : j < mid
    · -- what the head has stored, the tail leaves alone
      have hHead := head.stored j hj hjm
      have slot := slotOf_valid (lt_of_lt_of_le hj' hMapped)
      have hTail := tail.kept a (slotOf j) slot.1 slot.2
        (fun _ k hk _ h => by have := slotOf_injective h; omega) hHead.1
      rw [hTail.1]
      exact ⟨hHead.1, hTail.2.trans hHead.2⟩
    · exact tail.stored j (by omega) hj'
  · rw [tail.outside x (mt head.same.isData.mp hx) (mt (holds_iff head.same _).mp hCrc), head.outside x hx hCrc]

end Stored

namespace DataOnly

lemma freeDirect (v : Volume) (ino : Inode) (fuel i : Nat) : DataOnly v (freeDirect v ino fuel i).2 := by
  induction fuel generalizing v ino i with
  | zero => exact refl v
  | succ fuel ih =>
    rw [Fs.freeDirect]
    split_ifs
    · exact (bset v _ false).trans (ih _ _ _)
    · exact ih _ _ _

lemma freeEntries (v : Volume) (buf : Buffer) (fuel i : Nat) : DataOnly v (freeEntries v buf fuel i).2 := by
  induction fuel generalizing v buf i with
  | zero => exact refl v
  | succ fuel ih =>
    rw [Fs.freeEntries]
    split_ifs
    · exact (bset v _ false).trans (ih _ _ _)
    · exact ih _ _ _

lemma freeIndirectTree (depth : Nat) (v : Volume) (b : Nat) : DataOnly v (freeIndirectTree depth v b) :=
  (freeIndirectTree_spec depth v b).2.2.1

lemma truncateBlocks (v : Volume) (ino : Inode) (nblocks : Nat) : DataOnly v (truncateBlocks v ino nblocks).2 := by
  have single : ∀ (v : Volume) (ino : Inode), DataOnly v (truncateSingle v ino nblocks).2 := by
    intro v ino
    unfold truncateSingle
    split_ifs
    · exact refl v
    · exact freeIndirectTree 1 v _
    · exact (freeEntries v _ _ _).trans (wrBlk _ _ _)
  have double : ∀ (v : Volume) (ino : Inode), DataOnly v (truncateDouble v ino nblocks).2 := by
    intro v ino
    unfold truncateDouble
    split_ifs
    · exact freeIndirectTree 2 v _
    · exact refl v
  have triple : ∀ (v : Volume) (ino : Inode), DataOnly v (truncateTriple v ino).2 := by
    intro v ino
    unfold truncateTriple
    split_ifs
    · exact freeIndirectTree 3 v _
    · exact refl v
  exact (((freeDirect v ino _ _).trans (single _ _)).trans (double _ _)).trans (triple _ _)

lemma persistData (v : Volume) (a : Nat) (ino : Inode) (data : Buffer) (size : Nat) :
    DataOnly v (persistData v a ino data size).2.2 := by
  have shrunk : DataOnly v (if blocksFor size < ino.blocksCount
      then Fs.truncateBlocks v ino (blocksFor size) else (ino, v)).2 := by
    split_ifs
    · exact truncateBlocks v ino _
    · exact refl v
  rw [Fs.persistData]
  generalize (if blocksFor size < ino.blocksCount then Fs.truncateBlocks v ino (blocksFor size)
    else (ino, v)) = r at *
  cases r with
  | mk ino₁ v₁ =>
  have stored := dataOnly_extends.persistBlocks data size (sub32 a 1 / inodesPerGroup) (blocksFor size) 0 ino₁ v₁
  rcases h : Fs.persistBlocks data size (sub32 a 1 / inodesPerGroup) (blocksFor size) 0 ino₁ v₁ with ⟨done, rest⟩
  rw [h] at stored
  simp only [h]
  split_ifs
  · exact shrunk.trans stored
  · exact shrunk.trans stored

lemma persistInode (v : Volume) (a : Nat) (wasNew : Bool) (attrs : Attrs) (data : Buffer)
    (size : Nat) : DataOnly v (persistInode v a wasNew attrs data size).2 := by
  have stored := persistData v a (if wasNew then {} else rdInode v a) data size
  rw [Fs.persistInode]
  rcases h : Fs.persistData v a (if wasNew then {} else rdInode v a) data size with ⟨done, rest⟩
  rw [h] at stored
  dsimp only
  split_ifs
  · exact stored.trans (wrBlk _ _ _)
  · exact stored

end DataOnly

variable {done : Bool} {s t : Slot} {db fuel : Nat} {v₁ : Volume}

/-- Writing a data block and its checksum moves no slot. -/
lemma ptr_storeBlock (wf : WellFormed v) (own : Own v inodes) (hs : s.Valid) (leaf : ¬ s.IsTable)
    (hne : ptr v.disk (inodes a) s ≠ 0) (buf : Buffer) (crc c : Nat) (ht : t.Valid) :
    ptr (crcStoreBlock (wrBlk v (ptr v.disk (inodes a) s) buf) (ptr v.disk (inodes a) s) crc).disk
      (inodes c) t = ptr v.disk (inodes c) t := by
  have notTable : ∀ c t, t.Valid → t.IsTable → ptr v.disk (inodes c) t = ptr v.disk (inodes a) s →
      ptr v.disk (inodes a) s = 0 :=
    fun c t ht table heq => absurd heq (own.leaf_not_table hs leaf hne c t ht table)
  rw [ptr_crcStoreBlock (wf.of_dataOnly (.wrBlk _ _ _)) (own.wrBlk buf notTable) (own.isData a s hs hne) crc c ht]
  exact ptr_update_of_not_table _ ht (notTable c)

/-- Besides the block itself only checksums are written. -/
lemma storeBlock_disk (wf : WellFormed v) (hx : IsData v x) (buf : Buffer) (crc : Nat) :
    (crcStoreBlock (wrBlk v x buf) x crc).disk x = buf ∧ ∀ y, y ≠ x → ¬ Part.checksums.Holds v y →
        (crcStoreBlock (wrBlk v x buf) x crc).disk y = v.disk y := by
  have same : DataOnly v (wrBlk v x buf) := .wrBlk v x buf
  have wf₁ := wf.of_dataOnly same
  have hx₁ : IsData (wrBlk v x buf) x := hx
  constructor
  · rw [crcStoreBlock_disk, wrBlk_disk, update_self]
    intro h
    exact wf₁.crcBlockOf_not_isData hx₁ (h ▸ hx₁)
  · intro y hy hCrc
    rw [crcStoreBlock_disk, wrBlk_disk_of_ne _ hy]
    rintro rfl
    exact hCrc ((Stored.holds_iff same _).mp (wf₁.crcBlockOf_holds hx₁))

lemma storeBlock_spec (wf : WellFormed v) (own : Own v (update inodes a ino)) (hb : b < mappedBlocks)
    (h : inodeGetBlock v ino b true preferGroup = (db, ino', v₁))
    (ok : v₁.failed = false) (content : Nat → Buffer) (crc : Nat) :
    db ≠ 0 ∧ Stored a b (b + 1) content v (update inodes a ino)
      (crcStoreBlock (wrBlk v₁ db (content b)) db crc) (update inodes a ino') := by
  obtain ⟨hdb, mapped, hSlot⟩ := inodeGetBlock_spec own hb h ok
  obtain ⟨hs, leaf⟩ := slotOf_valid hb
  refine ⟨hdb, ?_⟩
  have hHere : ptr v₁.disk (update inodes a ino' a) (slotOf b) = db := by rw [update_self, hSlot]
  generalize update inodes a ino' = after at *
  generalize update inodes a ino = before at *
  have hDb : IsData v₁ db := by
    have := mapped.own.isData a (slotOf b) hs (hHere ▸ hdb)
    rwa [hHere] at this
  have same₂ := mapped.same.trans (.wrBlk v₁ db (content b))
  obtain ⟨hHereDisk, hDisk⟩ := storeBlock_disk (wf.of_dataOnly mapped.same) hDb (content b) crc
  have slots : ∀ c t, t.Valid → ptr (crcStoreBlock (wrBlk v₁ db (content b)) db crc).disk (after c) t =
      ptr v₁.disk (after c) t := by
    intro c t ht
    have := ptr_storeBlock (wf.of_dataOnly mapped.same) mapped.own hs leaf (hHere ▸ hdb) (content b)
      crc c ht
    rwa [hHere] at this
  have disk : ∀ x, x ≠ db → ¬ Part.checksums.Holds v x →
      (crcStoreBlock (wrBlk v₁ db (content b)) db crc).disk x = v₁.disk x := by
    intro x hx hCrc
    exact hDisk x hx (mt (Stored.holds_iff mapped.same _).mp hCrc)
  have dataOutside : ∀ {x}, IsData v x → ¬ Part.checksums.Holds v x := by
    intro x hx hCrc
    exact wf.not_isData hCrc (fun _ h => Part.noConfusion h) hx
  refine ⟨same₂.trans (.crcStoreBlock _ _ _), ?_, fun c t ht hc => ?_, fun c t ht hLeaf hOut hne => ?_,
    fun j hlo hhi => ?_, fun x hx hCrc => ?_⟩
  · apply mapped.own.congr (fun _ => ((DataOnly.wrBlk v₁ db (content b)).trans (.crcStoreBlock _ _ _)).isData) slots
    intro x _
    rw [bbit_crcStoreBlock, bbit_wrBlk]
  · rw [slots c t ht, mapped.others c t ht hc]
  · have hSame := mapped.leaves c t ht hLeaf fun h => hOut h.1 b le_rfl (by omega) h.2
    have hx := own.isData c t ht hne
    have hUsed := (own.bits _ hx).mpr ⟨c, t, ht, rfl⟩
    refine ⟨(slots c t ht).trans hSame, ?_⟩
    rw [disk _ ?_ (dataOutside hx), mapped.disk _ (fun _ => hUsed)]
    · intro d u hu table heq
      exact absurd heq (own.leaf_not_table ht hLeaf hne d u hu table)
    · intro heq
      have := mapped.own.once c t a (slotOf b) ht hs (hSame.trans (heq.trans hHere.symm)) (hSame ▸ hne)
      exact hOut this.1 b le_rfl (by omega) this.2
  · obtain rfl : j = b := by omega
    rw [slots a _ hs, hHere]
    exact ⟨hdb, hHereDisk⟩
  · have hxdb : x ≠ db := by
      rintro rfl
      exact hx (mapped.same.isData.mp hDb)
    rw [disk x hxdb hCrc]
    exact mapped.disk x (fun h => absurd h hx) fun c t ht _ => own.not_table hx c t ht

/-- If the loop goes through, the first block was allocated. -/
lemma persistBlocks_ok {ino₁ : Inode} (hGet : inodeGetBlock v ino b true preferGroup = (db, ino₁, v₁))
    (h : persistBlocks data size preferGroup (fuel + 1) b ino v = (done, ino', v')) (ok : v'.failed = false) :
    v₁.failed = false := by
  rw [persistBlocks, hGet] at h
  simp only at h
  split_ifs at h
  · rw [Prod.mk.injEq, Prod.mk.injEq] at h
    rw [h.2.2]
    exact ok
  have mono := (dataOnly_extends.persistBlocks data size preferGroup fuel (b + 1) ino₁
    (crcStoreBlock (wrBlk v₁ db (dataBlock data size b)) db (crc32b (dataBlock data size b) blockSize))).failed
  rw [h] at mono
  have := mono ok
  unfold crcStoreBlock at this
  simp only at this
  split_ifs at this <;> exact this

lemma persistBlocks_spec (wf : WellFormed v) (own : Own v (update inodes a ino)) (hb : b + fuel ≤ mappedBlocks)
    (h : persistBlocks data size preferGroup fuel b ino v = (done, ino', v')) (ok : v'.failed = false) :
    done = true ∧ Stored a b (b + fuel) (dataBlock data size) v (update inodes a ino) v' (update inodes a ino') := by
  induction fuel generalizing b ino v with
  | zero =>
    obtain ⟨rfl, rfl, rfl⟩ := h
    exact ⟨rfl, .refl own⟩
  | succ fuel ih =>
    rcases hGet : inodeGetBlock v ino b true preferGroup with ⟨db, ino₁, v₁⟩
    have ok₁ := persistBlocks_ok hGet h ok
    rw [persistBlocks, hGet] at h
    simp only at h
    obtain ⟨hdb, head⟩ := storeBlock_spec wf own (by omega) hGet ok₁
      (dataBlock data size) (crc32b (dataBlock data size b) blockSize)
    rw [if_neg hdb] at h
    obtain ⟨hDone, tail⟩ := ih (wf.of_dataOnly head.same) head.own (by omega) h
    rw [show b + 1 + fuel = b + (fuel + 1) by omega] at tail
    exact ⟨hDone, head.trans (by omega) (by omega) hb tail⟩

lemma blocksFor_le (size : Nat) : blocksFor size ≤ mappedBlocks := by
  have : u32 (size + blockSize - 1) < 2 ^ 32 := Nat.mod_lt _ (Nat.two_pow_pos 32)
  unfold blocksFor mappedBlocks blockSize directCount indirectPer at *
  omega

/-- The first `n` blocks of inode `a` hold `content`; besides, only checksums were written. -/
structure Rewritten (a n : Nat) (content : Nat → Buffer) (v : Volume) (inodes : Nat → Inode)
    (v' : Volume) (inodes' : Nat → Inode) : Prop where
  same : DataOnly v v'
  own : Own v' inodes'
  others : ∀ c t, t.Valid → c ≠ a → ptr v'.disk (inodes' c) t = ptr v.disk (inodes c) t
  kept : ∀ c t, t.Valid → ¬ t.IsTable → c ≠ a → ptr v.disk (inodes c) t ≠ 0 →
    v'.disk (ptr v.disk (inodes c) t) = v.disk (ptr v.disk (inodes c) t)
  stored : ∀ j < n, ptr v'.disk (inodes' a) (slotOf j) ≠ 0 ∧ v'.disk (ptr v'.disk (inodes' a) (slotOf j)) = content j
  outside : ∀ x, ¬ IsData v x → ¬ Part.checksums.Holds v x → v'.disk x = v.disk x

lemma Released.rewritten {n : Nat} (own : Own v inodes) (released : Released a v inodes v' inodes')
    (stored : Stored a 0 n content v' inodes' v'' inodes'') : Rewritten a n content v inodes v'' inodes'' := by
  refine ⟨released.same.trans stored.same, stored.own, fun c t ht hc => ?_,
    fun c t ht leaf hc hne => ?_, fun j hj => stored.stored j (Nat.zero_le _) hj,
    fun x hx hCrc => ?_⟩
  · rw [stored.others c t ht hc, released.others c t ht hc]
  · have hSame := released.others c t ht hc
    have hStored := (stored.kept c t ht leaf (fun h => absurd h hc) (hSame ▸ hne)).2
    rw [hSame] at hStored
    rw [hStored]
    apply released.disk
    intro u hu table h
    exact absurd h (own.leaf_not_table ht leaf hne a u hu table)
  · rw [stored.outside x (mt released.same.isData.mp hx) (mt (Stored.holds_iff released.same _).mp hCrc)]
    exact released.disk x fun t ht _ => own.not_table hx a t ht

/-- `persist_data` gives blocks back if the file shrinks, then runs its loop. -/
lemma persistData_parts (own : Own v (update inodes a ino))
    (h : persistData v b ino data size = (done, ino', v')) : ∃ ino₁ v₁ ino₂,
      Released a v (update inodes a ino) v₁ (update inodes a ino₁) ∧
      persistBlocks data size (sub32 b 1 / inodesPerGroup) (blocksFor size) 0 ino₁ v₁ = (done, ino₂, v') ∧
      (done = true → ino' = { ino₂ with size := size, blocksCount := blocksFor size }) := by
  rw [persistData] at h
  generalize hShrunk : (if blocksFor size < ino.blocksCount then truncateBlocks v ino (blocksFor size)
    else (ino, v)) = shrunk at h
  cases shrunk with
  | mk ino₁ v₁ =>
  have released : Released a v (update inodes a ino) v₁ (update inodes a ino₁) := by
    split_ifs at hShrunk
    · exact truncateBlocks_spec own hShrunk
    · obtain ⟨rfl, rfl⟩ := hShrunk
      exact .of_pointers own rfl
  rcases hBlocks : persistBlocks data size (sub32 b 1 / inodesPerGroup) (blocksFor size) 0 ino₁ v₁ with ⟨done₁, ino₂, v₂⟩
  simp only [hBlocks] at h
  refine ⟨ino₁, v₁, ino₂, released, ?_⟩
  split_ifs at h with hDone <;> rw [Prod.mk.injEq, Prod.mk.injEq] at h <;> obtain ⟨rfl, rfl, rfl⟩ := h
  · exact ⟨by rw [← hDone, hBlocks], fun _ => rfl⟩
  · exact ⟨by rw [Bool.eq_false_of_not_eq_true hDone] at hBlocks; exact hBlocks, nofun⟩

lemma persistData_spec (wf : WellFormed v) (own : Own v (update inodes a ino))
    (h : persistData v b ino data size = (done, ino', v')) (ok : v'.failed = false) :
    done = true ∧ ino'.size = size ∧ Rewritten a (blocksFor size) (dataBlock data size) v (update inodes a ino) v'
        (update inodes a ino') := by
  obtain ⟨ino₁, v₁, ino₂, released, hBlocks, hFinal⟩ := persistData_parts own h
  obtain ⟨rfl, stored⟩ := persistBlocks_spec (wf.of_dataOnly released.same) released.own
    (by have := blocksFor_le size; omega) hBlocks ok
  obtain rfl := hFinal rfl
  rw [zero_add] at stored
  refine ⟨rfl, rfl, ?_⟩
  -- the size and the block count are no pointers
  have final : Released a v' (update inodes a ino₂) v'
      (update inodes a { ino₂ with size := size, blocksCount := blocksFor size }) :=
    .of_pointers stored.own rfl
  have rewritten := released.rewritten own stored
  refine ⟨rewritten.same, final.own, fun c t ht hc => ?_, rewritten.kept, fun j hj => ?_, rewritten.outside⟩
  · rw [final.others c t ht hc, rewritten.others c t ht hc]
  have slot : ptr v'.disk (update inodes a
      { ino₂ with size := size, blocksCount := blocksFor size } a) (slotOf j) =
      ptr v'.disk (update inodes a ino₂ a) (slotOf j) := by
    rw [update_self, update_self]
    exact ptr_of_pointers rfl _
  rw [slot]
  exact rewritten.stored j hj

def Inode.onDisk (ino : Inode) : Inode := .ofWords fun k => ino.words k % 2 ^ 32

lemma Inode.ofWords_congr {w w' : Nat → Nat} (same : ∀ k < 32, w k = w' k) : ofWords w = ofWords w' := by
  have direct : ∀ i, (if i < directCount then w (7 + i) else 0) = if i < directCount then w' (7 + i) else 0 := by
    intro i
    split_ifs with hi
    · exact same _ (by unfold directCount at hi; omega)
    · rfl
  have reserved : ∀ i, (if i < 8 then w (24 + i) else 0) = if i < 8 then w' (24 + i) else 0 := by
    intro i
    split_ifs with hi
    · exact same _ (by omega)
    · rfl
  unfold ofWords
  simp [same _ (show 0 < 32 by decide), same _ (show 1 < 32 by decide),
    same _ (show 2 < 32 by decide), same _ (show 3 < 32 by decide), same _ (show 4 < 32 by decide),
    same _ (show 5 < 32 by decide), same _ (show 6 < 32 by decide), same _ (show 19 < 32 by decide),
    same _ (show 20 < 32 by decide), same _ (show 21 < 32 by decide),
    same _ (show 22 < 32 by decide), same _ (show 23 < 32 by decide), direct, reserved]

lemma rdInode_wrInode_self (v : Volume) (a : Nat) (ino : Inode) : rdInode (wrInode v a ino) a = ino.onDisk := by
  apply ofWords_congr
  intro k hk
  change wordsAt (rdBlk (wrBlk v (inodeBlock v a) _) (inodeBlock v a)) (inodeSlotOff a) k = _
  rw [rdBlk_wrBlk_self, wordsAt, getU32_copyTo_of_inside (by unfold inodeSize; omega),
    Nat.add_sub_cancel_left, getU32_packWords]

lemma rdInode_congr (same : DataOnly v v')
    (hDisk : v'.disk (inodeBlock v c) = v.disk (inodeBlock v c)) : rdInode v' c = rdInode v c := by
  unfold rdInode rdBlk
  rw [same.inodeBlock, hDisk]

lemma rdInode_wrInode_of_ne (wf : WellFormed v) (ha : ValidIno v a) (hc : ValidIno v c)
    (hne : c ≠ a) (ino : Inode) : rdInode (wrInode v a ino) c = rdInode v c := by
  by_cases hBlock : inodeBlock v c = inodeBlock v a
  · apply ofWords_congr
    intro k hk
    have apart := wf.inodeSlot_apart hc ha hne hBlock
    change wordsAt (rdBlk (wrBlk v (inodeBlock v a) _) (inodeBlock v c)) (inodeSlotOff c) k = _
    rw [hBlock, rdBlk_wrBlk_self, wordsAt, getU32_copyTo_of_apart]
    · rfl
    · unfold inodeSize at *
      omega
  · exact rdInode_congr (.wrBlk _ _ _) (wrBlk_disk_of_ne _ hBlock)

/-- Pointers are block numbers of the volume, so the disk keeps them as they are. -/
lemma Own.ptr_onDisk (wf : WellFormed v) (own : Own v (update inodes a ino))
    (disk : Nat → Buffer) (hs : s.Valid) : ptr disk ino.onDisk s = ptr disk ino s := by
  have small : ∀ t, t.Valid → ptr v.disk ino t < 2 ^ 32 := by
    intro t ht
    by_cases hne : ptr v.disk ino t = 0
    · rw [hne]
      exact Nat.two_pow_pos 32
    have hData := own.isData a t ht (by rwa [update_self])
    rw [update_self] at hData
    obtain ⟨g, hg, -, hEnd⟩ := hData
    have inside := wf.layout.inside (.data g) hg
    have := wf.small
    simp only [Part.blocks, Rows.Range.finish] at inside
    omega
  cases s with
  | direct i =>
    have hi : i < directCount := hs
    change (if i < directCount then ino.words (7 + i) % 2 ^ 32 else 0) = ino.direct i
    rw [if_pos hi, show ino.words (7 + i) = ino.direct i by unfold directCount at hi; interval_cases i <;> rfl]
    exact Nat.mod_eq_of_lt (small (.direct i) hs)
  | node depth path =>
    have root : ino.onDisk.root depth = ino.root depth := by
      have := small (.node depth []) (hs.of_suffix List.nil_suffix)
      obtain ⟨hlo, hhi, -⟩ := hs
      obtain rfl | rfl | rfl : depth = 1 ∨ depth = 2 ∨ depth = 3 := by omega
      all_goals exact Nat.mod_eq_of_lt this
    change ptrAt disk (ino.onDisk.root depth) path = ptrAt disk (ino.root depth) path
    rw [root]

/-- Writing an inode into the table moves no slot. -/
lemma Own.ptr_wrInode (wf : WellFormed v) (own : Own v (update inodes a ino)) (ha : ValidIno v a)
    (attrs : Attrs) (c : Nat) (ht : t.Valid) : ptr (wrInode v a (stampInode ino attrs)).disk
      (update inodes a (stampInode ino attrs).onDisk c) t = ptr v.disk (update inodes a ino c) t := by
  have stamped : Released a v (update inodes a ino) v (update inodes a (stampInode ino attrs)) := .of_pointers own rfl
  have notTable := fun d t ht => stamped.own.not_table (wf.inodeBlock_not_isData ha) d t ht
  by_cases hc : c = a
  · rw [hc, update_self, update_self, stamped.own.ptr_onDisk wf _ ht]
    have hStamp := ptr_update_of_not_table (copyTo (rdBlk v (inodeBlock v a)) (inodeSlotOff a)
      (packWords (stampInode ino attrs).words) inodeSize) ht (fun u hu _ => notTable a u hu)
    rw [update_self] at hStamp
    exact hStamp.trans (ptr_of_pointers rfl t)
  · have hOther := ptr_update_of_not_table (copyTo (rdBlk v (inodeBlock v a)) (inodeSlotOff a)
      (packWords (stampInode ino attrs).words) inodeSize) ht (fun u hu _ => notTable c u hu)
    rw [update_of_ne hc] at hOther ⊢
    rw [update_of_ne hc]
    exact hOther

/-- Inode `a` was written: blocks keep one owner, and no other inode changed. -/
structure Persisted (a : Nat) (v : Volume) (inodes : Nat → Inode) (v' : Volume) : Prop where
  same : DataOnly v v'
  own : Own v' (update inodes a (rdInode v' a))
  table : ∀ c, ValidIno v c → c ≠ a → rdInode v' c = rdInode v c

lemma DataOnly.validIno (same : DataOnly v v') (ha : ValidIno v a) : ValidIno v' a := by
  unfold ValidIno
  rwa [same.sb]

/-- The data is stored, then the inode. -/
lemma persistInode_parts (wf : WellFormed v) (own : Own v inodes) {wasNew : Bool} {attrs : Attrs}
    (hNow : inodes a = if wasNew then {} else rdInode v a) (h : persistInode v a wasNew attrs data size = (done, v'))
    (ok : v'.failed = false) : ∃ ino v₁, persistData v a (inodes a) data size = (true, ino, v₁) ∧
      v₁.failed = false ∧ v' = wrInode v₁ a (stampInode ino attrs) ∧
      Rewritten a (blocksFor size) (dataBlock data size) v inodes v₁ (update inodes a ino) := by
  rw [persistInode, ← hNow] at h
  rcases hData : persistData v a (inodes a) data size with ⟨done₁, ino, v₁⟩
  simp only [hData] at h
  have ok₁ : v₁.failed = false := by split_ifs at h <;> rw [Prod.mk.injEq] at h <;> rw [← h.2] at ok <;> exact ok
  rw [← update_eq_self a inodes] at own
  obtain ⟨rfl, -, rewritten⟩ := persistData_spec wf own hData ok₁
  rw [update_eq_self] at rewritten
  exact ⟨ino, v₁, rfl, ok₁, (Prod.mk.inj h).2.symm, rewritten⟩

lemma persistInode_spec (wf : WellFormed v) (ha : ValidIno v a) (own : Own v inodes) {wasNew : Bool} {attrs : Attrs}
    (hNow : inodes a = if wasNew then {} else rdInode v a) (h : persistInode v a wasNew attrs data size = (done, v'))
    (ok : v'.failed = false) : Persisted a v inodes v' := by
  obtain ⟨ino, v₁, -, -, rfl, rewritten⟩ := persistInode_parts wf own hNow h ok
  have wf₁ := wf.of_dataOnly rewritten.same
  have ha₁ := rewritten.same.validIno ha
  refine ⟨rewritten.same.trans (.wrBlk _ _ _), ?_, fun c hc hne => ?_⟩
  · rw [rdInode_wrInode_self v₁ a (stampInode ino attrs)]
    exact rewritten.own.congr (fun _ => (DataOnly.wrBlk _ _ _).isData)
      (fun c t => rewritten.own.ptr_wrInode wf₁ ha₁ attrs c) fun _ _ => rfl
  · rw [rdInode_wrInode_of_ne wf₁ ha₁ (rewritten.same.validIno hc) hne]
    apply rdInode_congr rewritten.same
    apply rewritten.outside _ (wf.inodeBlock_not_isData hc)
    intro hCrc
    exact Part.noConfusion (wf.part_unique hCrc (wf.inodeBlock_holds hc))

end YartOS.Fs
