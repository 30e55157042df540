import YartOS.Fs.ReadBack
import YartOS.Fs.Tracking

/-! Running out of space: what a `persist_node` that returns -1 leaves behind. -/
namespace YartOS.Fs

open Bytes List

variable {v v' : Volume} {inodes : Nat → Inode} {ino ino' : Inode} {data : Buffer}
  {a b size preferGroup : Nat}

def Full (v : Volume) : Prop := ∀ x, IsData v x → bbit v x = true

lemma Full.bbit (full : Full v) (x : Nat) : bbit v x = true := by
  by_contra h
  exact h (full x (isData_of_bbit (Bool.eq_false_iff.mpr h)))

lemma Full.allocBlock (full : Full v) (preferGroup : Nat) :
    allocBlock v preferGroup = (0, { v with failed := true }) := by
  rcases allocBlock_cases v preferGroup with ⟨blk, free, -⟩ | h
  · rw [full.bbit] at free
    cases free
  · exact h

/-- An allocation fails only when nothing is free. -/
lemma full_of_allocBlock (wf : WellFormed v) (h : (allocBlock v preferGroup).1 = 0) : Full v := by
  intro x hx
  by_contra hFree
  have nothing : (searchOrder v preferGroup).findSome? (freeBlockIn v) = none := by
    unfold allocBlock at h
    cases hFind : (searchOrder v preferGroup).findSome? (freeBlockIn v) with
    | none => rfl
    | some blk =>
      rw [hFind] at h
      obtain ⟨g, -, hg⟩ := exists_of_findSome?_eq_some hFind
      have hData := isData_of_bbit (freeBlockIn_some hg)
      rw [show blk = 0 from h] at hData
      exact absurd hData wf.not_isData_zero
  obtain ⟨g, hg, hlo, hhi⟩ := hx
  have hGroup : freeBlockIn v g = none := findSome?_eq_none_iff.mp nothing g (mem_append_right _ (mem_range.mpr hg))
  have inside := wf.layout.inside (.data g) hg
  have small := wf.small
  simp only [Part.blocks, Rows.Range.finish] at inside
  have hHere := findFrom_none (Option.map_eq_none_iff.mp hGroup) (x - (v.desc g).dataStart)
    (Nat.zero_le _) (by rw [sub32_eq (by omega)]; omega)
  rw [show (v.desc g).dataStart + (x - (v.desc g).dataStart) = x by omega, u32_eq (by omega)] at hHere
  exact hFree (by simpa using hHere)

/-- On a full volume `inode_get_block` finds what is mapped and changes nothing. -/
lemma inodeGetBlock_full (full : Full v) (ino : Inode) (hb : b < mappedBlocks) (preferGroup : Nat) :
    inodeGetBlock v ino b true preferGroup =
      (ptr v.disk ino (slotOf b), ino, tried v true (ptr v.disk ino (slotOf b))) :=
  inodeGetBlock_stuck (fun _ => full.allocBlock preferGroup) ino hb

/-- The block loop on a full volume: the blocks from `b` to `last` were written over, and `last` is
not mapped. -/
structure Overwritten (a b last : Nat) (content : Nat → Buffer) (v : Volume) (inodes : Nat → Inode)
    (v' : Volume) : Prop where
  same : DataOnly v v'
  bits : ∀ x, bbit v' x = bbit v x
  slots : ∀ c t, t.Valid → ptr v'.disk (inodes c) t = ptr v.disk (inodes c) t
  hole : b ≤ last ∧ ptr v.disk (inodes a) (slotOf last) = 0
  mapped : ∀ j, b ≤ j → j < last → ptr v.disk (inodes a) (slotOf j) ≠ 0
  stored : ∀ j, b ≤ j → j < last → v'.disk (ptr v.disk (inodes a) (slotOf j)) = content j
  kept : ∀ x, ¬ Part.checksums.Holds v x →
    (∀ j, b ≤ j → j < last → x ≠ ptr v.disk (inodes a) (slotOf j)) → v'.disk x = v.disk x

lemma persistBlocks_full (wf : WellFormed v) (own : Own v inodes) (full : Full v) {fuel : Nat}
    (hb : b + fuel ≤ mappedBlocks) (h : persistBlocks data size preferGroup fuel b (inodes a) v = (false, ino', v')) :
    ∃ last < b + fuel, Overwritten a b last (dataBlock data size) v inodes v' := by
  induction fuel generalizing b v with
  | zero =>
    rw [persistBlocks, Prod.mk.injEq] at h
    cases h.1
  | succ fuel ih =>
    rw [persistBlocks, inodeGetBlock_full full _ (by omega)] at h
    obtain ⟨hs, leaf⟩ := slotOf_valid (show b < mappedBlocks by omega)
    by_cases hHole : ptr v.disk (inodes a) (slotOf b) = 0
    · simp only [hHole, if_true, Prod.mk.injEq, true_and] at h
      obtain ⟨-, rfl⟩ := h
      have same : DataOnly v (tried v true 0) := ⟨rfl, fun h => Bool.noConfusion h, .of_eq rfl rfl rfl rfl⟩
      exact ⟨b, by omega, same, fun _ => rfl, fun _ _ _ => rfl, ⟨le_rfl, hHole⟩,
        fun j hlo hhi => absurd hlo (by omega), fun j hlo hhi => absurd hlo (by omega),
        fun _ _ _ => rfl⟩
    simp only [if_neg hHole, tried_of_ne hHole] at h
    have moved := fun crc c t ht => ptr_storeBlock (t := t) wf own hs leaf hHole (dataBlock data size b) crc c ht
    have hData := own.isData a (slotOf b) hs hHole
    generalize crc32b (dataBlock data size b) blockSize = crc at *
    generalize hx : ptr v.disk (inodes a) (slotOf b) = x at *
    have same : DataOnly v (crcStoreBlock (wrBlk v x (dataBlock data size b)) x crc) :=
      (DataOnly.wrBlk v x _).trans (.crcStoreBlock _ _ _)
    have bits : ∀ y, bbit (crcStoreBlock (wrBlk v x (dataBlock data size b)) x crc) y = bbit v y := by
      intro y
      rw [bbit_crcStoreBlock, bbit_wrBlk]
    have slots := moved crc
    obtain ⟨value, disk⟩ := storeBlock_disk wf hData (dataBlock data size b) crc
    have own₁ : Own (crcStoreBlock (wrBlk v x (dataBlock data size b)) x crc) inodes :=
      own.congr (fun _ => same.isData) slots fun y _ => bits y
    generalize crcStoreBlock (wrBlk v x (dataBlock data size b)) x crc = w at *
    have full₁ : Full w := fun y hy => (bits y).trans (full y (same.isData.mp hy))
    obtain ⟨last, hLast, later⟩ := ih (wf.of_dataOnly same) own₁ full₁ (by omega) h
    -- the slots are where they were, so what was found later also holds of the start
    have hSlot : ∀ j < b + (fuel + 1), ptr w.disk (inodes a) (slotOf j) = ptr v.disk (inodes a) (slotOf j) :=
      fun j hj => slots a _ (slotOf_valid (by omega)).1
    have apart : ∀ j, b + 1 ≤ j → j < last → x ≠ ptr v.disk (inodes a) (slotOf j) := by
      intro j hlo hhi heq
      have hj := slotOf_valid (show j < mappedBlocks by omega)
      have := own.once a (slotOf b) a (slotOf j) hs hj.1 (hx.trans heq) (hx.trans_ne hHole)
      have := slotOf_injective this.2
      omega
    obtain ⟨hFrom, hZero⟩ := later.hole
    rw [hSlot last (by omega)] at hZero
    refine ⟨last, by omega, same.trans later.same, fun y => (later.bits y).trans (bits y),
      fun c t ht => (later.slots c t ht).trans (slots c t ht), ⟨by omega, hZero⟩, fun j hlo hhi => ?_,
      fun j hlo hhi => ?_, fun y hy hOut => ?_⟩
    · rcases Nat.eq_or_lt_of_le hlo with rfl | hlt
      · exact hx.trans_ne hHole
      · rw [← hSlot j (by omega)]
        exact later.mapped j hlt hhi
    · rcases Nat.eq_or_lt_of_le hlo with rfl | hlt
      · rw [hx, later.kept x, value]
        · exact mt (Stored.holds_iff same _).mp fun h =>
            wf.not_isData h (fun _ h => Part.noConfusion h) hData
        · intro j hlo hhi
          rw [hSlot j (by omega)]
          exact apart j hlo hhi
      · rw [← hSlot j (by omega)]
        exact later.stored j hlt hhi
    · rw [later.kept y (mt (Stored.holds_iff same _).mp hy), disk y _ hy]
      · exact fun h => hOut b le_rfl (by omega) (h.trans hx.symm)
      · intro j hlo hhi
        rw [hSlot j (by omega)]
        exact hOut j (by omega) hhi

variable {attrs : Attrs} {live : List Nat} {isRoot : Bool} {u u' : Vnode} {child : Forest}
  {vol vol' : Volume}

/-- A failure of an inode that does not shrink is one of its block loop. -/
lemma persistInode_fails {wasNew : Bool} (hInode : (if wasNew then {} else rdInode vol a) = ino)
    (grows : ino.blocksCount ≤ blocksFor size) (h : persistInode vol a wasNew attrs data size = (false, vol')) :
    ∃ ino', persistBlocks data size (sub32 a 1 / inodesPerGroup) (blocksFor size) 0 ino vol = (false, ino', vol') := by
  simp only [persistInode, persistData, hInode, if_neg (not_lt.mpr grows)] at h
  rcases hBlocks : persistBlocks data size (sub32 a 1 / inodesPerGroup) (blocksFor size) 0 ino vol with ⟨done, rest⟩
  simp only [hBlocks] at h
  cases done with
  | true =>
    simp only [if_true, Prod.mk.injEq] at h
    cases h.1
  | false =>
    simp only [Bool.false_eq_true, if_false, Prod.mk.injEq, true_and] at h
    exact ⟨rest.1, by rw [← h]⟩

lemma persistInode_full (inv : Files.Inv { vol := vol, live := live }) (ha : a ∈ live)
    (full : Full vol) (grows : (rdInode vol a).blocksCount ≤ blocksFor size)
    (h : persistInode vol a false attrs data size = (false, vol')) :
    ∃ last < blocksFor size, Overwritten a 0 last (dataBlock data size) vol
      (Files.inodes { vol := vol, live := live }) vol' := by
  have hNow : Files.inodes { vol := vol, live := live } a = rdInode vol a := if_pos ha
  have hCount := blocksFor_le size
  obtain ⟨ino', hBlocks⟩ := persistInode_fails (if_neg Bool.false_ne_true) grows h
  rw [← hNow] at hBlocks
  obtain ⟨last, hLast, written⟩ := persistBlocks_full inv.wellFormed inv.own full (by omega) hBlocks
  exact ⟨last, by omega, written⟩

/-- The block loop of a new inode, which has no blocks yet. -/
lemma persistInode_new (h : persistInode vol a true attrs data size = (false, vol')) :
    ∃ fuel ino', blocksFor size = fuel + 1 ∧ persistBlocks data size (sub32 a 1 / inodesPerGroup)
      (fuel + 1) 0 {} vol = (false, ino', vol') := by
  obtain ⟨ino', hBlocks⟩ := persistInode_fails (if_pos rfl) (Nat.zero_le _) h
  cases hCount : blocksFor size with
  | zero =>
    rw [hCount, persistBlocks, Prod.mk.injEq] at hBlocks
    cases hBlocks.1
  | succ fuel => exact ⟨fuel, ino', rfl, hCount ▸ hBlocks⟩

/-- On a full volume the first block of a new inode already fails. -/
lemma persistInode_new_full (full : Full vol) (h : persistInode vol a true attrs data size = (false, vol')) :
    vol' = { vol with failed := true } := by
  obtain ⟨fuel, ino', hCount, hBlocks⟩ := persistInode_new h
  have hLe := blocksFor_le size
  rw [persistBlocks, inodeGetBlock_full full _ (by omega), ptr_empty] at hBlocks
  simp only [if_true, Prod.mk.injEq, true_and] at hBlocks
  exact hBlocks.2.symm

lemma marks_extends : Extends fun v v' => DataOnly v v' ∧ ∀ x, bbit v x = true → bbit v' x = true := by
  refine ⟨fun v => ⟨.refl v, fun _ h => h⟩, fun first second => ?_, fun v b buf => ?_, fun v g => ?_⟩
  · exact ⟨first.1.trans second.1, fun x h => second.2 x (first.2 x h)⟩
  · exact ⟨.wrBlk v b buf, fun _ h => h⟩
  refine ⟨.allocBlock v g, fun x h => ?_⟩
  rcases allocBlock_cases v g with ⟨blk, free, hAlloc⟩ | hAlloc
  · rw [hAlloc, bbit_bset (isData_of_bbit free)]
    split_ifs
    · rfl
    · exact h
  · rw [hAlloc]
    exact h

/-- If anything was free, the first block of the new inode stays marked. -/
lemma persistInode_new_leaks (wf : WellFormed vol) (room : ¬ Full vol)
    (h : persistInode vol a true attrs data size = (false, vol')) : ∃ x, bbit vol x = false ∧ bbit vol' x = true := by
  obtain ⟨fuel, ino', -, hBlocks⟩ := persistInode_new h
  have hSome : (allocBlock vol (sub32 a 1 / inodesPerGroup)).1 ≠ 0 :=
    fun h => room (full_of_allocBlock wf h)
  rcases allocBlock_cases vol (sub32 a 1 / inodesPerGroup) with ⟨x, free, hAlloc⟩ | hAlloc
  · rw [hAlloc] at hSome
    have hGet : inodeGetBlock vol {} 0 true (sub32 a 1 / inodesPerGroup) =
        (x, { ({} : Inode) with direct := Function.update (fun _ => 0) 0 x }, bset vol x true) := by
      change getDirect vol {} 0 true _ = _
      simp [getDirect, hAlloc, if_neg hSome, ne_eq, not_true_eq_false, Bool.not_true, Bool.false_eq_true]
    rw [persistBlocks, hGet] at hBlocks
    simp only [if_neg hSome] at hBlocks
    have marks := marks_extends.persistBlocks data size (sub32 a 1 / inodesPerGroup) fuel 1
      { ({} : Inode) with direct := Function.update (fun _ => 0) 0 x }
      (crcStoreBlock (wrBlk (bset vol x true) x (dataBlock data size 0)) x (crc32b (dataBlock data size 0) blockSize))
    rw [hBlocks] at marks
    refine ⟨x, free, marks.2 x ?_⟩
    rw [bbit_crcStoreBlock, bbit_wrBlk, bbit_bset (isData_of_bbit free), if_pos rfl]
  · rw [hAlloc] at hSome
    exact absurd rfl hSome

/-- What a failed `persist_node` should leave: the old contents and marks, no stray mark, and a
dirty node. -/
structure Harmless (u : Vnode) (vol : Volume) (u' : Vnode) (vol' : Volume) : Prop where
  contents : u.ino ≠ 0 → (rdInode vol' u.ino).size = (rdInode vol u.ino).size ∧
    ∀ memory, ∀ i < (rdInode vol u.ino).size,
      (readFile vol' (rdInode vol' u.ino) memory).1 i = (readFile vol (rdInode vol u.ino) memory).1 i
  marked : u.ino ≠ 0 → ∀ x ∈ inodeBlocks vol'.disk (rdInode vol' u.ino), x ≠ 0 → bbit vol' x = true
  blocks : ∀ x, IsData vol x → bbit vol x = false → bbit vol' x = true →
    u.ino ≠ 0 ∧ x ∈ inodeBlocks vol'.disk (rdInode vol' u.ino)
  numbers : ∀ a, ValidIno vol a → ibit vol a = false → ibit vol' a = true → u'.ino = a
  dirty : u.dirty = true → u'.dirty = true

/-- No block is given back, and blocks written over keep the bytes of the file. -/
def Unchanged (vol : Volume) (ino : Inode) (data : Buffer) (size : Nat) : Prop :=
  ino.blocksCount ≤ blocksFor size ∧ ∀ j < blocksFor size, MappedTo vol ino j →
    ∀ i < blockSize, blockSize * j + i < ino.size → dataBlock data size j i = vol.disk (ptr vol.disk ino (slotOf j)) i

/-- There is no inode number; or no free block, and the file was not touched before. -/
def Spared (isRoot : Bool) (u : Vnode) (child : Forest) (vol : Volume) : Prop :=
  (takeIno isRoot u vol).1 = 0 ∨ Full vol ∧
    (u.ino ≠ 0 → Unchanged vol (rdInode vol u.ino) (u.contents child).1 (u.contents child).2)

lemma persistNode_fails (h : persistNode isRoot u child vol = (false, u', vol')) :
    (takeIno isRoot u vol).1 = 0 ∧ u' = u ∧ vol' = (takeIno isRoot u vol).2 ∨
      (takeIno isRoot u vol).1 ≠ 0 ∧ u' = { u with ino := (takeIno isRoot u vol).1 } ∧
        persistInode (takeIno isRoot u vol).2 (takeIno isRoot u vol).1 (decide (u.ino = 0)) u.attrs
          (u.contents child).1 (u.contents child).2 = (false, vol') := by
  unfold persistNode at h
  rcases hTake : takeIno isRoot u vol with ⟨a, vol₁⟩
  rcases hPersist : persistInode vol₁ a (decide (u.ino = 0)) u.attrs (u.contents child).1
    (u.contents child).2 with ⟨done, vol₂⟩
  simp only [hTake, hPersist] at h
  split_ifs at h with ha hDone
  · simp only [Prod.mk.injEq, true_and] at h
    exact .inl ⟨ha, h.1.symm, h.2.symm⟩
  · simp only [Prod.mk.injEq] at h
    cases h.1
  · simp only [Prod.mk.injEq, true_and] at h
    refine .inr ⟨ha, h.1.symm, ?_⟩
    rw [← h.2, Prod.mk.injEq]
    exact ⟨Bool.eq_false_iff.mpr hDone, rfl⟩

lemma takeIno_new (isRoot : Bool) (hu : u.ino = 0) (vol : Volume) : (∃ a ≠ 0, takeIno isRoot u vol = (a, vol) ∨
        ValidIno vol a ∧ takeIno isRoot u vol = (a, iset vol a true)) ∨
      takeIno isRoot u vol = (0, { vol with failed := true }) := by
  unfold takeIno
  rw [if_neg (not_not.mpr hu)]
  split_ifs
  · exact .inl ⟨rootIno, by decide, .inl rfl⟩
  · rcases allocIno_cases vol with ⟨a, valid, -, hAlloc⟩ | hAlloc
    · exact .inl ⟨a, Nat.one_le_iff_ne_zero.mp valid.1, .inr ⟨valid, hAlloc⟩⟩
    · exact .inr hAlloc

/-- A failure for a node without an inode is harmless if nothing was marked. -/
lemma harmless_of_new (hu : u.ino = 0) (hDirty : u'.dirty = u.dirty) (bits : ∀ x, bbit vol' x = bbit vol x)
    (numbers : ∀ a, ValidIno vol a → ibit vol a = false → ibit vol' a = true → u'.ino = a) :
    Harmless u vol u' vol' := by
  refine ⟨fun h => absurd hu h, fun h => absurd hu h, fun x _ free used => ?_, numbers, fun h => hDirty.trans h⟩
  rw [bits, free] at used
  cases used

lemma persistNode_new (wf : WellFormed vol) (hu : u.ino = 0) (h : persistNode isRoot u child vol = (false, u', vol')) :
    Harmless u vol u' vol' ↔ (takeIno isRoot u vol).1 = 0 ∨ Full vol := by
  have failed := persistNode_fails h
  rcases takeIno_new isRoot hu vol with ⟨a, ha, hTake⟩ | hTake
  · -- there is a number: then the blocks decide
    obtain ⟨vol₁, hTake, bits, wf₁, numbers⟩ : ∃ vol₁, takeIno isRoot u vol = (a, vol₁) ∧
        (∀ x, bbit vol₁ x = bbit vol x) ∧ WellFormed vol₁ ∧
          ∀ b, ValidIno vol b → ibit vol b = false → ibit vol₁ b = true → a = b := by
      rcases hTake with hTake | ⟨valid, hTake⟩
      · refine ⟨vol, hTake, fun _ => rfl, wf, fun b _ free used => ?_⟩
        rw [free] at used
        cases used
      refine ⟨_, hTake, fun _ => rfl, ⟨wf.layout, wf.small, wf.groups, wf.bits⟩, fun b hb free used => ?_⟩
      rw [ibit_iset valid hb] at used
      split_ifs at used with hab
      · exact hab
      · rw [free] at used
        cases used
    simp only [hTake, ha, hu, ne_eq, not_false_eq_true, decide_true, true_and, false_and, false_or] at failed ⊢
    obtain ⟨rfl, hPersist⟩ := failed
    constructor
    · intro harmless
      by_contra room
      have room₁ : ¬ Full vol₁ := fun full => room fun x _ => (bits x).symm.trans (full.bbit x)
      obtain ⟨x, free, used⟩ := persistInode_new_leaks wf₁ room₁ hPersist
      rw [bits] at free
      exact (harmless.blocks x (isData_of_bbit free) free used).1 hu
    intro full
    have full₁ : Full vol₁ := fun x _ => (bits x).trans (full.bbit x)
    have hVol := persistInode_new_full full₁ hPersist
    have kept : { u with ino := a }.dirty = u.dirty := rfl
    refine harmless_of_new hu kept (fun x => ?_) fun b hb free used => ?_
    · rw [hVol]
      exact bits x
    · rw [hVol] at used
      exact numbers b hb free used
  · have harmless : Harmless u vol u { vol with failed := true } :=
      harmless_of_new hu rfl (fun _ => rfl) fun a _ free used => by
        rw [show ibit { vol with failed := true } a = ibit vol a from rfl, free] at used
        cases used
    simp only [hTake, ne_eq, not_true_eq_false, true_and, false_and, or_false] at failed
    obtain ⟨rfl, rfl⟩ := failed
    exact iff_of_true harmless (.inl (by rw [hTake]))

/-- A node with an inode on a full volume: only overwritten blocks change. -/
lemma persistNode_old (inv : Files.Inv { vol := vol, live := live }) (hu : u.ino ≠ 0) (known : u.ino ∈ live)
    (full : Full vol) (grows : (rdInode vol u.ino).blocksCount ≤ blocksFor (u.contents child).2)
    (h : persistNode isRoot u child vol = (false, u', vol')) :
    Harmless u vol u' vol' ↔ Unchanged vol (rdInode vol u.ino) (u.contents child).1 (u.contents child).2 := by
  have hTake : takeIno isRoot u vol = (u.ino, vol) := if_pos hu
  have failed := persistNode_fails h
  simp only [hTake, hu, ne_eq, not_false_eq_true, decide_false, true_and, false_and, false_or] at failed
  obtain ⟨hNode, hPersist⟩ := failed
  generalize (u.contents child).1 = data at *
  generalize (u.contents child).2 = size at *
  obtain ⟨last, hLast, written⟩ := persistInode_full inv known full grows hPersist
  have hNow : Files.inodes { vol := vol, live := live } u.ino = rdInode vol u.ino := if_pos known
  have hCount := blocksFor_le size
  have valid := inv.valid u.ino known
  have wf := inv.wellFormed
  -- the inode itself is read as before
  have hInode : rdInode vol' u.ino = rdInode vol u.ino := by
    apply rdInode_congr written.same
    apply written.kept
    · intro h
      exact Part.noConfusion (wf.part_unique h (wf.inodeBlock_holds valid))
    · intro j hlo hhi h
      have hSlot := (slotOf_valid (show j < mappedBlocks by omega)).1
      have hData := inv.own.isData u.ino (slotOf j) hSlot (written.mapped j hlo hhi)
      rw [← h] at hData
      exact wf.inodeBlock_not_isData valid hData
  have slots : ∀ t, t.Valid → ptr vol'.disk (rdInode vol u.ino) t = ptr vol.disk (rdInode vol u.ino) t := by
    intro t ht
    have := written.slots u.ino t ht
    rwa [hNow] at this
  obtain ⟨-, hole⟩ := written.hole
  have stored := written.stored
  rw [hNow] at hole stored
  generalize hIno : rdInode vol u.ino = ino at *
  have mapped : ∀ j, MappedTo vol' ino j ↔ MappedTo vol ino j := by
    intro j
    refine forall₂_congr fun m _ => and_congr_right fun hm => ?_
    rw [slots _ (slotOf_valid hm).1]
  -- whatever the read loop reaches was written over
  have value : ∀ j, MappedTo vol ino j → j < last ∧
      vol'.disk (ptr vol'.disk ino (slotOf j)) = dataBlock data size j := by
    intro j reached
    have hj : j < last := by
      by_contra hle
      exact (reached last (Nat.le_of_not_lt hle)).2 hole
    rw [slots _ (slotOf_valid (by omega)).1]
    exact ⟨hj, stored j (Nat.zero_le j) hj⟩
  constructor
  · intro harmless
    refine ⟨grows, fun j hj reached i hi hIn => ?_⟩
    have hDiv : (blockSize * j + i) / blockSize = j := by
      unfold blockSize at *
      omega
    have hMod : (blockSize * j + i) % blockSize = i := by
      unfold blockSize at *
      omega
    have same := (harmless.contents hu).2 zeros _ (hIno ▸ hIn)
    rw [hInode, hIno, readFile_eq hIn, readFile_eq hIn, hDiv, hMod, if_pos reached,
      if_pos ((mapped j).mpr reached), (value j reached).2] at same
    exact same
  · intro unchanged
    refine ⟨fun _ => ?_, fun _ x _ _ => (written.bits x).trans (full.bbit x), fun x _ free _ => ?_,
      fun a _ free used => ?_, fun h => by rw [hNode]; exact h⟩
    · rw [hInode, hIno]
      refine ⟨rfl, fun memory k hk => ?_⟩
      rw [readFile_eq hk, readFile_eq hk]
      by_cases reached : MappedTo vol ino (k / blockSize)
      · obtain ⟨hj, hValue⟩ := value _ reached
        rw [if_pos reached, if_pos ((mapped _).mpr reached), hValue]
        exact unchanged.2 _ (by omega) reached _ (Nat.mod_lt k (by decide)) (by rwa [Nat.div_add_mod k blockSize])
      · rw [if_neg reached, if_neg (mt (mapped _).mp reached)]
    · rw [full.bbit] at free
      cases free
    · unfold ibit at free used
      rw [written.same.ibitmap, free] at used
      cases used

/-- A failed `persist_node` is harmless without an inode number, or without a free block where
nothing was given back or changed before. This is exact for nodes without an inode, and for those
that do not shrink on a full volume. -/
theorem persistNode_harmless (inv : Files.Inv { vol := vol, live := live })
    (known : u.ino ≠ 0 → u.ino ∈ live) (h : persistNode isRoot u child vol = (false, u', vol')) :
    (Spared isRoot u child vol → Harmless u vol u' vol') ∧
      (u.ino = 0 ∨ Full vol ∧ (rdInode vol u.ino).blocksCount ≤ blocksFor (u.contents child).2 →
        Harmless u vol u' vol' → Spared isRoot u child vol) := by
  unfold Spared
  by_cases hu : u.ino = 0
  · have new := persistNode_new inv.wellFormed hu h
    simp only [hu, ne_eq, not_true_eq_false, false_implies, and_true, true_or, true_implies]
    exact ⟨new.mpr, new.mp⟩
  have hTake : takeIno isRoot u vol = (u.ino, vol) := if_pos hu
  simp only [hTake, hu, ne_eq, not_false_eq_true, false_or, true_implies]
  constructor
  · rintro ⟨full, unchanged⟩
    exact (persistNode_old inv hu (known hu) full unchanged.1 h).mpr unchanged
  · rintro ⟨full, grows⟩ harmless
    exact ⟨full, (persistNode_old inv hu (known hu) full grows h).mp harmless⟩

def oneByte : Inode where
  size := 1
  blocksCount := 1
  direct := fun i => if i = 0 then 36 else 0

def oneFile : Volume :=
  wrInode { oneGroup 1 1 with disk := fun _ _ => 7, bbitmap := fun _ _ => 1 } 2 oneByte

lemma oneFile_block {x : Nat} (hx : IsData oneFile x) : x = 36 := by
  obtain ⟨g, -, hlo, hhi⟩ := hx
  exact le_antisymm (Nat.lt_succ_iff.mp hhi) hlo

lemma oneFile_full : Full oneFile := by
  intro x hx
  rw [oneFile_block hx]
  decide +kernel

lemma oneByte_direct (i : Nat) : oneByte.onDisk.direct i = if i = 0 then 36 else 0 := by
  have first : ∀ j < directCount, oneByte.onDisk.direct j = if j = 0 then 36 else 0 := by decide
  by_cases hi : i < directCount
  · exact first i hi
  · unfold directCount at hi
    exact (if_neg hi).trans (if_neg (by omega)).symm

lemma oneFile_slot {c : Nat} {s : Slot}
    (hne : ptr oneFile.disk (Files.inodes { vol := oneFile, live := [2] } c) s ≠ 0) :
    c = 2 ∧ s = .direct 0 ∧ ptr oneFile.disk (Files.inodes { vol := oneFile, live := [2] } c) s = 36 := by
  by_cases hc : c = 2
  · subst hc
    have hInode : Files.inodes { vol := oneFile, live := [2] } 2 = oneByte.onDisk :=
      (if_pos mem_cons_self).trans (rdInode_wrInode_self _ 2 oneByte)
    rw [hInode] at hne ⊢
    cases s with
    | direct i =>
      change oneByte.onDisk.direct i ≠ 0 at hne
      rw [oneByte_direct] at hne
      obtain rfl : i = 0 := by
        by_contra hi
        exact hne (if_neg hi)
      exact ⟨rfl, rfl, oneByte_direct 0⟩
    | node depth path =>
      have root : oneByte.onDisk.root depth = 0 := by
        unfold Inode.root
        split <;> rfl
      change ptrAt oneFile.disk (oneByte.onDisk.root depth) path ≠ 0 at hne
      rw [root, ptrAt_zero] at hne
      exact absurd rfl hne
  · have hInode : Files.inodes { vol := oneFile, live := [2] } c = {} := if_neg (by simpa using hc)
    rw [hInode, ptr_empty] at hne
    exact absurd rfl hne

lemma oneFile_inv : Files.Inv { vol := oneFile, live := [2] } := by
  have wf₀ : WellFormed (oneGroup 1 1) := oneGroup_wellFormed (by decide) (by decide) (by decide)
  have wf : WellFormed oneFile := ⟨wf₀.layout, wf₀.small, wf₀.groups, wf₀.bits⟩
  have hData : IsData oneFile 36 := ⟨0, by decide, by decide, by decide⟩
  refine ⟨wf, fun a ha => ?_, wf.not_isData_zero, fun a s _ hne => ?_, fun a s b t _ _ h hne => ?_, fun x hx => ?_⟩
  · rw [mem_singleton.mp ha]
    exact ⟨by decide, by decide⟩
  · rw [(oneFile_slot hne).2.2]
    exact hData
  · obtain ⟨rfl, rfl, -⟩ := oneFile_slot hne
    obtain ⟨rfl, rfl, -⟩ := oneFile_slot (h ▸ hne)
    exact ⟨rfl, rfl⟩
  · rw [oneFile_block hx]
    refine iff_of_true (oneFile_full 36 hData) ⟨2, .direct 0, Nat.succ_pos 11, ?_⟩
    decide +kernel

theorem no_space_for_a_new_file : ∃ u u' vol', u.ino = 0 ∧
    persistNode false u .nil oneFile = (false, u', vol') ∧ Harmless u oneFile u' vol' := by
  let u : Vnode := { name := text "f", kind := .file, size := 1, dirty := true }
  have failed : (persistNode false u .nil oneFile).1 = false := by decide +kernel
  have h : persistNode false u .nil oneFile = (false, (persistNode false u .nil oneFile).2) := Prod.ext failed rfl
  refine ⟨u, _, _, rfl, h, ?_⟩
  exact (persistNode_harmless oneFile_inv (fun hu => absurd rfl hu) h).1 (.inr ⟨oneFile_full, fun hu => absurd rfl hu⟩)

/-- A file that outgrows a full volume has its first block written over. -/
theorem growing_file_is_written_over : Files.Inv { vol := oneFile, live := [2] } ∧
    ∃ u u' vol', u.ino = 2 ∧ u.dirty = true ∧
      persistNode false u .nil oneFile = (false, u', vol') ∧ ¬ Harmless u oneFile u' vol' := by
  let u : Vnode :=
    { name := text "f", kind := .file, ino := 2, size := 5000, data := fun _ => 8, dirty := true }
  have trace : (persistNode false u .nil oneFile).1 = false ∧ (rdInode oneFile 2).size = 1 ∧
      (rdInode oneFile 2).blocksCount = 1 ∧ MappedTo oneFile (rdInode oneFile 2) 0 ∧
        dataBlock u.data 5000 0 0 ≠ oneFile.disk (ptr oneFile.disk (rdInode oneFile 2) (slotOf 0)) 0 := by
    decide +kernel
  obtain ⟨failed, hSize, hCount, reached, hByte⟩ := trace
  have h : persistNode false u .nil oneFile = (false, (persistNode false u .nil oneFile).2) := Prod.ext failed rfl
  have old := persistNode_old oneFile_inv (by decide) (by decide) oneFile_full
    (by rw [show u.ino = 2 from rfl, hCount]; decide) h
  refine ⟨oneFile_inv, u, _, _, rfl, rfl, h, fun harmless => hByte ?_⟩
  exact (old.mp harmless).2 0 (by decide) reached 0 (by decide) (by rw [show u.ino = 2 from rfl, hSize]; decide)

end YartOS.Fs
