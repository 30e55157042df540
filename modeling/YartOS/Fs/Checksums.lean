import YartOS.Fs.BlockOwners
import YartOS.Fs.Mount

/-! The checksums of data blocks: every block has its own slot, kept up to date in runs of
`persist_data` and `inode_free`. -/
namespace YartOS.Fs

open Bytes Runs Function

variable {v v' : Volume} {inodes inodes' : Nat → Inode} {ino ino' : Inode}
  {a b c x y g crc k n preferGroup size : Nat} {data : Buffer}

section Index

open WellFormed

variable (desc : Nat → Gdesc)

lemma dataCount_succ (n : Nat) : dataCount desc (n + 1) = dataCount desc n + ((desc n).dataEnd - (desc n).dataStart) :=
  Finset.sum_range_succ _ _

lemma dataCount_mono {m n : Nat} (h : m ≤ n) : dataCount desc m ≤ dataCount desc n :=
  Finset.sum_le_sum_of_subset (Finset.range_mono h)

/-- The group of a data block is the first one that the loop accepts. -/
lemma dataIndexFrom_eq (wf : WellFormed v) {fuel h : Nat} (hFuel : g + fuel = v.sb.totalGroups) (hgh : g ≤ h)
    (hh : h < v.sb.totalGroups) (hlo : (v.desc h).dataStart ≤ x) (hhi : x < (v.desc h).dataEnd) :
    dataIndexFrom v x fuel g (dataTotal v.desc g) = dataCount v.desc h + (x - (v.desc h).dataStart) := by
  induction fuel generalizing g with
  | zero => omega
  | succ fuel ih =>
    rw [dataIndexFrom]
    by_cases hIn : (v.desc g).dataStart ≤ x ∧ x < (v.desc g).dataEnd
    · have hSame : g = h := by
        have hg : (Part.data g).Holds v x :=
          ⟨by change g < _; omega, hIn.1, by simp [Part.blocks, Rows.Range.finish]; omega⟩
        have hOther : (Part.data h).Holds v x := ⟨hh, hlo, by simp [Part.blocks, Rows.Range.finish]; omega⟩
        exact Part.data.inj (wf.part_unique hg hOther)
      subst hSame
      have hLe := dataCount_mono v.desc (show g + 1 ≤ v.sb.totalGroups by omega)
      have := wf.dataCount_le
      rw [dataCount_succ] at hLe
      rw [if_pos hIn, wf.dataTotal_eq (by omega), u32_eq (by omega)]
    · rw [if_neg hIn]
      have hne : g ≠ h := by
        rintro rfl
        exact hIn ⟨hlo, hhi⟩
      exact ih (by omega) (by omega)

lemma dataIndex_eq (wf : WellFormed v) (hg : g < v.sb.totalGroups) (hlo : (v.desc g).dataStart ≤ x)
    (hhi : x < (v.desc g).dataEnd) : dataIndex v x = dataCount v.desc g + (x - (v.desc g).dataStart) :=
  dataIndexFrom_eq wf (Nat.zero_add _) (Nat.zero_le g) hg hlo hhi

lemma dataIndex_inj (wf : WellFormed v) (hx : IsData v x) (hy : IsData v y)
    (h : dataIndex v x = dataIndex v y) : x = y := by
  obtain ⟨g, hg, hlo, hhi⟩ := hx
  obtain ⟨g', hg', hlo', hhi'⟩ := hy
  rw [dataIndex_eq wf hg hlo hhi, dataIndex_eq wf hg' hlo' hhi'] at h
  -- the indices of a later group lie behind all those of an earlier one
  rcases lt_trichotomy g g' with hlt | rfl | hgt
  · have := dataCount_mono v.desc (show g + 1 ≤ g' from hlt)
    rw [dataCount_succ] at this
    omega
  · omega
  · have := dataCount_mono v.desc (show g' + 1 ≤ g from hgt)
    rw [dataCount_succ] at this
    omega

/-- Every number below the count belongs to some group. -/
lemma exists_group (hk : k < dataCount desc n) : ∃ g < n, dataCount desc g ≤ k ∧ k < dataCount desc (g + 1) := by
  induction n with
  | zero => exact absurd hk (Nat.not_lt_zero k)
  | succ n ih =>
    by_cases hLast : k < dataCount desc n
    · obtain ⟨g, hg, hIn⟩ := ih hLast
      exact ⟨g, by omega, hIn⟩
    · exact ⟨n, by omega, by omega, hk⟩

/-- `data_index` numbers the data blocks without gaps. -/
lemma dataIndex_bijOn (wf : WellFormed v) :
    Set.BijOn (dataIndex v) {x | IsData v x} (Set.Iio (dataTotal v.desc v.sb.totalGroups)) := by
  refine ⟨fun x hx => wf.dataIndex_lt hx, fun x hx y hy h => dataIndex_inj wf hx hy h, ?_⟩
  intro k hk
  rw [Set.mem_Iio, wf.dataTotal_eq le_rfl] at hk
  obtain ⟨g, hg, hlo, hhi⟩ := exists_group v.desc hk
  rw [dataCount_succ] at hhi
  refine ⟨(v.desc g).dataStart + (k - dataCount v.desc g), ⟨g, hg, by omega, by omega⟩, ?_⟩
  rw [dataIndex_eq wf hg (by omega) (by omega)]
  omega

end Index

def crcOffset (v : Volume) (x : Nat) : Nat := u32 (dataIndex v x * 4) % blockSize

/-- Storing the checksum of `b` changes the bytes of its slot only, and no other checksum. -/
structure SlotStored (v : Volume) (b crc : Nat) : Prop where
  region : Part.checksums.Holds v (crcBlockOf v (dataIndex v b))
  only : ∀ x i, ¬ (x = crcBlockOf v (dataIndex v b) ∧ crcOffset v b ≤ i ∧ i < crcOffset v b + 4) →
    (crcStoreBlock v b crc).disk x i = v.disk x i
  value : crcOfBlock (crcStoreBlock v b crc) b = crc % 2 ^ 32
  others : ∀ c, IsData v c → c ≠ b → crcOfBlock (crcStoreBlock v b crc) c = crcOfBlock v c

structure SameLayout (v v' : Volume) : Prop where
  groups : v'.sb.totalGroups = v.sb.totalGroups
  crcStart : v'.sb.crcStart = v.sb.crcStart
  desc : ∀ g < v.sb.totalGroups, v'.desc g = v.desc g

namespace SameLayout

lemma of_eq (sb : v'.sb = v.sb) (desc : v'.desc = v.desc) : SameLayout v v' :=
  ⟨by rw [sb], by rw [sb], fun g _ => by rw [desc]⟩

lemma of_dataOnly (same : DataOnly v v') : SameLayout v v' := of_eq same.sb same.desc

variable (same : SameLayout v v')

include same

lemma dataIndexFrom_eq (x : Nat) {fuel g : Nat} (hFuel : g + fuel ≤ v.sb.totalGroups) (idx : Nat) :
    dataIndexFrom v' x fuel g idx = dataIndexFrom v x fuel g idx := by
  induction fuel generalizing g idx with
  | zero => rfl
  | succ fuel ih => rw [dataIndexFrom, dataIndexFrom, same.desc g (by omega), ih (by omega)]

lemma dataIndex_eq (x : Nat) : dataIndex v' x = dataIndex v x := by
  unfold dataIndex
  rw [same.groups]
  exact same.dataIndexFrom_eq x (by omega) 0

lemma crcBlockOf_eq (idx : Nat) : crcBlockOf v' idx = crcBlockOf v idx := by
  unfold crcBlockOf
  rw [same.crcStart]

/-- A block's checksum is read from its slot. -/
lemma crcOfBlock_eq (disk : v'.disk (crcBlockOf v (dataIndex v x)) = v.disk (crcBlockOf v (dataIndex v x))) :
    crcOfBlock v' x = crcOfBlock v x := by
  unfold crcOfBlock rdBlk
  simp [same.dataIndex_eq, same.crcBlockOf_eq, disk]

end SameLayout

section

variable (wf : WellFormed v)

include wf

lemma hasIndex (hx : IsData v x) : dataIndex v x < 2 ^ 21 ∧ dataIndex v x ≠ noIndex := by
  have hLt := wf.dataIndex_lt hx
  rw [wf.dataTotal_eq le_rfl] at hLt
  have := wf.dataCount_le
  unfold noIndex
  omega

/-- The place of a slot, without the effects of wrapping. -/
lemma slot_eq (hx : IsData v x) : crcBlockOf v (dataIndex v x) = v.sb.crcStart + dataIndex v x * 4 / 4096 ∧
      crcOffset v x = dataIndex v x * 4 % 4096 := by
  have hLt := wf.dataIndex_lt hx
  have hSmall := (hasIndex wf hx).1
  have hRoom := wf.layout.crcRoom
  have inside := wf.layout.inside .checksums trivial
  have hTotal := wf.small
  simp only [Part.blocks, Rows.Range.finish] at inside
  unfold crcBlockOf crcOffset
  unfold blockSize at *
  rw [u32_eq (show dataIndex v x * 4 < 2 ^ 32 by omega)]
  exact ⟨u32_eq (by omega), rfl⟩

/-- Two blocks do not share a slot. -/
lemma slots_apart (hb : IsData v b) (hc : IsData v c)
    (hne : c ≠ b) (hBlock : crcBlockOf v (dataIndex v c) = crcBlockOf v (dataIndex v b)) :
    crcOffset v b + 4 ≤ crcOffset v c ∨ crcOffset v c + 4 ≤ crcOffset v b := by
  have hIndex : dataIndex v c ≠ dataIndex v b := fun h => hne (dataIndex_inj wf hc hb h)
  obtain ⟨blockB, offB⟩ := slot_eq wf hb
  obtain ⟨blockC, offC⟩ := slot_eq wf hc
  omega

lemma crcStoreBlock_eq (hb : IsData v b) (crc : Nat) : crcStoreBlock v b crc = wrBlk v (crcBlockOf v (dataIndex v b))
      (putU32 (v.disk (crcBlockOf v (dataIndex v b))) (crcOffset v b) crc) := by
  unfold crcStoreBlock
  simp only [(hasIndex wf hb).2, if_false]
  rfl

lemma crcOfBlock_eq (hb : IsData v b) :
    crcOfBlock v b = getU32 (v.disk (crcBlockOf v (dataIndex v b))) (crcOffset v b) := by
  unfold crcOfBlock
  simp only [(hasIndex wf hb).2, if_false]
  rfl

end

lemma slotStored (wf : WellFormed v) (hb : IsData v b) (crc : Nat) : SlotStored v b crc := by
  have hStore := crcStoreBlock_eq wf hb crc
  have same := DataOnly.crcStoreBlock v b crc
  have read : ∀ c, IsData v c → crcOfBlock (crcStoreBlock v b crc) c =
      getU32 ((crcStoreBlock v b crc).disk (crcBlockOf v (dataIndex v c))) (crcOffset v c) := by
    intro c hc
    rw [crcOfBlock_eq (wf.of_dataOnly same) (same.isData.mpr hc)]
    unfold crcOffset
    rw [(SameLayout.of_dataOnly same).dataIndex_eq, (SameLayout.of_dataOnly same).crcBlockOf_eq]
  refine ⟨wf.crcBlockOf_holds hb, fun x i hOut => ?_, ?_, fun c hc hne => ?_⟩
  · rw [hStore, wrBlk_disk]
    by_cases hx : x = crcBlockOf v (dataIndex v b)
    · rw [hx, update_self]
      exact if_neg fun h => hOut ⟨hx, h⟩
    · rw [update_of_ne hx]
  · rw [read b hb, hStore, wrBlk_disk, update_self, getU32_putU32_self]
  · rw [read c hc, crcOfBlock_eq wf hc, hStore, wrBlk_disk]
    by_cases hBlock : crcBlockOf v (dataIndex v c) = crcBlockOf v (dataIndex v b)
    · rw [hBlock, update_self, getU32_putU32_of_apart (slots_apart wf hb hc hne hBlock)]
    · rw [update_of_ne hBlock]

def Summed (v : Volume) (inodes : Nat → Inode) : Prop :=
  ∀ c t, t.Valid → ¬ t.IsTable → ptr v.disk (inodes c) t ≠ 0 →
    crcOfBlock v (ptr v.disk (inodes c) t) = crc32b (v.disk (ptr v.disk (inodes c) t)) blockSize

/-- The slot holds the same block, contents and checksum. -/
lemma Summed.kept (summed : Summed v inodes) (same : SameLayout v v') {t : Slot} (ht : t.Valid)
    (leaf : ¬ t.IsTable) (hSlot : ptr v'.disk (inodes' c) t = ptr v.disk (inodes c) t)
    (hne : ptr v'.disk (inodes' c) t ≠ 0)
    (disk : v'.disk (ptr v.disk (inodes c) t) = v.disk (ptr v.disk (inodes c) t))
    (region : v'.disk (crcBlockOf v (dataIndex v (ptr v.disk (inodes c) t))) =
      v.disk (crcBlockOf v (dataIndex v (ptr v.disk (inodes c) t)))) :
    crcOfBlock v' (ptr v'.disk (inodes' c) t) = crc32b (v'.disk (ptr v'.disk (inodes' c) t)) blockSize := by
  rw [hSlot] at hne ⊢
  rw [same.crcOfBlock_eq region, disk]
  exact summed c t ht leaf hne

lemma Released.summed (released : Released a v inodes v' inodes') (wf : WellFormed v)
    (own : Own v inodes) (summed : Summed v inodes) : Summed v' inodes' := by
  intro c t ht leaf hne
  have hSlot : ptr v'.disk (inodes' c) t = ptr v.disk (inodes c) t := by
    by_cases hc : c = a
    · subst hc
      exact (released.shrinks t ht).resolve_left hne
    · exact released.others c t ht hc
  have hOld : ptr v.disk (inodes c) t ≠ 0 := hSlot ▸ hne
  have hData := own.isData c t ht hOld
  refine summed.kept (.of_dataOnly released.same) ht leaf hSlot hne (released.disk _ fun u hu table h => ?_)
    (released.disk _ fun u hu _ h => own.not_table (wf.crcBlockOf_not_isData hData) a u hu h)
  exact absurd h (own.leaf_not_table ht leaf hOld a u hu table)

/-- Mapping a block writes no other data block and no checksum. -/
lemma Mapped.disk_of_leaf {s t : Slot} (mapped : Mapped a s v inodes v' inodes') (own : Own v inodes)
    (wf : WellFormed v) (ht : t.Valid) (leaf : ¬ t.IsTable) (hne : ptr v.disk (inodes c) t ≠ 0) :
    v'.disk (ptr v.disk (inodes c) t) = v.disk (ptr v.disk (inodes c) t) ∧
      v'.disk (crcBlockOf v (dataIndex v (ptr v.disk (inodes c) t))) =
        v.disk (crcBlockOf v (dataIndex v (ptr v.disk (inodes c) t))) := by
  have hData := own.isData c t ht hne
  constructor
  · refine mapped.disk _ (fun _ => (own.bits _ hData).mpr ⟨c, t, ht, rfl⟩) fun d u hu table h => ?_
    exact absurd h (own.leaf_not_table ht leaf hne d u hu table)
  · refine mapped.disk _ (fun h => absurd h (wf.crcBlockOf_not_isData hData)) fun d u hu _ h => ?_
    exact own.not_table (wf.crcBlockOf_not_isData hData) d u hu h

section

variable (wf : WellFormed v) (own : Own v (update inodes a ino))
  (summed : Summed v (update inodes a ino))

include wf own summed

lemma storeBlock_summed (hb : b < mappedBlocks) {db : Nat} {v₁ : Volume}
    (h : inodeGetBlock v ino b true preferGroup = (db, ino', v₁)) (ok : v₁.failed = false) (buf : Buffer)
    : Summed (crcStoreBlock (wrBlk v₁ db buf) db (crc32b buf blockSize)) (update inodes a ino') := by
  obtain ⟨hdb, mapped, hSlot⟩ := inodeGetBlock_spec own hb h ok
  obtain ⟨hs, leafB⟩ := slotOf_valid hb
  have hHere : ptr v₁.disk (update inodes a ino' a) (slotOf b) = db := by rw [update_self, hSlot]
  generalize update inodes a ino' = after at *
  generalize update inodes a ino = before at *
  have same := mapped.same.trans (.wrBlk v₁ db buf)
  have wf₁ := wf.of_dataOnly mapped.same
  have hDb : IsData v₁ db := by
    have := mapped.own.isData a (slotOf b) hs (hHere ▸ hdb)
    rwa [hHere] at this
  have stored := slotStored (wf.of_dataOnly same)
    (b := db) hDb (crc32b buf blockSize)
  have slots : ∀ c t, t.Valid → ptr (crcStoreBlock (wrBlk v₁ db buf) db
      (crc32b buf blockSize)).disk (after c) t = ptr v₁.disk (after c) t := by
    intro c t ht
    have := ptr_storeBlock wf₁ mapped.own hs leafB (hHere ▸ hdb) buf (crc32b buf blockSize) c ht
    rwa [hHere] at this
  have disk : ∀ x, IsData v₁ x →
      (crcStoreBlock (wrBlk v₁ db buf) db (crc32b buf blockSize)).disk x = (wrBlk v₁ db buf).disk x := by
    intro x hx
    apply crcStoreBlock_disk
    rintro rfl
    exact (wf.of_dataOnly same).crcBlockOf_not_isData (x := db) hDb hx
  intro c t ht leaf hne
  rw [slots c t ht] at hne ⊢
  have hData := mapped.own.isData c t ht hne
  rw [disk _ hData]
  by_cases hSame : ptr v₁.disk (after c) t = db
  · rw [hSame, stored.value, wrBlk_disk, update_self]
    exact Nat.mod_eq_of_lt (by unfold crc32b; omega)
  -- another block: its slot held it before, and its checksum is not written
  have hOther : ¬ (c = a ∧ t = slotOf b) := by
    rintro ⟨rfl, rfl⟩
    exact hSame hHere
  have hOld := mapped.leaves c t ht leaf hOther
  have hOldNe : ptr v.disk (before c) t ≠ 0 := hOld ▸ hne
  obtain ⟨hBlock, hRegion⟩ := mapped.disk_of_leaf own wf ht leaf hOldNe
  rw [stored.others _ hData hSame, wrBlk_disk_of_ne _ hSame, hOld, hBlock]
  rw [(SameLayout.of_dataOnly same).crcOfBlock_eq]
  · exact summed c t ht leaf hOldNe
  · rw [wrBlk_disk_of_ne, hRegion]
    rintro h
    exact wf.crcBlockOf_not_isData (own.isData c t ht hOldNe) (h ▸ mapped.same.isData.mp hDb)

lemma persistBlocks_summed {fuel : Nat} (hb : b + fuel ≤ mappedBlocks) {done : Bool}
    (h : persistBlocks data size preferGroup fuel b ino v = (done, ino', v')) (ok : v'.failed = false)
    : Summed v' (update inodes a ino') := by
  induction fuel generalizing b ino v with
  | zero =>
    obtain ⟨-, rfl, rfl⟩ := h
    exact summed
  | succ fuel ih =>
    rcases hGet : inodeGetBlock v ino b true preferGroup with ⟨db, ino₁, v₁⟩
    have ok₁ := persistBlocks_ok hGet h ok
    obtain ⟨hdb, head⟩ := storeBlock_spec wf own (by omega) hGet ok₁
      (dataBlock data size) (crc32b (dataBlock data size b) blockSize)
    have next := storeBlock_summed wf own summed (by omega) hGet ok₁ (dataBlock data size b)
    rw [persistBlocks, hGet] at h
    simp only [if_neg hdb] at h
    exact ih (wf.of_dataOnly head.same) head.own next (by omega) h

lemma persistData_summed {done : Bool} (h : persistData v b ino data size = (done, ino', v')) (ok : v'.failed = false) :
    Summed v' (update inodes a ino') := by
  obtain ⟨ino₁, v₁, ino₂, released, hBlocks, hFinal⟩ := persistData_parts own h
  have wf₁ := wf.of_dataOnly released.same
  have before := released.summed wf own summed
  have hLast := blocksFor_le size
  obtain ⟨rfl, stored⟩ := persistBlocks_spec wf₁ released.own (by omega) hBlocks ok
  have after := persistBlocks_summed wf₁ released.own before (by omega)
    hBlocks ok
  obtain rfl := hFinal rfl
  have final : Released a v' (update inodes a ino₂) v'
      (update inodes a { ino₂ with size := size, blocksCount := blocksFor size }) :=
    .of_pointers stored.own rfl
  exact final.summed (wf₁.of_dataOnly stored.same) stored.own after

end

/-- A write outside data and CRC region that keeps all slots changes no checksum. -/
lemma Summed.of_slots (summed : Summed v inodes) (wf : WellFormed v) (own : Own v inodes)
    (same : SameLayout v v') (slots : ∀ c t, t.Valid → ptr v'.disk (inodes' c) t = 0 ∨
      ptr v'.disk (inodes' c) t = ptr v.disk (inodes c) t)
    (disk : ∀ x, IsData v x ∨ Part.checksums.Holds v x → v'.disk x = v.disk x) : Summed v' inodes' := by
  intro c t ht leaf hne
  have hSlot := (slots c t ht).resolve_left hne
  have hData := own.isData c t ht (hSlot ▸ hne)
  exact summed.kept same ht leaf hSlot hne (disk _ (.inl hData)) (disk _ (.inr (wf.crcBlockOf_holds hData)))

/-- The inode table is neither data nor checksums. -/
lemma WellFormed.ne_inodeBlock (wf : WellFormed v) (ha : ValidIno v a)
    (hx : IsData v x ∨ Part.checksums.Holds v x) : x ≠ inodeBlock v a := by
  rintro rfl
  rcases hx with hData | hCrc
  · exact wf.inodeBlock_not_isData ha hData
  · exact Part.noConfusion (wf.part_unique hCrc (wf.inodeBlock_holds ha))

lemma persistInode_summed (wf : WellFormed v) (ha : ValidIno v a) (own : Own v inodes)
    (summed : Summed v inodes) {wasNew done : Bool} {attrs : Attrs}
    (hNow : inodes a = if wasNew then {} else rdInode v a) (h : persistInode v a wasNew attrs data size = (done, v'))
    (ok : v'.failed = false) : Summed v' (update inodes a (rdInode v' a)) := by
  obtain ⟨ino, v₁, hData, ok₁, rfl, rewritten⟩ := persistInode_parts wf own hNow h ok
  rw [← update_eq_self a inodes] at own summed
  have after := persistData_summed wf own summed hData ok₁
  have wf₁ := wf.of_dataOnly rewritten.same
  have ha₁ := rewritten.same.validIno ha
  rw [rdInode_wrInode_self v₁ a (stampInode ino attrs)]
  exact after.of_slots wf₁ rewritten.own (.of_eq rfl rfl)
    (fun c t ht => .inr (rewritten.own.ptr_wrInode wf₁ ha₁ attrs c ht))
    fun x hx => wrBlk_disk_of_ne _ (wf₁.ne_inodeBlock ha₁ hx)

lemma inodeFree_summed (wf : WellFormed v) (ha : ValidIno v a) (own : Own v inodes) (summed : Summed v inodes)
    (hNow : inodes a = rdInode v a) : Summed (inodeFree v a) (update inodes a {}) := by
  have erased := inodeFree_spec wf ha own hNow
  have disk : ∀ x, IsData v x ∨ Part.checksums.Holds v x → (inodeFree v a).disk x = v.disk x :=
    fun x hx => erased.disk x (wf.ne_inodeBlock ha hx)
  refine summed.of_slots wf own (.of_eq (by rw [erased.rest]) (by rw [erased.rest])) (fun c t ht => ?_) disk
  by_cases hc : c = a
  · rw [hc, update_self]
    exact .inl (ptr_empty _ t)
  · rw [update_of_ne hc]
    exact .inr (own.ptr_congr (fun x hx => disk x (.inl hx)) c ht)

/-- A later mount has the same layout, and all blocks but the superblock. -/
structure Reopened (v vol : Volume) : Prop where
  layout : SameLayout v vol
  disk : ∀ x ≠ 0, vol.disk x = v.disk x

namespace Reopened

variable {vol : Volume}

/-- A mount finds the volume again when its layout is on disk. -/
lemma of_disk (groups : (rdSb v.disk).totalGroups = v.sb.totalGroups)
    (crcStart : (rdSb v.disk).crcStart = v.sb.crcStart)
    (desc : ∀ g < v.sb.totalGroups, Gdesc.ofWords (wordsAt (v.disk 1) (g * sizeofGdesc)) = v.desc g) :
    Reopened v (openVolume v.disk) := by
  refine ⟨⟨groups, crcStart, fun g hg => ?_⟩, fun x hx => wrBlk_disk_of_ne _ hx⟩
  have hg' : g < (rdSb v.disk).totalGroups := groups ▸ hg
  exact (if_pos hg').trans (desc g hg)

variable (again : Reopened v vol) (wf : WellFormed v)

include again wf

/-- Every other part of the volume is read as it was. -/
lemma disk_of_part {p : Part} (h : p.Holds v x) (hp : p ≠ .superblock) : vol.disk x = v.disk x := by
  apply again.disk
  rintro rfl
  exact hp (wf.part_unique h (WellFormed.superblock_holds v))

lemma rdInode_eq (ha : ValidIno v a) : rdInode vol a = rdInode v a := by
  have hGroup : sub32 a 1 / inodesPerGroup < v.sb.totalGroups := by
    rw [sub32_eq ha.1]
    exact WellFormed.group_lt ha
  have hBlock : inodeBlock vol a = inodeBlock v a := by
    unfold inodeBlock
    simp [again.layout.desc _ hGroup]
  unfold rdInode rdBlk
  rw [hBlock, again.disk_of_part wf (wf.inodeBlock_holds ha) nofun]

/-- A mount reports no block of an inode whose checksums are stored. -/
lemma reportedBlocks_eq (own : Own v inodes)
    (summed : Summed v inodes) (c : Nat) : reportedBlocks vol (inodes c) = [] := by
  have nonzero : ∀ x, IsData v x → x ≠ 0 := by
    rintro x hx rfl
    exact own.nonzero hx
  have loop : ∀ fuel b got, crcMismatches vol (inodes c) fuel b got = [] := by
    intro fuel
    induction fuel with
    | zero => exact fun _ _ => rfl
    | succ fuel ih =>
      intro b got
      rw [crcMismatches, inodeGetBlock_reads]
      split_ifs with hEnd hIndex
      · rfl
      · obtain ⟨valid, leaf⟩ := slotOf_valid hIndex
        have hSlot := own.ptr_congr (fun x hx => again.disk x (nonzero x hx)) c valid
        simp only [hSlot, ih]
        split_ifs with hNone hBad
        · rfl
        · have hData := own.isData c _ valid hNone
          have hCrc := again.layout.crcOfBlock_eq (again.disk_of_part wf (wf.crcBlockOf_holds hData) nofun)
          rw [hCrc, rdBlk, again.disk _ hNone] at hBad
          exact absurd (summed c _ valid leaf hNone) hBad.2
        · rfl
      · rfl
  exact loop _ _ _

end Reopened

namespace Files

variable {s s' : Files}

lemma summed_step {c : FileCall} (inv : s.Inv) (summed : Summed s.vol s.inodes)
    (last : s.Step c s') : Summed s'.vol s'.inodes := by
  obtain ⟨allowed, rfl, ok⟩ := last
  cases c with
  | persist ino attrs data size =>
    have hNow := s.inodes_eq ino
    have persisted := persistInode_spec inv.wellFormed allowed inv.own hNow
      (Prod.mk.eta (p := persistInode s.vol ino (decide (ino ∉ s.live)) attrs data size)).symm ok
    rw [inodes_persist attrs data size fun b hb hne => persisted.table b (inv.valid b hb) hne]
    exact persistInode_summed inv.wellFormed allowed inv.own summed hNow
      (Prod.mk.eta (p := persistInode s.vol ino (decide (ino ∉ s.live)) attrs data size)).symm ok
  | free ino =>
    have hNow : s.inodes ino = rdInode s.vol ino := if_pos allowed
    have ha := inv.valid ino allowed
    have erased := inodeFree_spec inv.wellFormed ha inv.own hNow
    rw [inodes_free fun b hb hne => erased.table b (inv.valid b hb) hne]
    exact inodeFree_summed inv.wellFormed ha inv.own summed hNow

/-- The data blocks of the files in use have their checksums in their slots. -/
def ChecksumsValid (s : Files) : Prop :=
  ∀ a ∈ s.live, ∀ t : Slot, t.Valid → ¬ t.IsTable → ∀ x ≠ 0,
    ptr s.vol.disk (rdInode s.vol a) t = x → crcOfBlock s.vol x = crc32b (rdBlk s.vol x) blockSize

lemma summed_run (wf : WellFormed v) (empty : ∀ x, IsData v x → bbit v x = false)
    (run : Reaches Step { vol := v } s) : s.Inv ∧ Summed s.vol s.inodes := by
  refine run.invariant (P := fun s => s.Inv ∧ Summed s.vol s.inodes)
    ⟨Inv.start wf empty, fun c t _ _ hne => ?_⟩ ?_
  · exact absurd (ptr_empty v.disk t) hne
  · rintro s c s' ⟨inv, summed⟩ last
    exact ⟨inv.step last, summed_step inv summed last⟩

/-- On a well-formed volume the data blocks are numbered without gaps, a stored checksum changes
its own slot only, and after every run without allocation failure a mount reports no block. -/
theorem checksums_of_run (wf : WellFormed v)
    (empty : ∀ x, IsData v x → bbit v x = false) (run : Reaches Step { vol := v } s) :
    Set.BijOn (dataIndex v) {x | IsData v x} (Set.Iio (dataTotal v.desc v.sb.totalGroups)) ∧
      (∀ b crc, IsData v b → SlotStored v b crc) ∧ s.ChecksumsValid ∧
        ∀ vol, Reopened s.vol vol → ∀ a ∈ s.live, reportedBlocks vol (rdInode vol a) = [] := by
  obtain ⟨inv, summed⟩ := summed_run wf empty run
  have hInodes : ∀ a ∈ s.live, s.inodes a = rdInode s.vol a := fun a ha => if_pos ha
  refine ⟨dataIndex_bijOn wf, fun b crc hb => slotStored wf hb crc, ?_, ?_⟩
  · rintro a ha t valid leaf x hx rfl
    rw [← hInodes a ha] at hx ⊢
    exact summed a t valid leaf hx
  · intro vol again a ha
    rw [again.rdInode_eq inv.wellFormed (inv.valid a ha), ← hInodes a ha]
    exact again.reportedBlocks_eq inv.wellFormed inv.own summed a

theorem checksums_on_four_mebibytes : ∃ v s, WellFormed v ∧
    (∀ x, IsData v x → bbit v x = false) ∧ Reaches Step { vol := v } s ∧ s.live = [2] ∧
      reportedBlocks (openVolume s.vol.disk) (rdInode (openVolume s.vol.disk) 2) = [] := by
  let vol := secondFileLeft.vol
  have trace : secondFileLeft.live = [2] ∧ vol.sb.totalGroups = 1 ∧
      (rdSb vol.disk).totalGroups = vol.sb.totalGroups ∧ (rdSb vol.disk).crcStart = vol.sb.crcStart ∧
        Gdesc.ofWords (wordsAt (vol.disk 1) 0) = vol.desc 0 := by
    decide +kernel
  obtain ⟨hLive, hOne, hSb, hCrc, hDesc⟩ := trace
  obtain ⟨wf, empty⟩ := fourMebibytes_ok
  obtain ⟨-, -, -, quiet⟩ := checksums_of_run wf empty reaches_secondFileLeft
  refine ⟨_, _, wf, empty, reaches_secondFileLeft, hLive, ?_⟩
  refine quiet _ (.of_disk hSb hCrc fun g hg => ?_) 2 (by rw [hLive]; decide)
  rw [hOne, Nat.lt_one_iff] at hg
  rw [hg]
  exact hDesc

end Files

end YartOS.Fs
