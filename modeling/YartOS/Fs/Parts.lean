import YartOS.Fs.Frame
import Mathlib.Algebra.Order.BigOperators.Group.Finset

/-! Which part of the volume a block belongs to; parts are never confused. -/
namespace YartOS.Fs

open Bytes Rows Fs.Part Finset

variable {v v' : Volume} {p q : Part} {a c x g n : Nat}

def Part.Holds (v : Volume) (p : Part) (x : Nat) : Prop :=
  p.Present v.sb ∧ (p.blocks v.sb v.desc).base ≤ x ∧ x < (p.blocks v.sb v.desc).finish

/-- The layout is sound and fits the 32-bit block numbers, the static tables and the one-block
bitmap of each group. -/
structure WellFormed (v : Volume) : Prop where
  layout : LayoutOk v.sb v.desc
  small : v.sb.totalBlocks < 2 ^ 32
  groups : v.sb.totalGroups ≤ maxGroups
  bits : ∀ g < v.sb.totalGroups, (v.desc g).dataEnd - (v.desc g).dataStart ≤ 8 * blockSize

def ValidIno (v : Volume) (ino : Nat) : Prop := 1 ≤ ino ∧ ino ≤ v.sb.totalGroups * inodesPerGroup

lemma isData_iff_holds : IsData v x ↔ ∃ g, (data g).Holds v x := by
  constructor
  · rintro ⟨g, hg, hlo, hhi⟩
    refine ⟨g, hg, hlo, ?_⟩
    simp only [blocks, Range.finish]
    omega
  · rintro ⟨g, hg, hlo, hhi⟩
    simp only [blocks, Range.finish] at hlo hhi
    exact ⟨g, hg, hlo, by omega⟩

namespace WellFormed

lemma of_dataOnly (wf : WellFormed v) (same : DataOnly v v') : WellFormed v' := by
  constructor
  · rw [same.sb, same.desc]
    exact wf.layout
  · rw [same.sb]
    exact wf.small
  · rw [same.sb]
    exact wf.groups
  · rw [same.sb, same.desc]
    exact wf.bits

/-- A block is in one part only. -/
lemma part_unique (wf : WellFormed v) (hp : p.Holds v x) (hq : q.Holds v x) : p = q := by
  by_contra hne
  have := wf.layout.apart p q hp.1 hq.1 hne
  have := hp.2
  have := hq.2
  unfold Range.Apart at *
  omega

lemma not_isData (wf : WellFormed v) (hp : p.Holds v x) (hne : ∀ g, p ≠ .data g) : ¬ IsData v x := by
  rw [isData_iff_holds]
  rintro ⟨g, hg⟩
  exact hne g (wf.part_unique hp hg)

lemma superblock_holds (v : Volume) : superblock.Holds v 0 := ⟨trivial, le_rfl, Nat.zero_lt_one⟩

lemma not_isData_zero (wf : WellFormed v) : ¬ IsData v 0 :=
  wf.not_isData (superblock_holds v) fun _ h => Part.noConfusion h

lemma sub32_ino (hi : ValidIno v a) : sub32 a 1 = a - 1 := sub32_eq hi.1

lemma group_lt (hi : ValidIno v a) : (a - 1) / inodesPerGroup < v.sb.totalGroups := by
  obtain ⟨hlo, hhi⟩ := hi
  unfold inodesPerGroup at *
  omega

section

variable (wf : WellFormed v) (hi : ValidIno v a)

include wf hi

lemma inodeBlock_eq : inodeBlock v a =
      (v.desc ((a - 1) / inodesPerGroup)).inodeTable + (a - 1) % inodesPerGroup / inodesPerBlk := by
  have hg := group_lt hi
  have inside := wf.layout.inside (.inodeTable ((a - 1) / inodesPerGroup)) hg
  have := wf.small
  unfold inodeBlock
  rw [sub32_ino hi]
  apply u32_eq
  simp only [blocks, Range.finish, itableBlocks] at inside
  unfold inodesPerGroup inodesPerBlk at *
  omega

lemma inodeBlock_holds : (inodeTable ((a - 1) / inodesPerGroup)).Holds v (inodeBlock v a) := by
  rw [wf.inodeBlock_eq hi]
  refine ⟨group_lt hi, Nat.le_add_right _ _, ?_⟩
  simp only [blocks, Range.finish, itableBlocks]
  unfold inodesPerGroup inodesPerBlk
  omega

lemma inodeBlock_not_isData : ¬ IsData v (inodeBlock v a) :=
  wf.not_isData (wf.inodeBlock_holds hi) fun _ h => Part.noConfusion h

end

/-- Two inodes in one block of the table have slots that do not overlap. -/
lemma inodeSlot_apart (wf : WellFormed v) (ha : ValidIno v a) (hc : ValidIno v c) (hne : a ≠ c)
    (hBlock : inodeBlock v a = inodeBlock v c) :
    inodeSlotOff a + Fs.inodeSize ≤ inodeSlotOff c ∨ inodeSlotOff c + Fs.inodeSize ≤ inodeSlotOff a := by
  have hGroup : (a - 1) / inodesPerGroup = (c - 1) / inodesPerGroup := by
    have := wf.part_unique (wf.inodeBlock_holds ha) (hBlock ▸ wf.inodeBlock_holds hc)
    exact inodeTable.inj this
  rw [wf.inodeBlock_eq ha, wf.inodeBlock_eq hc, hGroup] at hBlock
  have := ha.1
  have := hc.1
  unfold inodeSlotOff
  rw [sub32_ino ha, sub32_ino hc]
  unfold inodeSize inodesPerGroup inodesPerBlk at *
  omega

section Checksums

def dataCount (desc : Nat → Gdesc) (n : Nat) : Nat := ∑ g ∈ range n, ((desc g).dataEnd - (desc g).dataStart)

variable (wf : WellFormed v)

include wf

/-- All the bitmaps together have `2 ^ 21` bits. -/
lemma dataCount_le : dataCount v.desc v.sb.totalGroups ≤ 2 ^ 21 := by
  calc _ ≤ ∑ _g ∈ range v.sb.totalGroups, 8 * blockSize :=
        sum_le_sum fun g hg => wf.bits g (mem_range.mp hg)
    _ = v.sb.totalGroups * (8 * blockSize) := by rw [sum_const_nat fun _ _ => rfl, card_range]
    _ ≤ 2 ^ 21 := Nat.mul_le_mul_right _ wf.groups

lemma dataTotal_eq (hn : n ≤ v.sb.totalGroups) : dataTotal v.desc n = dataCount v.desc n := by
  induction n with
  | zero => rfl
  | succ n ih =>
    have hSum : dataCount v.desc (n + 1) = dataCount v.desc n + ((v.desc n).dataEnd - (v.desc n).dataStart) :=
      sum_range_succ _ _
    have hMono : dataCount v.desc (n + 1) ≤ dataCount v.desc v.sb.totalGroups := sum_le_sum_of_subset (range_mono hn)
    have := wf.dataCount_le
    rw [dataTotal, ih (by omega), sub32_eq (wf.layout.ordered n (by omega)), ← hSum]
    exact u32_eq (by omega)

lemma dataIndexFrom_lt {fuel : Nat} (hg : g + fuel = v.sb.totalGroups)
    (hx : ∃ h, g ≤ h ∧ h < v.sb.totalGroups ∧ (v.desc h).dataStart ≤ x ∧ x < (v.desc h).dataEnd) :
    dataIndexFrom v x fuel g (dataTotal v.desc g) < dataTotal v.desc v.sb.totalGroups := by
  induction fuel generalizing g with
  | zero =>
    omega
  | succ fuel ih =>
    rw [dataIndexFrom]
    split_ifs with hIn
    · have hSum : dataCount v.desc (g + 1) = dataCount v.desc g + ((v.desc g).dataEnd - (v.desc g).dataStart) :=
        sum_range_succ _ _
      have hMono : dataCount v.desc (g + 1) ≤ dataCount v.desc v.sb.totalGroups :=
        sum_le_sum_of_subset (range_mono (by omega))
      rw [wf.dataTotal_eq (by omega), wf.dataTotal_eq le_rfl]
      calc u32 (dataCount v.desc g + (x - (v.desc g).dataStart))
          ≤ dataCount v.desc g + (x - (v.desc g).dataStart) := Nat.mod_le _ _
        _ < dataCount v.desc v.sb.totalGroups := by omega
    · apply ih (by omega)
      obtain ⟨h, hlo, hhi, hData⟩ := hx
      have : h ≠ g := by
        rintro rfl
        exact hIn hData
      exact ⟨h, by omega, hhi, hData⟩

lemma dataIndex_lt (hx : IsData v x) : dataIndex v x < dataTotal v.desc v.sb.totalGroups := by
  obtain ⟨g, hg, hIn⟩ := hx
  exact wf.dataIndexFrom_lt (Nat.zero_add _) ⟨g, Nat.zero_le _, hg, hIn⟩

lemma crcBlockOf_holds (hx : IsData v x) : checksums.Holds v (crcBlockOf v (dataIndex v x)) := by
  have hIndex := wf.dataIndex_lt hx
  generalize dataIndex v x = idx at *
  have hRoom := wf.layout.crcRoom
  have inside := wf.layout.inside .journal trivial
  have hSmall := wf.small
  have hLe : u32 (idx * 4) ≤ idx * 4 := Nat.mod_le _ _
  have hDiv : u32 (idx * 4) / blockSize < v.sb.journalStart - v.sb.crcStart := by
    rw [Nat.div_lt_iff_lt_mul (by decide)]
    omega
  simp only [blocks, Range.finish] at inside
  unfold crcBlockOf
  generalize u32 (idx * 4) / blockSize = k at *
  rw [u32_eq (by omega)]
  refine ⟨trivial, Nat.le_add_right _ _, ?_⟩
  simp only [blocks, Range.finish]
  omega

lemma crcBlockOf_not_isData (hx : IsData v x) : ¬ IsData v (crcBlockOf v (dataIndex v x)) :=
  wf.not_isData (wf.crcBlockOf_holds hx) fun _ h => Part.noConfusion h

end Checksums

end WellFormed

variable {data crc : Nat}

def oneGroup (data crc : Nat) : Volume where
  disk := fun _ => zeros
  sb := {
    totalBlocks := 100 + data + crc
    totalGroups := 1
    crcStart := 36 + data
    journalStart := 36 + data + crc
    journalBlocks := journalLength }
  desc := fun _ =>
    { blockBitmap := 2, inodeBitmap := 3, inodeTable := 4, dataStart := 36, dataEnd := 36 + data }
  active := true

lemma oneGroup_wellFormed (room : data * 4 ≤ crc * blockSize) (few : data ≤ 900) (small : crc ≤ 900) :
    WellFormed (oneGroup data crc) := by
  refine ⟨⟨fun p q hp hq hne => ?_, fun p hp => ?_, fun g _ => ?_, ?_⟩, ?_, ?_, fun g _ => ?_⟩
  · cases p <;> cases q <;>
      simp only [Part.Present, oneGroup, Nat.lt_one_iff] at hp hq <;>
      simp_all [blocks, Range.Apart, Range.finish, oneGroup, itableBlocks] <;> omega
  · cases p <;> simp [blocks, Range.finish, oneGroup, itableBlocks, journalLength] <;> omega
  · exact Nat.le_add_right 36 data
  · change u32 (0 + sub32 (36 + data) 36) * 4 ≤ (36 + data + crc - (36 + data)) * blockSize
    rw [sub32_eq (Nat.le_add_right 36 data), u32_eq (by omega), Nat.add_sub_cancel_left,
      Nat.add_sub_cancel_left, zero_add]
    exact room
  · change 100 + data + crc < 2 ^ 32
    omega
  · exact Nat.one_le_two_pow (n := 6)
  · change 36 + data - 36 ≤ 8 * 4096
    omega

end YartOS.Fs
