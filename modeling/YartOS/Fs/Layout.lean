import YartOS.Lib.Rows

/-! The block layout of YartFS: superblock, group descriptors, groups, CRC region and journal. -/
namespace YartOS.Fs

open Rows Option Function

def yfsMagic : Nat := 0x5952544635300000
def yfsVersion : Nat := 5
def blockSize : Nat := 4096
def sectorsPerBlk : Nat := 8
def blocksPerGroup : Nat := 4096
def inodesPerGroup : Nat := 1024
def inodeSize : Nat := 128
def inodesPerBlk : Nat := 32
def itableBlocks : Nat := 32
def metaPerGroup : Nat := 34
def indirectPer : Nat := 1024
def directCount : Nat := 12
def maxGroups : Nat := 64
def journalLength : Nat := 64
def rootIno : Nat := 1

def u32 (x : Nat) : Nat := x % 2 ^ 32

/-- Subtraction of 32-bit words, which wraps below zero. -/
def sub32 (a b : Nat) : Nat := if b ≤ a then a - b else 2 ^ 32 - (b - a)

lemma u32_eq {x : Nat} (hx : x < 2 ^ 32) : u32 x = x := Nat.mod_eq_of_lt hx

lemma sub32_eq {a b : Nat} (hba : b ≤ a) : sub32 a b = a - b := if_pos hba

structure Superblock where
  magic : Nat := 0
  version : Nat := 0
  blockSize : Nat := 0
  blocksPerGroup : Nat := 0
  inodesPerGroup : Nat := 0
  inodeSize : Nat := 0
  totalBlocks : Nat := 0
  totalGroups : Nat := 0
  journalStart : Nat := 0
  journalBlocks : Nat := 0
  crcStart : Nat := 0
  mtime : Nat := 0
  mountCount : Nat := 0
  state : Nat := 0
  reserved : Nat → Nat := fun _ => 0

structure Gdesc where
  blockBitmap : Nat := 0
  inodeBitmap : Nat := 0
  inodeTable : Nat := 0
  dataStart : Nat := 0
  dataEnd : Nat := 0
  freeBlocks : Nat := 0
  freeInodes : Nat := 0
  reserved : Nat := 0
deriving DecidableEq

/-- `sectors` is the disk size, `swap` what the pager reserves at its end. -/
def diskTotalBlocks (sectors swap : Nat) : Nat := u32 ((if swap < sectors then sectors - swap else 0) / sectorsPerBlk)

/-- One turn of the group loop; `none` when the group has no room for data. -/
def layoutGroup (journalStart g : Nat) : Option Gdesc :=
  let span := u32 (2 + g * blocksPerGroup)
  let spanEnd := u32 (span + blocksPerGroup)
  let spanEnd := if journalStart < spanEnd then journalStart else spanEnd
  if spanEnd ≤ u32 (span + metaPerGroup) then none
  else
    some
      { blockBitmap := span
        inodeBitmap := u32 (span + 1)
        inodeTable := u32 (span + 2)
        dataStart := u32 (span + metaPerGroup)
        dataEnd := spanEnd
        freeBlocks := sub32 spanEnd (u32 (span + metaPerGroup))
        freeInodes := inodesPerGroup }

def layoutGroups (journalStart : Nat) : Nat → Option (Nat → Gdesc)
  | 0 => some fun _ => {}
  | g + 1 => (layoutGroups journalStart g).bind fun desc =>
    (layoutGroup journalStart g).map (update desc g)

def dataTotal (desc : Nat → Gdesc) : Nat → Nat
  | 0 => 0
  | g + 1 => u32 (dataTotal desc g + sub32 (desc g).dataEnd (desc g).dataStart)

/-- The last group's data must not run into the CRC region. -/
def clip (crcStart : Nat) (d : Gdesc) : Gdesc :=
  if crcStart < d.dataEnd then { d with dataEnd := crcStart } else d

variable (sb : Superblock)

/-- `compute_layout` on the superblock in memory; `none` when it returns false. -/
def computeLayout (total : Nat) : Option (Superblock × (Nat → Gdesc)) :=
  if total < 1024 then none
  else
    let groups := u32 (total + blocksPerGroup - 1) / blocksPerGroup
    if groups = 0 ∨ maxGroups < groups then none
    else
      let journalStart := sub32 total journalLength
      (layoutGroups journalStart groups).bind fun desc =>
        let crcBlocks := u32 (dataTotal desc groups * 4 + blockSize - 1) / blockSize
        let crcStart := sub32 journalStart crcBlocks
        let clipped := fun g => if g < groups then clip crcStart (desc g) else desc g
        if (clipped 0).dataStart < crcStart then
          some ({ sb with
            totalBlocks := total
            blockSize := blockSize
            blocksPerGroup := blocksPerGroup
            inodesPerGroup := inodesPerGroup
            inodeSize := inodeSize
            totalGroups := groups
            journalBlocks := journalLength
            journalStart := journalStart
            crcStart := crcStart }, clipped)
        else none

inductive Part where
  | superblock
  | descriptors
  | blockBitmap (g : Nat)
  | inodeBitmap (g : Nat)
  | inodeTable (g : Nat)
  | data (g : Nat)
  | checksums
  | journal

def Part.Present : Part → Prop
  | .blockBitmap g | .inodeBitmap g | .inodeTable g | .data g => g < sb.totalGroups
  | _ => True

def Part.blocks (desc : Nat → Gdesc) : Part → Range
  | .superblock => ⟨0, 1⟩
  | .descriptors => ⟨1, 1⟩
  | .blockBitmap g => ⟨(desc g).blockBitmap, 1⟩
  | .inodeBitmap g => ⟨(desc g).inodeBitmap, 1⟩
  | .inodeTable g => ⟨(desc g).inodeTable, itableBlocks⟩
  | .data g => ⟨(desc g).dataStart, (desc g).dataEnd - (desc g).dataStart⟩
  | .checksums => ⟨sb.crcStart, sb.journalStart - sb.crcStart⟩
  | .journal => ⟨sb.journalStart, sb.journalBlocks⟩

/-- The parts are disjoint and on the disk, no group is negative, and the CRC region has a word per
data block. -/
structure LayoutOk (sb : Superblock) (desc : Nat → Gdesc) : Prop where
  apart : ∀ p q : Part, p.Present sb → q.Present sb → p ≠ q → (p.blocks sb desc).Apart (q.blocks sb desc)
  inside : ∀ p : Part, p.Present sb → (p.blocks sb desc).finish ≤ sb.totalBlocks
  ordered : ∀ g < sb.totalGroups, (desc g).dataStart ≤ (desc g).dataEnd
  crcRoom : dataTotal desc sb.totalGroups * 4 ≤ (sb.journalStart - sb.crcStart) * blockSize

/-- The free-block counters of a fresh volume say how many data blocks there are. -/
def FreeCounts (desc : Nat → Gdesc) : Prop :=
  ∀ g < sb.totalGroups, (desc g).freeBlocks = sub32 (desc g).dataEnd (desc g).dataStart

lemma clip_eq (crcStart : Nat) (d : Gdesc) : clip crcStart d = { d with dataEnd := min crcStart d.dataEnd } := by
  unfold clip
  split_ifs with h
  · rw [min_eq_left h.le]
  · rw [min_eq_right (not_lt.mp h)]

variable {sb sb' : Superblock} {desc : Nat → Gdesc} {total journalStart g groups : Nat}

lemma layoutGroups_some (h : layoutGroups journalStart groups = some desc) :
    ∀ g < groups, layoutGroup journalStart g = some (desc g) := by
  induction groups generalizing desc with
  | zero =>
    intro g hg
    omega
  | succ n ih =>
    rw [layoutGroups, bind_eq_some_iff] at h
    obtain ⟨before, hBefore, h⟩ := h
    rw [map_eq_some_iff] at h
    obtain ⟨d, hd, rfl⟩ := h
    intro g hg
    by_cases hgn : g = n
    · rw [hgn, update_self, hd]
    · rw [update_of_ne hgn]
      exact ih hBefore g (by omega)

def plainGroup (journalStart g : Nat) : Gdesc :=
  { blockBitmap := 2 + g * 4096
    inodeBitmap := 3 + g * 4096
    inodeTable := 4 + g * 4096
    dataStart := 36 + g * 4096
    dataEnd := min journalStart (2 + (g + 1) * 4096)
    freeBlocks := min journalStart (2 + (g + 1) * 4096) - (36 + g * 4096)
    freeInodes := 1024 }

lemma layoutGroup_some {d : Gdesc} (hg : g < maxGroups) (h : layoutGroup journalStart g = some d) :
    36 + g * 4096 < journalStart ∧ d = plainGroup journalStart g := by
  unfold maxGroups at hg
  have hSpan : u32 (2 + g * blocksPerGroup) = 2 + g * 4096 := u32_eq (by
    unfold blocksPerGroup
    omega)
  have hEnd : (if journalStart < u32 (2 + g * 4096 + blocksPerGroup) then journalStart
      else u32 (2 + g * 4096 + blocksPerGroup)) = min journalStart (2 + (g + 1) * 4096) := by
    rw [u32_eq (by unfold blocksPerGroup; omega)]
    unfold blocksPerGroup
    split_ifs <;> omega
  have hMeta : u32 (2 + g * 4096 + metaPerGroup) = 36 + g * 4096 := by
    rw [u32_eq (by unfold metaPerGroup; omega)]
    unfold metaPerGroup
    omega
  unfold layoutGroup at h
  simp only [hSpan, hEnd, hMeta] at h
  split_ifs at h with hRoom
  obtain rfl := some.inj h
  constructor
  · omega
  · rw [u32_eq (by omega), u32_eq (by omega), sub32_eq (by omega)]
    unfold plainGroup
    rw [Gdesc.mk.injEq]
    exact ⟨rfl, by omega, by omega, rfl, rfl, rfl, rfl, rfl⟩

/-- Full groups hold 4062 data blocks; the last one what the journal leaves. -/
lemma dataTotal_plain {last tail : Nat} (hLast : last < 64) (hTail : 101 ≤ tail ∧ tail ≤ 4096)
    (hJournal : journalStart = last * 4096 + tail - 64) (hDesc : ∀ g ≤ last, desc g = plainGroup journalStart g) :
    ∀ n ≤ last + 1, dataTotal desc n = if n ≤ last then n * 4062 else last * 4062 + (tail - 100) := by
  intro n
  induction n with
  | zero =>
    intro _
    rfl
  | succ n ih =>
    intro hn
    rw [dataTotal, ih (by omega), if_pos (by omega), hDesc n (by omega)]
    simp only [plainGroup]
    rw [sub32_eq (by omega), u32_eq (by omega)]
    split_ifs <;> omega

/-- What `compute_layout` has computed: `last` full groups and one of `tail` blocks, cut by journal
and CRC region. -/
structure Geometry (total last tail crcBlocks : Nat) (sb : Superblock) (desc : Nat → Gdesc) : Prop where
  blocks : total = last * 4096 + tail
  lastLt : last < 64
  tailBounds : 101 ≤ tail ∧ tail ≤ 4096
  crcCount : crcBlocks = (last * 4062 + (tail - 100) + 1023) / 1024
  totalBlocks : sb.totalBlocks = total
  totalGroups : sb.totalGroups = last + 1
  journalStart : sb.journalStart = total - 64
  journalBlocks : sb.journalBlocks = 64
  crcStart : sb.crcStart = total - 64 - crcBlocks
  crcRoom : crcBlocks + 100 < total
  groups : ∀ g ≤ last, desc g = { plainGroup (total - 64) g with
    dataEnd := min (total - 64 - crcBlocks) (2 + (g + 1) * 4096) }

lemma computeLayout_some (hTotal : total < 2 ^ 32) (h : computeLayout sb total = some (sb', desc)) :
    ∃ last tail crcBlocks, Geometry total last tail crcBlocks sb' desc := by
  unfold computeLayout at h
  split_ifs at h with hSmall
  by_cases hGroups : u32 (total + blocksPerGroup - 1) / blocksPerGroup = 0 ∨
      maxGroups < u32 (total + blocksPerGroup - 1) / blocksPerGroup
  · simp only [if_pos hGroups] at h
    cases h
  simp only [if_neg hGroups] at h
  have hAdd : total + 4095 < 2 ^ 32 := by
    unfold u32 blocksPerGroup maxGroups at hGroups
    omega
  have hu32 : u32 (total + blocksPerGroup - 1) = total + 4095 := u32_eq hAdd
  rw [hu32] at h hGroups
  have hJournal : sub32 total journalLength = total - 64 := sub32_eq (by
    unfold journalLength
    omega)
  simp only [hJournal, bind_eq_some_iff] at h
  obtain ⟨plain, hPlain, h⟩ := h
  generalize hCount : (total + 4095) / blocksPerGroup = groups at *
  unfold blocksPerGroup maxGroups at *
  have hEach := layoutGroups_some hPlain
  have hPlainDesc : ∀ g < groups, plain g = plainGroup (total - 64) g := fun g hg =>
    (layoutGroup_some (by unfold maxGroups; omega) (hEach g hg)).2
  have hLastRoom := (layoutGroup_some (by unfold maxGroups; omega) (hEach (groups - 1) (by omega))).1
  obtain ⟨last, rfl⟩ : ∃ last, groups = last + 1 := ⟨groups - 1, by omega⟩
  obtain ⟨tail, hTail⟩ : ∃ tail, total = last * 4096 + tail := ⟨total - last * 4096, by omega⟩
  have hBounds : 101 ≤ tail ∧ tail ≤ 4096 := by omega
  have hData : dataTotal plain (last + 1) = last * 4062 + (tail - 100) := by
    rw [dataTotal_plain (by omega) hBounds (by omega) (fun g hg => hPlainDesc g (by omega)) _ le_rfl]
    exact if_neg (by omega)
  have hCrc : u32 (dataTotal plain (last + 1) * 4 + blockSize - 1) / blockSize =
      (last * 4062 + (tail - 100) + 1023) / 1024 := by
    rw [hData, u32_eq (by unfold blockSize; omega)]
    unfold blockSize
    omega
  rw [hCrc] at h
  generalize hCrcBlocks : (last * 4062 + (tail - 100) + 1023) / 1024 = crcBlocks at *
  have hStart : sub32 (total - 64) crcBlocks = total - 64 - crcBlocks := sub32_eq (by omega)
  simp only [hStart, if_pos (Nat.succ_pos last), clip_eq] at h
  split_ifs at h with hFirst
  obtain ⟨rfl, rfl⟩ := h
  have hRoom : crcBlocks + 100 < total := by omega
  refine ⟨last, tail, crcBlocks, hTail, by omega, hBounds, hCrcBlocks.symm, rfl, rfl, rfl, rfl, rfl,
    hRoom, fun g hg => ?_⟩
  rw [if_pos (by omega), hPlainDesc g (by omega), plainGroup]
  simp only [Gdesc.mk.injEq, true_and, and_true]
  omega

namespace Geometry

variable {last tail crcBlocks : Nat}

def bounds (total crcBlocks : Nat) : Part → Nat × Nat
  | .superblock => (0, 1)
  | .descriptors => (1, 2)
  | .blockBitmap g => (2 + g * 4096, 3 + g * 4096)
  | .inodeBitmap g => (3 + g * 4096, 4 + g * 4096)
  | .inodeTable g => (4 + g * 4096, 36 + g * 4096)
  | .data g => (36 + g * 4096, min (total - 64 - crcBlocks) (2 + (g + 1) * 4096))
  | .checksums => (total - 64 - crcBlocks, total - 64)
  | .journal => (total - 64, total)

variable (geo : Geometry total last tail crcBlocks sb desc)

include geo

section

variable (fits : crcBlocks ≤ tail - 100)

include fits

lemma blocks_eq {p : Part} (hp : p.Present sb) : (p.blocks sb desc).base = (bounds total crcBlocks p).1 ∧
      (p.blocks sb desc).finish = (bounds total crcBlocks p).2 := by
  have hTail := geo.tailBounds
  have hBlocks := geo.blocks
  cases p with
  | superblock => exact ⟨rfl, rfl⟩
  | descriptors => exact ⟨rfl, rfl⟩
  | checksums =>
    simp only [Part.blocks, bounds, Range.finish, geo.crcStart, geo.journalStart, true_and]
    omega
  | journal =>
    simp only [Part.blocks, bounds, Range.finish, geo.journalStart, geo.journalBlocks, true_and]
    omega
  | blockBitmap g | inodeBitmap g | inodeTable g | data g =>
    have hg : g ≤ last := by
      have : g < sb.totalGroups := hp
      rw [geo.totalGroups] at this
      omega
    simp only [Part.blocks, bounds, Range.finish, geo.groups g hg, plainGroup, itableBlocks, true_and]
    omega

/-- Parts that come in this order do not overlap. -/
lemma parts_apart {p q : Part} (hp : p.Present sb) (hq : q.Present sb)
    (hne : p ≠ q) : (p.blocks sb desc).Apart (q.blocks sb desc) := by
  have hTail := geo.tailBounds
  have hBlocks := geo.blocks
  unfold Range.Apart
  rw [(geo.blocks_eq fits hp).1, (geo.blocks_eq fits hp).2, (geo.blocks_eq fits hq).1, (geo.blocks_eq fits hq).2]
  cases p <;> cases q <;> simp only [Part.Present, bounds] at * <;>
    first
      | exact absurd rfl hne
      | (simp only [ne_eq, Part.blockBitmap.injEq, Part.inodeBitmap.injEq, Part.inodeTable.injEq,
          Part.data.injEq, reduceCtorEq, not_false_eq_true] at hne
         try have := hGroup hp
         try have := hGroup hq
         omega)

lemma dataTotal_le : ∀ n ≤ last + 1, dataTotal desc n ≤ n * 4062 ∧
      (n = last + 1 → dataTotal desc n ≤ last * 4062 + (tail - 100)) := by
  have hTail := geo.tailBounds
  have hLast := geo.lastLt
  have hBlocks := geo.blocks
  intro n
  induction n with
  | zero =>
    intro _
    simp [dataTotal]
  | succ n ih =>
    intro hn
    rw [dataTotal, geo.groups n (by omega)]
    simp only [plainGroup]
    rw [sub32_eq (by omega), u32_eq (by omega)]
    omega

end

lemma layoutOk_iff_fits : LayoutOk sb desc ↔ crcBlocks ≤ tail - 100 := by
  have hTail := geo.tailBounds
  have hBlocks := geo.blocks
  have hCrc := geo.crcStart
  have hJournal := geo.journalStart
  constructor
  · intro ok
    have := ok.ordered last (by rw [geo.totalGroups]; omega)
    rw [geo.groups last le_rfl] at this
    simp only [plainGroup] at this
    omega
  intro fits
  refine ⟨fun p q hp hq => geo.parts_apart fits hp hq, fun p hp => ?_, fun g hg => ?_, ?_⟩
  · rw [geo.totalBlocks, (geo.blocks_eq fits hp).2]
    have hGroup : ∀ {g}, g < sb.totalGroups → g ≤ last := by
      intro g hg
      rw [geo.totalGroups] at hg
      omega
    cases p <;> simp only [Part.Present, bounds] at * <;>
      first
        | omega
        | (have hInside := hGroup hp
           omega)
  · rw [geo.totalGroups] at hg
    rw [geo.groups g (by omega)]
    simp only [plainGroup]
    omega
  · have := (geo.dataTotal_le fits (last + 1) le_rfl).2 rfl
    have := geo.crcCount
    rw [geo.totalGroups, hCrc, hJournal]
    unfold blockSize
    omega

/-- The CRC region is not empty, and was cut off after the last counter was computed. -/
lemma not_freeCounts : ¬ FreeCounts sb desc := by
  intro counts
  have hTail := geo.tailBounds
  have hBlocks := geo.blocks
  have hCount := geo.crcCount
  have hLast := geo.lastLt
  have hEq := counts last (by rw [geo.totalGroups]; omega)
  rw [geo.groups last le_rfl] at hEq
  simp only [plainGroup] at hEq
  unfold sub32 at hEq
  split_ifs at hEq <;> omega

end Geometry

/-- The last group has room for the CRC region behind its metadata. -/
def RoomForCrc (total : Nat) : Prop := (total - 1) / 4096 * 4062 ≤ 1023 * (total - (total - 1) / 4096 * 4096 - 100)

lemma layoutOk_iff_room (hTotal : total < 2 ^ 32)
    (h : computeLayout sb total = some (sb', desc)) : LayoutOk sb' desc ↔ RoomForCrc total := by
  obtain ⟨last, tail, crcBlocks, geo⟩ := computeLayout_some hTotal h
  rw [geo.layoutOk_iff_fits]
  have hTail := geo.tailBounds
  have hBlocks := geo.blocks
  have hCount := geo.crcCount
  unfold RoomForCrc
  omega

lemma diskTotalBlocks_lt (sectors swap : Nat) : diskTotalBlocks sectors swap < 2 ^ 32 := Nat.mod_lt _ (by decide)

/-- The free-block counters are always wrong; the rest is sound iff the CRC region fits into the
data of the last group. -/
theorem layout_sound_iff {sectors swap : Nat} (h : computeLayout sb (diskTotalBlocks sectors swap) = some (sb', desc)) :
    ¬ (LayoutOk sb' desc ∧ FreeCounts sb' desc) ∧ (LayoutOk sb' desc ↔ RoomForCrc (diskTotalBlocks sectors swap)) := by
  constructor
  · intro claim
    obtain ⟨last, tail, crcBlocks, geo⟩ := computeLayout_some (diskTotalBlocks_lt _ _) h
    exact geo.not_freeCounts claim.2
  · exact layoutOk_iff_room (diskTotalBlocks_lt _ _) h

theorem layout_of_four_mebibytes : ∃ sb' desc,
    computeLayout {} (diskTotalBlocks 8192 0) = some (sb', desc) ∧ LayoutOk sb' desc ∧
      ¬ (LayoutOk sb' desc ∧ FreeCounts sb' desc) := by
  obtain ⟨⟨sb', desc⟩, h⟩ := isSome_iff_exists.mp (show (computeLayout {} (diskTotalBlocks 8192 0)).isSome by decide)
  have sound := layout_sound_iff h
  exact ⟨sb', desc, h, sound.2.mpr (by unfold RoomForCrc; decide), sound.1⟩

/-- With 4197 blocks the CRC region covers part of the inode table of the second group. -/
theorem layout_of_4197_blocks : ∃ sb' desc, computeLayout {} (diskTotalBlocks 33576 0) = some (sb', desc) ∧
      ¬ LayoutOk sb' desc ∧ ¬ FreeCounts sb' desc := by
  have trace : (computeLayout {} (diskTotalBlocks 33576 0)).map (fun (sb', desc) =>
      decide (1 < sb'.totalGroups ∧ (desc 1).dataEnd < (desc 1).dataStart ∧
        (desc 1).freeBlocks ≠ sub32 (desc 1).dataEnd (desc 1).dataStart)) = some true := by
    decide
  obtain ⟨⟨sb', desc⟩, h, hCheck⟩ := map_eq_some_iff.mp trace
  obtain ⟨hGroups, hOrder, hFree⟩ := of_decide_eq_true hCheck
  refine ⟨sb', desc, h, fun ok => ?_, fun counts => hFree (counts 1 hGroups)⟩
  exact absurd (ok.ordered 1 hGroups) (not_le.mpr hOrder)

end YartOS.Fs
