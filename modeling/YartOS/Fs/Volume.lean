import YartOS.Fs.Layout
import YartOS.Lib.Bytes

/-! The state of the file system and its lowest layer: block access, bitmaps, inode table,
checksums. -/
namespace YartOS.Fs

open Bytes Function

structure Inode where
  mode : Nat := 0
  uid : Nat := 0
  gid : Nat := 0
  size : Nat := 0
  mtime : Nat := 0
  linksCount : Nat := 0
  blocksCount : Nat := 0
  direct : Nat → Nat := fun _ => 0
  singleIndirect : Nat := 0
  doubleIndirect : Nat := 0
  tripleIndirect : Nat := 0
  generation : Nat := 0
  crc : Nat := 0
  reserved : Nat → Nat := fun _ => 0

def Inode.words (ino : Inode) (k : Nat) : Nat :=
  match k with
  | 0 => ino.mode
  | 1 => ino.uid
  | 2 => ino.gid
  | 3 => ino.size
  | 4 => ino.mtime
  | 5 => ino.linksCount
  | 6 => ino.blocksCount
  | 19 => ino.singleIndirect
  | 20 => ino.doubleIndirect
  | 21 => ino.tripleIndirect
  | 22 => ino.generation
  | 23 => ino.crc
  | k => if k < 19 then ino.direct (k - 7) else ino.reserved (k - 24)

def Inode.ofWords (w : Nat → Nat) : Inode where
  mode := w 0
  uid := w 1
  gid := w 2
  size := w 3
  mtime := w 4
  linksCount := w 5
  blocksCount := w 6
  direct := fun i => if i < directCount then w (7 + i) else 0
  singleIndirect := w 19
  doubleIndirect := w 20
  tripleIndirect := w 21
  generation := w 22
  crc := w 23
  reserved := fun i => if i < 8 then w (24 + i) else 0

def Superblock.words (sb : Superblock) (k : Nat) : Nat :=
  match k with
  | 0 => sb.magic
  | 1 => sb.magic / 2 ^ 32
  | 2 => sb.version
  | 3 => sb.blockSize
  | 4 => sb.blocksPerGroup
  | 5 => sb.inodesPerGroup
  | 6 => sb.inodeSize
  | 7 => sb.totalBlocks
  | 8 => sb.totalGroups
  | 9 => sb.journalStart
  | 10 => sb.journalBlocks
  | 11 => sb.crcStart
  | 12 => sb.mtime
  | 13 => sb.mountCount
  | 14 => sb.state
  | k => sb.reserved (k - 15)

def Superblock.ofWords (w : Nat → Nat) : Superblock where
  magic := w 0 + w 1 * 2 ^ 32
  version := w 2
  blockSize := w 3
  blocksPerGroup := w 4
  inodesPerGroup := w 5
  inodeSize := w 6
  totalBlocks := w 7
  totalGroups := w 8
  journalStart := w 9
  journalBlocks := w 10
  crcStart := w 11
  mtime := w 12
  mountCount := w 13
  state := w 14
  reserved := fun i => if i < 7 then w (15 + i) else 0

def Gdesc.words (d : Gdesc) (k : Nat) : Nat :=
  match k with
  | 0 => d.blockBitmap
  | 1 => d.inodeBitmap
  | 2 => d.inodeTable
  | 3 => d.dataStart
  | 4 => d.dataEnd
  | 5 => d.freeBlocks
  | 6 => d.freeInodes
  | _ => d.reserved

def Gdesc.ofWords (w : Nat → Nat) : Gdesc where
  blockBitmap := w 0
  inodeBitmap := w 1
  inodeTable := w 2
  dataStart := w 3
  dataEnd := w 4
  freeBlocks := w 5
  freeInodes := w 6
  reserved := w 7

def wordsAt (b : Buffer) (off k : Nat) : Nat := getU32 b (off + 4 * k)

def sizeofSb : Nat := 88
def sizeofGdesc : Nat := 32

/-- The globals of `blkfs.c` and the disk. The code does not read the log `writes` nor `failed`. -/
structure Volume where
  disk : Nat → Buffer
  sb : Superblock := {}
  desc : Nat → Gdesc := fun _ => {}
  bbitmap : Nat → Buffer := fun _ => zeros
  ibitmap : Nat → Buffer := fun _ => zeros
  deleted : List Nat := []
  active : Bool := false
  syncedFiles : Nat := 0
  writes : List (Nat × Buffer) := []
  failed : Bool := false

def rdBlk (v : Volume) (b : Nat) : Buffer := v.disk b

def wrBlk (v : Volume) (b : Nat) (buf : Buffer) : Volume :=
  { v with disk := update v.disk b buf, writes := v.writes ++ [(b, buf)] }

def crcStep (crc : Nat) : Nat :=
  if crc % 2 = 1 then (crc / 2) ^^^ 0xEDB88320 else crc / 2

/-- The running checksum of `crc32b` after the bytes from `i` on. -/
def crcLoop (data : Buffer) : Nat → Nat → Nat → Nat
  | 0, _, crc => crc
  | len + 1, i, crc => crcLoop data len (i + 1) (crcStep^[8] (crc ^^^ (data i).toNat))

def crc32b (data : Buffer) (len : Nat) : Nat := 0xFFFFFFFF - crcLoop data len 0 0xFFFFFFFF

def groupOfDataBlock (v : Volume) (blk : Nat) : Option Nat :=
  findFrom (fun g => (v.desc g).dataStart ≤ blk && blk < (v.desc g).dataEnd) v.sb.totalGroups 0

variable (v : Volume)

def ibit (ino : Nat) : Bool :=
  let k := sub32 ino 1
  getBit (v.ibitmap (k / inodesPerGroup)) (k % inodesPerGroup)

def iset (ino : Nat) (used : Bool) : Volume :=
  let k := sub32 ino 1
  let g := k / inodesPerGroup
  { v with ibitmap := update v.ibitmap g (setBit (v.ibitmap g) (k % inodesPerGroup) used) }

/-- A block outside the data ranges counts as used. -/
def bbit (blk : Nat) : Bool :=
  match groupOfDataBlock v blk with
  | none => true
  | some g => getBit (v.bbitmap g) (blk - (v.desc g).dataStart)

def bset (blk : Nat) (used : Bool) : Volume :=
  match groupOfDataBlock v blk with
  | none => v
  | some g => { v with
      bbitmap := update v.bbitmap g (setBit (v.bbitmap g) (blk - (v.desc g).dataStart) used) }

def allocIno : Nat × Volume :=
  match findFrom (fun k => !ibit v (k + 1)) (v.sb.totalGroups * inodesPerGroup) 0 with
  | some k => (k + 1, iset v (k + 1) true)
  | none => (0, { v with failed := true })

def freeBlockIn (g : Nat) : Option Nat :=
  (findFrom (fun i => !bbit v (u32 ((v.desc g).dataStart + i))) (sub32 (v.desc g).dataEnd (v.desc g).dataStart) 0).map
    fun i => u32 ((v.desc g).dataStart + i)

/-- The groups in the order of the two passes of `alloc_block`. -/
def searchOrder (preferGroup : Nat) : List Nat :=
  (List.range v.sb.totalGroups).map (fun gg => u32 (preferGroup + gg) % v.sb.totalGroups) ++ List.range v.sb.totalGroups

def allocBlock (preferGroup : Nat) : Nat × Volume :=
  match (searchOrder v preferGroup).findSome? (freeBlockIn v) with
  | some blk => (blk, bset v blk true)
  | none => (0, { v with failed := true })

variable (ino : Nat)

def inodeBlock : Nat :=
  let k := sub32 ino 1
  u32 ((v.desc (k / inodesPerGroup)).inodeTable + k % inodesPerGroup / inodesPerBlk)

def inodeSlotOff : Nat := sub32 ino 1 % inodesPerGroup % inodesPerBlk * inodeSize

def rdInode : Inode := .ofWords (wordsAt (rdBlk v (inodeBlock v ino)) (inodeSlotOff ino))

def wrInode (inode : Inode) : Volume :=
  wrBlk v (inodeBlock v ino) (copyTo (rdBlk v (inodeBlock v ino)) (inodeSlotOff ino) (packWords inode.words) inodeSize)

/-- `0xFFFFFFFF` marks a block outside the data ranges. -/
def noIndex : Nat := 0xFFFFFFFF

def dataIndexFrom (v : Volume) (blk : Nat) : Nat → Nat → Nat → Nat
  | 0, _, _ => noIndex
  | fuel + 1, g, idx =>
    if (v.desc g).dataStart ≤ blk ∧ blk < (v.desc g).dataEnd then
      u32 (idx + (blk - (v.desc g).dataStart))
    else
      dataIndexFrom v blk fuel (g + 1) (u32 (idx + sub32 (v.desc g).dataEnd (v.desc g).dataStart))

def dataIndex (v : Volume) (blk : Nat) : Nat := dataIndexFrom v blk v.sb.totalGroups 0 0

def crcBlockOf (v : Volume) (idx : Nat) : Nat := u32 (v.sb.crcStart + u32 (idx * 4) / blockSize)

def crcOfBlock (v : Volume) (blk : Nat) : Nat :=
  let idx := dataIndex v blk
  if idx = noIndex then 0
  else getU32 (rdBlk v (crcBlockOf v idx)) (u32 (idx * 4) % blockSize)

def crcStoreBlock (v : Volume) (blk crc : Nat) : Volume :=
  let idx := dataIndex v blk
  if idx = noIndex then v
  else
    wrBlk v (crcBlockOf v idx) (putU32 (rdBlk v (crcBlockOf v idx)) (u32 (idx * 4) % blockSize) crc)

end YartOS.Fs
