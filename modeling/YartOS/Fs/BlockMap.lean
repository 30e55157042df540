import YartOS.Fs.Volume

/-! File data: the block map of an inode, truncation, and the writer for files and directories. -/
namespace YartOS.Fs

open Bytes

variable (v : Volume) (ino : Inode)

def entry (tbl i : Nat) : Nat := getU32 (rdBlk v tbl) (4 * i)

def setEntry (tbl i b : Nat) : Volume := wrBlk v tbl (putU32 (rdBlk v tbl) (4 * i) b)

def allocTable (preferGroup : Nat) : Nat × Volume :=
  let (tbl, v) := allocBlock v preferGroup
  if tbl = 0 then (0, v) else (tbl, wrBlk v tbl zeros)

/-- The data block at entry `i` of a table, allocated on demand; `0` for none. -/
def leafOf (tbl i : Nat) (alloc : Bool) (preferGroup : Nat) : Nat × Volume :=
  let b := entry v tbl i
  if b ≠ 0 then (b, v)
  else if !alloc then (0, v)
  else
    let (b, v) := allocBlock v preferGroup
    if b = 0 then (0, v) else (b, setEntry v tbl i b)

/-- The table at entry `i` of a table of tables, allocated on demand. -/
def tableOf (dtbl i : Nat) (alloc : Bool) (preferGroup : Nat) : Nat × Volume :=
  let tbl := entry v dtbl i
  if tbl ≠ 0 then (tbl, v)
  else if !alloc then (0, v)
  else
    let dbuf := rdBlk v dtbl
    let (tbl, v) := allocTable v preferGroup
    if tbl = 0 then (0, v) else (tbl, wrBlk v dtbl (putU32 dbuf (4 * i) tbl))

def rootOf (root : Nat) (alloc : Bool) (preferGroup : Nat) : Nat × Volume :=
  if root ≠ 0 then (root, v) else if !alloc then (0, v) else allocTable v preferGroup

def getDirect (i : Nat) (alloc : Bool) (preferGroup : Nat) : Nat × Inode × Volume :=
  let b := ino.direct i
  if b ≠ 0 then (b, ino, v)
  else if !alloc then (0, ino, v)
  else
    let (b, v) := allocBlock v preferGroup
    if b = 0 then (0, ino, v) else (b, { ino with direct := Function.update ino.direct i b }, v)

def getSingle (i : Nat) (alloc : Bool) (preferGroup : Nat) : Nat × Inode × Volume :=
  let (tbl, v) := rootOf v ino.singleIndirect alloc preferGroup
  if tbl = 0 then (0, ino, v)
  else
    let (b, v) := leafOf v tbl i alloc preferGroup
    (b, { ino with singleIndirect := tbl }, v)

def getDouble (k : Nat) (alloc : Bool) (preferGroup : Nat) : Nat × Inode × Volume :=
  let (dtbl, v) := rootOf v ino.doubleIndirect alloc preferGroup
  if dtbl = 0 then (0, ino, v)
  else
    let (tbl, v) := tableOf v dtbl (k / indirectPer) alloc preferGroup
    if tbl = 0 then (0, { ino with doubleIndirect := dtbl }, v)
    else
      let (b, v) := leafOf v tbl (k % indirectPer) alloc preferGroup
      (b, { ino with doubleIndirect := dtbl }, v)

def inodeGetBlock (index : Nat) (alloc : Bool) (preferGroup : Nat) : Nat × Inode × Volume :=
  if index < directCount then getDirect v ino index alloc preferGroup
  else if index - directCount < indirectPer then
    getSingle v ino (index - directCount) alloc preferGroup
  else if index - directCount - indirectPer < indirectPer * indirectPer then
    getDouble v ino (index - directCount - indirectPer) alloc preferGroup
  else (0, ino, v)

/-- Clears the bitmap bits of a tree with `depth` levels of tables. -/
def freeIndirectTree : Nat → Volume → Nat → Volume
  | 0, v, b => if b = 0 then v else bset v b false
  | depth + 1, v, tbl =>
    if tbl = 0 then v
    else
      let buf := rdBlk v tbl
      bset ((List.range indirectPer).foldl (fun v i => freeIndirectTree depth v (getU32 buf (4 * i))) v) tbl false

def freeDirect (v : Volume) (ino : Inode) : Nat → Nat → Inode × Volume
  | 0, _ => (ino, v)
  | fuel + 1, i =>
    if ino.direct i ≠ 0 then
      freeDirect (bset v (ino.direct i) false)
        { ino with direct := Function.update ino.direct i 0 } fuel (i + 1)
    else freeDirect v ino fuel (i + 1)

/-- Drop the entries of a table from `i` on, in the buffer that holds it. -/
def freeEntries (v : Volume) (buf : Buffer) : Nat → Nat → Buffer × Volume
  | 0, _ => (buf, v)
  | fuel + 1, i =>
    if getU32 buf (4 * i) ≠ 0 then
      freeEntries (bset v (getU32 buf (4 * i)) false) (putU32 buf (4 * i) 0) fuel (i + 1)
    else freeEntries v buf fuel (i + 1)

variable (nblocks : Nat)

def truncateSingle : Inode × Volume :=
  if ino.singleIndirect = 0 then (ino, v)
  else if nblocks ≤ directCount ∨ indirectPer ≤ nblocks - directCount then
    ({ ino with singleIndirect := 0 }, freeIndirectTree 1 v ino.singleIndirect)
  else
    let hi := nblocks - directCount
    let (buf, v) := freeEntries v (rdBlk v ino.singleIndirect) (indirectPer - hi) hi
    (ino, wrBlk v ino.singleIndirect buf)

/-- The whole tree goes unless the shrunk file still reaches into it. -/
def truncateDouble : Inode × Volume :=
  if ino.doubleIndirect ≠ 0 ∧ nblocks ≤ directCount + indirectPer then
    ({ ino with doubleIndirect := 0 }, freeIndirectTree 2 v ino.doubleIndirect)
  else (ino, v)

def truncateTriple : Inode × Volume :=
  if ino.tripleIndirect ≠ 0 then
    ({ ino with tripleIndirect := 0 }, freeIndirectTree 3 v ino.tripleIndirect)
  else (ino, v)

def truncateBlocks : Inode × Volume :=
  let (ino, v) := freeDirect v ino (directCount - nblocks) nblocks
  let (ino, v) := truncateSingle v ino nblocks
  let (ino, v) := truncateDouble v ino nblocks
  let (ino, v) := truncateTriple v ino
  ({ ino with blocksCount := nblocks }, v)

def freeBlocks (inode : Inode) : Volume :=
  let v := (List.range directCount).foldl (fun v i => freeIndirectTree 0 v (inode.direct i)) v
  let v := freeIndirectTree 1 v inode.singleIndirect
  let v := freeIndirectTree 2 v inode.doubleIndirect
  freeIndirectTree 3 v inode.tripleIndirect

def inodeFree (v : Volume) (ino : Nat) : Volume := wrInode (iset (freeBlocks v (rdInode v ino)) ino false) ino {}

def blocksFor (size : Nat) : Nat := u32 (size + blockSize - 1) / blockSize

def dataBlock (data : Buffer) (size b : Nat) : Buffer :=
  let off := u32 (blockSize * b)
  copyTo zeros 0 (fun i => data (off + i)) (min (sub32 size off) blockSize)

/-- The block loop of `persist_data`; `false` when a block cannot be allocated. -/
def persistBlocks (data : Buffer) (size preferGroup : Nat) : Nat → Nat → Inode → Volume → Bool × Inode × Volume
  | 0, _, ino, v => (true, ino, v)
  | fuel + 1, b, ino, v =>
    let (db, ino, v) := inodeGetBlock v ino b true preferGroup
    if db = 0 then (false, ino, v)
    else
      let buf := dataBlock data size b
      persistBlocks data size preferGroup fuel (b + 1) ino (crcStoreBlock (wrBlk v db buf) db (crc32b buf blockSize))

/-- Write `size` bytes as the contents of inode `ino`, reusing the map of `inode`. -/
def persistData (v : Volume) (ino : Nat) (inode : Inode) (data : Buffer) (size : Nat) : Bool × Inode × Volume :=
  let nblocks := blocksFor size
  let (inode, v) := if nblocks < inode.blocksCount then truncateBlocks v inode nblocks else (inode, v)
  let (ok, inode, v) := persistBlocks data size (sub32 ino 1 / inodesPerGroup) nblocks 0 inode v
  if ok then (true, { inode with size := size, blocksCount := nblocks }, v) else (false, inode, v)

/-- What `persist_node` copies from a vnode into its inode. -/
structure Attrs where
  kind : Nat
  mode : Nat
  uid : Nat
  gid : Nat
  mtime : Nat

def stampInode (inode : Inode) (attrs : Attrs) : Inode :=
  let inode := { inode with
    mode := 2 ^ 16 * attrs.kind ||| attrs.mode % 2 ^ 16
    uid := attrs.uid
    gid := attrs.gid
    mtime := u32 attrs.mtime
    linksCount := if inode.linksCount = 0 then 1 else inode.linksCount
    generation := u32 (inode.generation + 1)
    crc := 0 }
  { inode with crc := crc32b (packWords inode.words) inodeSize }

/-- `persist_node` from the point where the inode number is known. -/
def persistInode (v : Volume) (ino : Nat) (wasNew : Bool) (attrs : Attrs) (data : Buffer)
    (size : Nat) : Bool × Volume :=
  let inode := if wasNew then {} else rdInode v ino
  let (ok, inode, v) := persistData v ino inode data size
  if ok then (true, wrInode v ino (stampInode inode attrs)) else (false, v)

end YartOS.Fs
