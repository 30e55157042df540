import YartOS.Fs.Sync

/-! Mounting: `blkfs_init` and `mount_dir` rebuild the tree on top of the one in memory. -/
namespace YartOS.Fs

open Bytes

/-- Fills a buffer with the contents of an inode, up to the first unmapped block, and counts the
bytes. -/
def readBlocks (vol : Volume) (inode : Inode) : Nat → Nat → Nat → Buffer → Buffer × Nat
  | 0, _, got, buf => (buf, got)
  | fuel + 1, b, got, buf =>
    if inode.size ≤ got then (buf, got)
    else
      let db := (inodeGetBlock vol inode b false 0).1
      if db = 0 then (buf, got)
      else
        let take := min (inode.size - got) blockSize
        readBlocks vol inode fuel (b + 1) (got + take) (copyTo buf got (rdBlk vol db) take)

variable (vol : Volume)

/-- The bytes of a file in memory that held `memory`, and how many of them are the file's. -/
def readFile (inode : Inode) (memory : Buffer) : Buffer × Nat :=
  readBlocks vol inode (inode.size / blockSize + 1) 0 0 memory

/-- The blocks of a file whose stored checksum is not that of their contents. -/
def crcMismatches (vol : Volume) (inode : Inode) : Nat → Nat → Nat → List Nat
  | 0, _, _ => []
  | fuel + 1, b, got =>
    if inode.size ≤ got then []
    else
      let db := (inodeGetBlock vol inode b false 0).1
      if db = 0 then []
      else
        let expect := crcOfBlock vol db
        let rest := crcMismatches vol inode fuel (b + 1) (got + min (inode.size - got) blockSize)
        if expect ≠ 0 ∧ expect ≠ crc32b (rdBlk vol db) blockSize then b :: rest else rest

def reportedBlocks (inode : Inode) : List Nat := crcMismatches vol inode (inode.size / blockSize + 1) 0 0

def Kind.ofNumber (n : Nat) : Kind := if n = 2 then .dir else if n = 3 then .symlink else .file

structure Dirent where
  ino : Nat
  recLen : Nat
  nameLen : Nat
  kind : Kind
  name : Name

def readDirent (buf : Buffer) (off : Nat) : Dirent where
  ino := getU32 buf off
  recLen := getU16 buf (off + 4)
  nameLen := min (buf (off + 6)).toNat (maxName - 1)
  kind := .ofNumber (buf (off + 7)).toNat
  name := cstr buf (off + 8) (min (buf (off + 6)).toNat (maxName - 1))

/-- A node after a part of the walk. `wild` notes an index outside a table or behind the bytes that
were filled; the code has no such flag. -/
structure Visit where
  node : Vnode
  child : Forest
  wild : Bool := false

/-- The walk does not come back from a directory with `none`. -/
abbrev Walk := Vnode → Forest → Inode → Option Visit

def NoGroup (ino : Nat) : Prop := maxGroups ≤ sub32 ino 1 / inodesPerGroup

instance (ino : Nat) : Decidable (NoGroup ino) := inferInstanceAs (Decidable (_ ≤ _))

/-- Attributes and contents come from disk; an empty file keeps what it has. -/
def loadNode (walk : Walk) (env : Caller) (vol : Volume) (e : Dirent) (v : Vnode) (child : Forest) : Option Visit :=
  let cin := rdInode vol e.ino
  let v := { v with
    ino := e.ino
    uid := cin.uid
    gid := cin.gid
    mode := cin.mode % 2 ^ 16
    mtime := cin.mtime
    dirty := false }
  if e.kind = .dir then walk v child cin
  else if cin.size ≠ 0 ∨ e.kind = .symlink then
    some ⟨{ v with data := (readFile vol cin env.memory).1, size := cin.size }, child, false⟩
  else some ⟨v, child, false⟩

def loadChild (load : Vnode → Forest → Option Visit) (name : Name) : Forest → Option (Forest × Bool)
  | .nil => some (.nil, false)
  | .cons v child sibling =>
    if v.name = name then
      (load v child).map fun r => (.cons r.node r.child sibling, r.wild)
    else (loadChild load name sibling).map fun r => (.cons v child r.1, r.2)

def mountEntry (walk : Walk) (env : Caller) (vol : Volume) (e : Dirent) (dir : Vnode)
    (child : Forest) : Option Visit :=
  if e.ino = 0 ∨ e.nameLen = 0 ∨ dir.kind ≠ .dir then some ⟨dir, child, false⟩
  else
    let made := vfsCreate env e.name e.kind dir child
    (loadChild (loadNode walk env vol e) e.name made.2).map fun r =>
      ⟨made.1, r.1, r.2 || decide (NoGroup e.ino)⟩

/-- The entry loop of `mount_dir` over the `size` bytes of a directory, `got` of them filled. -/
def mountEntries (walk : Walk) (env : Caller) (vol : Volume) (buf : Buffer) (got size : Nat) :
    Nat → Nat → Vnode → Forest → Option Visit
  | 0, _, dir, child => some ⟨dir, child, false⟩
  | fuel + 1, off, dir, child =>
    if size < u32 (off + 8) then some ⟨dir, child, false⟩
    else
      let e := readDirent buf off
      if e.recLen < 8 ∨ sub32 size off < e.recLen then
        some ⟨dir, child, decide (got < off + 8)⟩
      else
        (mountEntry walk env vol e dir child).bind fun r =>
          (mountEntries walk env vol buf got size fuel (u32 (off + e.recLen)) r.node r.child).map
            fun r' => ⟨r'.node, r'.child, decide (got < off + 8 + e.nameLen) || r.wild || r'.wild⟩

/-- `mount_dir`, cut off at a nesting depth. Each entry has at least 8 bytes. -/
def mountDir (env : Caller) (vol : Volume) : Nat → Walk
  | 0, _, _, _ => none
  | depth + 1, dir, child, din =>
    if din.size = 0 then some ⟨dir, child, false⟩
    else
      let (buf, got) := readFile vol din env.memory
      mountEntries (mountDir env vol depth) env vol buf got din.size (din.size / 8 + 1) 0 dir child

def rdSb (disk : Nat → Buffer) : Superblock := .ofWords (wordsAt (disk 0) 0)

def rdGdt : Volume :=
  { vol with
    desc := fun g =>
      if g < vol.sb.totalGroups then .ofWords (wordsAt (rdBlk vol 1) (g * sizeofGdesc))
      else vol.desc g }

def rdBitmaps : Volume :=
  { vol with
    bbitmap := fun g =>
      if g < vol.sb.totalGroups then rdBlk vol (vol.desc g).blockBitmap else vol.bbitmap g
    ibitmap := fun g =>
      if g < vol.sb.totalGroups then rdBlk vol (vol.desc g).inodeBitmap else vol.ibitmap g }

def clearDirty : Forest → Forest
  | .nil => .nil
  | .cons v child sibling =>
    .cons { v with dirty := false } (clearDirty child) (clearDirty sibling)

/-- The metadata of a volume that carries the magic number, and its mount counter. -/
def openVolume (disk : Nat → Buffer) : Volume :=
  let vol := rdBitmaps (rdGdt { disk := disk, sb := rdSb disk })
  wrSb { vol with
    active := true, sb := { vol.sb with mountCount := u32 (vol.sb.mountCount + 1) } }

def mountTree (depth : Nat) (env : Caller) (vol : Volume) (t : Tree) : Option (Tree × Bool) :=
  (mountDir env vol depth { t.root with ino := rootIno } t.child (rdInode vol rootIno)).map fun r =>
    ({ root := { r.node with dirty := false }, child := clearDirty r.child },
      r.wild || decide (maxGroups < vol.sb.totalGroups))

/-- `blkfs_init` on `total` blocks, with the tree of `vfs_init`. -/
def blkfsInit (depth : Nat) (env : Caller) (disk : Nat → Buffer) (total : Nat) (t : Tree) : Option (Mounted × Bool) :=
  let sb := rdSb disk
  if sb.magic ≠ yfsMagic ∨ sb.version ≠ yfsVersion then
    some ({ vol := format { disk := disk, sb := sb } total, tree := t }, false)
  else
    let vol := openVolume disk
    (mountTree depth env vol t).map fun r => ({ vol := vol, tree := r.1 }, r.2)

end YartOS.Fs
