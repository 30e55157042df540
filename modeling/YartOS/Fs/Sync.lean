import YartOS.Fs.Super
import YartOS.Fs.Vnode

/-! Writing the dirty part of the tree back: `persist_node`, `sync_tree` and `blkfs_sync`. -/
namespace YartOS.Fs

open Bytes

def Kind.number : Kind → Nat
  | .file => 1
  | .dir => 2
  | .symlink => 3

/-- The length of a directory entry: 8 bytes and the name, rounded up to a word. -/
def direntRecLen (nameLen : Nat) : Nat := (8 + nameLen + 3) / 4 * 4 % 2 ^ 16

def direntHead (ino recLen nameLen kind : Nat) : Buffer :=
  packWords fun k => if k = 0 then ino else recLen + 2 ^ 16 * (nameLen % 2 ^ 8) + 2 ^ 24 * kind

/-- The loop of `dir_build_entries`; children without inode number are left out. -/
def dirEntries : Forest → Buffer → Nat → Buffer × Nat
  | .nil, buf, off => (buf, off)
  | .cons c _ sibling, buf, off =>
    if c.ino = 0 then dirEntries sibling buf off
    else
      let recLen := direntRecLen c.name.length
      let buf := copyTo buf off (direntHead c.ino recLen c.name.length c.kind.number) 8
      let buf := copyTo buf (off + 8) (ofBytes c.name) c.name.length
      dirEntries sibling buf (off + recLen)

def dirBuildEntries (child : Forest) : Buffer × Nat :=
  let (buf, off) := dirEntries child zeros 0
  (buf, u32 off)

def Vnode.attrs (v : Vnode) : Attrs where
  kind := v.kind.number
  mode := v.mode
  uid := v.uid
  gid := v.gid
  mtime := v.mtime

def Vnode.contents (v : Vnode) (child : Forest) : Buffer × Nat :=
  if v.kind = .dir then dirBuildEntries child else (v.data, u32 v.size)

def takeIno (isRoot : Bool) (v : Vnode) (vol : Volume) : Nat × Volume :=
  if v.ino ≠ 0 then (v.ino, vol) else if isRoot then (rootIno, vol) else allocIno vol

/-- `persist_node`, and whether it returned 0. The caller marks the parent. -/
def persistNode (isRoot : Bool) (v : Vnode) (child : Forest) (vol : Volume) : Bool × Vnode × Volume :=
  let (ino, vol) := takeIno isRoot v vol
  if ino = 0 then (false, v, vol)
  else
    let (data, size) := v.contents child
    let (ok, vol) := persistInode vol ino (decide (v.ino = 0)) v.attrs data size
    if ok then
      (true, { v with ino := ino, dirty := false }, { vol with syncedFiles := vol.syncedFiles + 1 })
    else (false, { v with ino := ino }, vol)

/-- A node that may have been marked dirty by its children. -/
def syncNode (isRoot childSynced : Bool) (v : Vnode) (child : Forest) (vol : Volume) : Bool × Vnode × Volume :=
  let v := if childSynced then { v with dirty := true } else v
  if v.dirty then persistNode isRoot v child vol else (false, v, vol)

/-- `sync_tree` on siblings, children first, and whether one was persisted. -/
def syncForest : Forest → Volume → Bool × Forest × Volume
  | .nil, vol => (false, .nil, vol)
  | .cons v child sibling, vol =>
    let (childSynced, child, vol) := syncForest child vol
    let (synced, v, vol) := syncNode false childSynced v child vol
    let (siblingSynced, sibling, vol) := syncForest sibling vol
    (synced || siblingSynced, .cons v child sibling, vol)

def syncTree (t : Tree) (vol : Volume) : Tree × Volume :=
  let (childSynced, child, vol) := syncForest t.child vol
  let (_, root, vol) := syncNode true childSynced t.root child vol
  ({ root := root, child := child }, vol)

variable (vol : Volume)

def freeDeleted : Volume :=
  { vol.deleted.foldl (fun vol ino => if ino = 0 then vol else inodeFree vol ino) vol with
    deleted := [] }

def wrState (state : Nat) : Volume := wrSb { vol with sb := { vol.sb with state := state } }

def flushMeta : Volume := wrState (wrGdt (flushBitmaps (wrState vol 1))) 0

structure Mounted where
  vol : Volume
  tree : Tree

/-- `blkfs_sync`; when nothing was written or deleted the superblock is left alone. -/
def blkfsSync (s : Mounted) : Mounted :=
  if !s.vol.active then s
  else
    let dels := s.vol.deleted.length
    let vol := freeDeleted s.vol
    let before := vol.syncedFiles
    let (tree, vol) := syncTree s.tree vol
    if vol.syncedFiles - before = 0 ∧ dels = 0 then { vol := vol, tree := tree }
    else { vol := flushMeta vol, tree := tree }

/-- `blkfs_note_delete`: at most 64 numbers are kept until the next sync. -/
def noteDelete (ino : Nat) : Volume :=
  if !vol.active ∨ ino = 0 ∨ ino ∈ vol.deleted then vol
  else if vol.deleted.length < 64 then { vol with deleted := vol.deleted ++ [ino] }
  else vol

/-- `vfs_unlink` on child number `i` of the node at `path`. -/
def vfsUnlink (s : Mounted) (path : List Nat) (i : Nat) : Mounted :=
  match s.tree.find (path ++ [i]) with
  | none => s
  | some (v, child) =>
    if v.kind = .dir ∧ !child.isNil then s
    else
      { vol := if v.ino = 0 then s.vol else noteDelete s.vol v.ino
        tree := s.tree.update (detach i) path }

/-- The calls that change the tree or the volume. -/
inductive Op where
  | create (env : Caller) (parent : List Nat) (name : Name) (kind : Kind)
  | symlink (env : Caller) (parent : List Nat) (name target : Name)
  | write (env : Caller) (node : List Nat) (buf : Buffer) (off n : Nat)
  | truncate (env : Caller) (node : List Nat) (n : Nat)
  | unlink (parent : List Nat) (i : Nat)
  | sync

def Mounted.apply (s : Mounted) : Op → Mounted
  | .create env parent name kind =>
    { s with tree := s.tree.update (vfsCreate env name kind) parent }
  | .symlink env parent name target =>
    { s with tree := s.tree.update (vfsSymlink env name target) parent }
  | .write env node buf off n => { s with tree := s.tree.update (vfsWrite env buf off n) node }
  | .truncate env node n => { s with tree := s.tree.update (vfsTruncate env n) node }
  | .unlink parent i => vfsUnlink s parent i
  | .sync => blkfsSync s

end YartOS.Fs
