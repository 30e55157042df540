import YartOS.Vfs.Paths

/-! The tree of vnodes with links, the calls that make and remove vnodes, and the path of a vnode. -/
namespace YartOS.Vfs

open Fs Bytes

def maxPath : Nat := 256

def Files.attach (s : Files) (parent : Nat) (v : Vnode) : Files :=
  let p := s.node parent
  let s' := s.setNode parent { p with children := p.children ++ [s.next] }
  { s' with next := s.next + 1 }.setNode s.next { v with parent := some parent }

/-- A forest becomes the children of a vnode. -/
def Files.graft (parent : Nat) : Forest → Files → Files
  | .nil, s => s
  | .cons v child sibling, s => graft parent sibling (graft s.next child (s.attach parent v))

def Files.onlyRoot (root : Vnode) : Files where
  node := fun v => if v = rootNode then { root with } else { name := [], kind := .file }
  next := 1

def Files.ofTree (t : Tree) : Files := Files.graft rootNode t.child (Files.onlyRoot t.root)

/-- A name buffer after `strncpy`: its last byte is not written, so a long name goes on with
`uninit`. -/
def nameBuffer (uninit name : Name) : Name :=
  if name.length < maxName - 1 then name else name.take (maxName - 1) ++ uninit

variable (fuel : Nat) (s : Files) (t : Task)

def sysMkdir (path : Name) : Option Files :=
  match s.vfsLookupAt fuel (some t.fds.cwd) (splitPath path).1 with
  | none => none
  | some none => some s
  | some (some d) =>
    if !t.permOk (s.node d) permW then some s
    else
      match s.vfsCreate (t.caller s.now) d (splitPath path).2 .dir with
      | none => some s
      | some (s', _) => some s'

def linkNode (env : Caller) (name target : Name) : Vnode :=
  { mknode env name .symlink with
    data := ofBytes target, size := target.length, mode := 0o777, dirty := true }

def Files.vfsSymlink (env : Caller) (parent : Nat) (name target : Name) : Option Files :=
  if (s.node parent).kind ≠ .dir ∨ (s.findChild parent name).isSome then none
  else
    let s' := s.attach parent (linkNode env name target)
    some (s'.setNode parent { s'.node parent with dirty := true })

/-- The directory and the name that `sys_symlink` takes from a path. -/
def symlinkSplit (path : Name) : Name × Name :=
  if slash ∈ path then (if beforeSlash path = [] then [slash] else beforeSlash path, afterSlash path)
  else ([slash], path)

def sysSymlink (uninit target path : Name) : Option Files :=
  match s.vfsLookupAt fuel (some t.fds.cwd) (symlinkSplit path).1 with
  | none => none
  | some none => some s
  | some (some d) =>
    if (s.node d).kind ≠ .dir ∨ !t.permOk (s.node d) permW then some s
    else
      match s.vfsSymlink (t.caller s.now) d (nameBuffer uninit (symlinkSplit path).2) target with
      | none => some s
      | some s' => some s'

/-- Directory and name for `sys_rename`; a slash at the start stays in the name. -/
def renameSplit (path : Name) : Name × Name :=
  if slash ∈ path ∧ beforeSlash path ≠ [] then (beforeSlash path, afterSlash path) else (text ".", path)

def renamed (v nv : Node) : Node :=
  { nv with
    data := if v.kind = .file ∧ v.size ≠ 0 then v.data else nv.data
    size := if v.kind = .file ∧ v.size ≠ 0 then v.size else nv.size
    uid := v.uid, gid := v.gid, mode := v.mode, dirty := true }

def renameTo (uninit : Name) (v : Nat) (new : Name) : Option Files :=
  match s.vfsLookupAt fuel (some t.fds.cwd) (renameSplit new).1 with
  | none => none
  | some none => some s
  | some (some np) =>
    if (s.node np).kind ≠ .dir ∨ !t.permOk (s.node np) permW then some s
    else
      let base := nameBuffer uninit (renameSplit new).2
      match s.vfsLookupAt fuel (some np) base with
      | none => none
      | some (some _) => some s
      | some none =>
        match s.vfsCreate (t.caller s.now) np base (s.node v).kind with
        | none => some s
        | some (s', nv) =>
          let s' := s'.setNode nv (renamed (s'.node v) (s'.node nv))
          some ((s'.vfsUnlink v).getD s')

def sysRename (uninit old new : Name) : Option Files :=
  match s.vfsLookupAtNofollow fuel (some t.fds.cwd) old with
  | none => none
  | some none => some s
  | some (some v) =>
    match (s.node v).parent with
    | none => some s
    | some p =>
      if !t.permOk (s.node p) permW ∨ !stickyAllows s t p v then some s
      else renameTo fuel s t uninit v new

def Files.mkdirParts (env : Caller) : Files → Nat → List Name → Files
  | s, _, [] => s
  | s, cur, part :: rest =>
    if part.isEmpty then mkdirParts env s cur rest
    else
      match s.findChild cur part with
      | some e => if (s.node e).kind ≠ .dir then s else mkdirParts env s e rest
      | none =>
        match s.vfsCreate env cur part .dir with
        | none => s
        | some (s', e) => mkdirParts env s' e rest

def Files.vfsMkdirP (env : Caller) (path : Name) (s : Files) : Files :=
  let names := if path.head? = some slash then path.tail else path
  s.mkdirParts env rootNode (lookupParts names.length names)

/-- The loop of `vfs_path_of`; each round takes of `room`, so fuel suffices. -/
def Files.pathLoop (s : Files) : Nat → Nat → Option Nat → Name → Option Name
  | 0, _, _, _ => none
  | _ + 1, _, none, path => some path
  | fuel + 1, room, some c, path =>
    if c = rootNode then some path
    else if room < (s.node c).name.length + 1 then none
    else s.pathLoop fuel (room - ((s.node c).name.length + 1)) (s.node c).parent
      (slash :: (s.node c).name ++ path)

def Files.vfsPathOf (s : Files) (v cap : Nat) : Option Name :=
  if v = rootNode then some ([slash].take cap)
  else
    match s.pathLoop maxPath (maxPath - 1) (some v) [] with
    | none => none
    | some path => if cap < path.length + 1 then none else some path

/-- The calls on vnodes; `uninit` is the stack behind the name buffer. -/
inductive TreeCall where
  | open' (t : Task) (path : Name) (flags : Nat)
  | mkdir (t : Task) (path : Name)
  | symlink (t : Task) (uninit target path : Name)
  | rename (t : Task) (uninit old new : Name)
  | unlink (t : Task) (path : Name)
  | mkdirP (env : Caller) (path : Name)

/-- The vnodes after a call; `none` if links nest deeper than `fuel`. -/
def Files.treeCall (fuel : Nat) (s : Files) : TreeCall → Option Files
  | .open' t path flags => (sysOpen fuel s t path flags).map (·.files)
  | .mkdir t path => sysMkdir fuel s t path
  | .symlink t uninit target path => sysSymlink fuel s t uninit target path
  | .rename t uninit old new => sysRename fuel s t uninit old new
  | .unlink t path => (sysUnlink fuel s t path).map (·.getD s)
  | .mkdirP env path => some (s.vfsMkdirP env path)

/-- The vnodes that are reached from the root through directories. -/
inductive Files.Reached (s : Files) : Nat → Prop where
  | root : Reached s rootNode
  | child {p v : Nat} (above : Reached s p) (mem : v ∈ (s.node p).children) : Reached s v

structure GoodName (name : Name) : Prop where
  nonempty : name ≠ []
  noSlash : slash ∉ name
  notDot : name ≠ text "."
  notDots : name ≠ text ".."

/-- Vnodes have good names, different among siblings, and their path leads to them. -/
structure Files.WellFormed (s : Files) : Prop where
  names : ∀ v, v < s.next → v ≠ rootNode → GoodName (s.node v).name
  siblings : ∀ p, (s.node p).children.Pairwise fun v w => (s.node v).name ≠ (s.node w).name
  lookup : ∀ v cap path fuel, s.Reached v → (s.node v).kind ≠ .symlink → 2 ≤ cap →
    s.vfsPathOf v cap = some path → s.vfsLookupAt (fuel + 1) none path = some (some v)

end YartOS.Vfs
