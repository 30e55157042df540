import YartOS.Fs.Vnode
import YartOS.Sched.Descriptors

/-! The vnodes of `kernel/fs/vfs.c` with links, path lookup, and the operations both ABIs share. -/
namespace YartOS.Vfs

open Fs Bytes

/-- A vnode with its links; other vnodes are named by numbers. -/
structure Node extends Vnode where
  parent : Option Nat := none
  children : List Nat := []
  /-- User and mask of each entry. -/
  acl : List (Nat × Nat) := []

structure Pty where
  inUse : Bool := false
  locked : Bool := false

/-- What file system calls work on; `next` is the number of the next new vnode. -/
structure Files where
  node : Nat → Node
  next : Nat
  ptys : List Pty := List.replicate 16 {}
  now : Nat := 0

def rootNode : Nat := 0

def slash : UInt8 := 47

/-- The parts that the loops of the lookups cut off a path, at most 95 bytes each. -/
def lookupParts : Nat → Name → List Name
  | 0, _ => []
  | fuel + 1, s =>
    if s.isEmpty then []
    else
      let part := (s.takeWhile (· ≠ slash)).take (maxName - 1)
      part :: lookupParts fuel ((s.drop part.length).dropWhile (· = slash))

namespace Files

variable (s : Files)

def setNode (v : Nat) (n : Node) : Files := { s with node := Function.update s.node v n }

def findChild (p : Nat) (name : Name) : Option Nat :=
  if (s.node p).kind ≠ .dir then none
  else (s.node p).children.find? fun c => (s.node c).name = name

def linkTarget (v : Nat) : Name := cstr (s.node v).data 0 (s.node v).size

/-- The loop of `resolve_link`: `none` if a lookup does not return, `some none` if there is no such
vnode. -/
def followLinks (lookup : Option Nat → Name → Option (Option Nat)) : Nat → Nat → Option (Option Nat)
  | 0, v => some (some v)
  | depth + 1, v =>
    if (s.node v).kind ≠ .symlink then some (some v)
    else
      let target := s.linkTarget v
      if target.isEmpty then some none
      else
        match lookup (if target.head? = some slash then some rootNode else (s.node v).parent) target with
        | none => none
        | some none => some none
        | some (some v) => followLinks lookup depth v

/-- The loop over the parts from `cur`; with `follow` the last is resolved. -/
def walk (resolve : Nat → Option (Option Nat)) (follow : Bool) : Nat → List Name → Option (Option Nat)
  | cur, [] => some (some cur)
  | cur, part :: rest =>
    if part.isEmpty ∨ part = text "." then walk resolve follow cur rest
    else if part = text ".." then walk resolve follow ((s.node cur).parent.getD cur) rest
    else
      match s.findChild cur part with
      | none => some none
      | some child =>
        if rest.isEmpty ∧ !follow then some (some child)
        else
          match resolve child with
          | none => none
          | some none => some none
          | some (some v) => walk resolve follow v rest

def start (cwd : Option Nat) (path : Name) : Nat :=
  if path.head? = some slash then rootNode else cwd.getD rootNode

/-- The common form of the two lookups. -/
def lookupFrom (resolve : Nat → Option (Option Nat)) (follow : Bool) (cwd : Option Nat) (path : Name) :
    Option (Option Nat) :=
  if path.isEmpty ∨ path = [slash] then some (some (start cwd path))
  else
    let names := if path.head? = some slash then path.tail else path
    s.walk resolve follow (start cwd path) (lookupParts names.length names)

/-- `fuel` bounds the nesting of lookups of link targets; the source has no bound. -/
def vfsLookupAt : Nat → Option Nat → Name → Option (Option Nat)
  | 0, _, _ => none
  | fuel + 1, cwd, path => s.lookupFrom (s.followLinks (vfsLookupAt fuel) 8) true cwd path

def vfsLookupAtNofollow (fuel : Nat) (cwd : Option Nat) (path : Name) : Option (Option Nat) :=
  s.lookupFrom (s.followLinks (s.vfsLookupAt fuel) 8) false cwd path

/-- `vfs_create`: the new vnode is the last child. -/
def vfsCreate (env : Caller) (parent : Nat) (name : Name) (kind : Kind) : Option (Files × Nat) :=
  if (s.node parent).kind ≠ .dir ∨ (s.findChild parent name).isSome then none
  else
    let p := s.node parent
    let s' := s.setNode parent { p with children := p.children ++ [s.next], dirty := true }
    some ({ s' with next := s.next + 1 }.setNode s.next
      { mknode env name kind with dirty := true, parent := some parent }, s.next)

/-- `vfs_truncate` to length 0. -/
def vfsTruncate (v : Nat) : Files := s.setNode v { s.node v with size := 0, mtime := s.now, dirty := true }

def vfsUnlink (v : Nat) : Option Files :=
  match (s.node v).parent with
  | none => none
  | some p =>
    if (s.node v).kind = .dir ∧ (s.node v).children ≠ [] then none
    else
      let s' := s.setNode p { s.node p with children := (s.node p).children.erase v, dirty := true }
      some (s'.setNode v { s'.node v with parent := none })

end Files

/-- Both ABIs start at the root for a path with a leading slash, whatever the base. -/
lemma Files.lookupFrom_absolute (s : Files) (resolve : Nat → Option (Option Nat)) (follow : Bool)
    (cwd : Nat) (path : Name) :
    s.lookupFrom resolve follow (some (if path.head? = some slash then rootNode else cwd)) path =
      s.lookupFrom resolve follow (some cwd) path := by
  unfold lookupFrom start
  by_cases h : path.head? = some slash <;> simp [h]

end YartOS.Vfs
