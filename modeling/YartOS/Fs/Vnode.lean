import YartOS.Lib.Bytes

/-! The vnode tree in memory (`kernel/fs/vfs.c`), its operations, and the tree of `vfs_init`. -/
namespace YartOS.Fs

open Bytes

/-- The bytes of a C string before the terminating zero. -/
abbrev Name := List UInt8

def text (s : String) : Name := s.toByteArray.data.toList

def ofBytes (l : List UInt8) : Buffer := fun i => l.getD i 0

def maxName : Nat := 96

inductive Kind where
  | file
  | dir
  | symlink
deriving DecidableEq

/-- `vnode_t`; the bytes of `data` from `size` on mean nothing. -/
structure Vnode where
  name : Name
  kind : Kind
  ino : Nat := 0
  size : Nat := 0
  data : Buffer := zeros
  mtime : Nat := 0
  uid : Nat := 0
  gid : Nat := 0
  mode : Nat := 0
  dirty : Bool := false

/-- A list of siblings, each with its children, linked as in the source. -/
inductive Forest where
  | nil
  | cons (v : Vnode) (child sibling : Forest)

structure Tree where
  root : Vnode
  child : Forest := .nil

/-- What a new node takes from the running process and the clock, and the bytes that fresh memory
of `kmalloc` holds. -/
structure Caller where
  euid : Nat := 0
  egid : Nat := 0
  umask : Nat := 0
  now : Nat := 0
  memory : Buffer := zeros

def mknode (env : Caller) (name : Name) (kind : Kind) : Vnode where
  name := name.take (maxName - 1)
  kind := kind
  mtime := env.now
  uid := env.euid
  gid := env.egid
  mode := (if kind = .dir then 0o755 else 0o644) &&& (0xFFFF ^^^ env.umask % 2 ^ 16)

namespace Forest

def isNil : Forest → Bool
  | nil => true
  | cons _ _ _ => false

/-- `attach`: a new node goes to the end of the sibling list. -/
def attach : Forest → Vnode → Forest → Forest
  | nil, u, below => cons u below nil
  | cons v child sibling, u, below => cons v child (attach sibling u below)

def findChild : Forest → Name → Option (Vnode × Forest)
  | nil, _ => none
  | cons v child sibling, name =>
    if v.name = name then some (v, child) else findChild sibling name

def onChild (name : Name) (change : Vnode → Forest → Vnode × Forest) : Forest → Forest
  | nil => nil
  | cons v child sibling =>
    if v.name = name then cons (change v child).1 (change v child).2 sibling
    else cons v child (onChild name change sibling)

def get : Forest → Nat → Option (Vnode × Forest)
  | nil, _ => none
  | cons v child _, 0 => some (v, child)
  | cons _ _ sibling, i + 1 => get sibling i

def erase : Forest → Nat → Forest
  | nil, _ => nil
  | cons _ _ sibling, 0 => sibling
  | cons v child sibling, i + 1 => cons v child (erase sibling i)

def find : Forest → Nat → List Nat → Option (Vnode × Forest)
  | nil, _, _ => none
  | cons v child _, 0, [] => some (v, child)
  | cons _ child _, 0, j :: path => find child j path
  | cons _ _ sibling, i + 1, path => find sibling i path

def update (change : Vnode → Forest → Vnode × Forest) : Forest → Nat → List Nat → Forest
  | nil, _, _ => nil
  | cons v child sibling, 0, [] => cons (change v child).1 (change v child).2 sibling
  | cons v child sibling, 0, j :: path => cons v (update change child j path) sibling
  | cons v child sibling, i + 1, path => cons v child (update change sibling i path)

def nodes : Forest → List Vnode
  | nil => []
  | cons v child sibling => v :: (nodes child ++ nodes sibling)

end Forest

namespace Tree

def find (t : Tree) : List Nat → Option (Vnode × Forest)
  | [] => some (t.root, t.child)
  | i :: path => t.child.find i path

def update (t : Tree) (change : Vnode → Forest → Vnode × Forest) : List Nat → Tree
  | [] => { root := (change t.root t.child).1, child := (change t.root t.child).2 }
  | i :: path => { t with child := t.child.update change i path }

def nodes (t : Tree) : List Vnode := t.root :: t.child.nodes

end Tree

variable (env : Caller)

def vfsCreate (name : Name) (kind : Kind) (v : Vnode) (child : Forest) : Vnode × Forest :=
  if v.kind ≠ .dir ∨ (child.findChild name).isSome then (v, child)
  else ({ v with dirty := true }, child.attach { mknode env name kind with dirty := true } .nil)

def vfsSymlink (name target : Name) (v : Vnode) (child : Forest) : Vnode × Forest :=
  if v.kind ≠ .dir ∨ (child.findChild name).isSome then (v, child)
  else
    ({ v with dirty := true }, child.attach { mknode env name .symlink with
        data := ofBytes target, size := target.length, mode := 0o777, dirty := true } .nil)

/-- `n` bytes of `buf` written at `off`; a gap is filled with zeros. -/
def vfsWrite (buf : Buffer) (off n : Nat) (v : Vnode) (child : Forest) : Vnode × Forest :=
  if v.kind ≠ .file then (v, child)
  else
    let data := if v.size < off then copyTo v.data v.size zeros (off - v.size) else v.data
    ({ v with
        data := copyTo data off buf n
        size := if v.size < off + n then off + n else v.size
        mtime := env.now
        dirty := true }, child)

def vfsTruncate (n : Nat) (v : Vnode) (child : Forest) : Vnode × Forest :=
  if v.kind ≠ .file then (v, child)
  else
    ({ v with
        data := if v.size < n then copyTo v.data v.size zeros (n - v.size) else v.data
        size := n
        mtime := env.now
        dirty := true }, child)

def detach (i : Nat) (v : Vnode) (child : Forest) : Vnode × Forest := ({ v with dirty := true }, child.erase i)

/-- The first node of the name if it is a directory; otherwise a new one is made. -/
def findOrMakeDir (name : Name) (change : Vnode → Forest → Vnode × Forest)
    (child : Forest) : Forest :=
  let fresh := change (mknode env name .dir) .nil
  match child.findChild name with
  | some (v, _) =>
    if v.kind = .dir then child.onChild name change else child.attach fresh.1 fresh.2
  | none => child.attach fresh.1 fresh.2

def makeDirs (env : Caller) : List Name → Vnode → Forest → Vnode × Forest
  | [], v, child => (v, child)
  | name :: names, v, child => (v, findOrMakeDir env name (makeDirs env names) child)

/-- The parts of a path with the flag `last`; a part longer than a name is cut. -/
def pathParts : Nat → Name → List (Name × Bool)
  | 0, _ => []
  | fuel + 1, s =>
    let part := (s.takeWhile (· ≠ 47)).take (maxName - 1)
    let rest := s.drop part.length
    if part.isEmpty then []
    else
      (part, rest.isEmpty || rest == [47]) :: pathParts fuel (if rest.head? = some 47 then rest.tail else rest)

/-- Leading slashes and leading `./` are dropped. -/
def stripPath : Nat → Name → Name
  | 0, s => s
  | fuel + 1, s =>
    let s := s.dropWhile (· = 47)
    if s.head? = some 46 ∧ (s.tail.isEmpty ∨ s.tail.head? = some 47) then stripPath fuel s.tail
    else s

/-- The node of an initrd file; an existing node is overwritten. -/
def fillFile (data : Buffer) (size mode : Nat) (v : Vnode) : Vnode :=
  let v := if mode = 0 then v else { v with mode := mode &&& 0o777, dirty := false }
  if size = 0 then v else { v with data := data, size := size }

def insertParts (env : Caller) (kind : Kind) (data : Buffer) (size mode : Nat) :
    List (Name × Bool) → Vnode → Forest → Vnode × Forest
  | [], v, child => (v, child)
  | (part, last) :: rest, v, child =>
    if part = text "." then insertParts env kind data size mode rest v child
    else if !last ∨ kind = .dir then
      (v, findOrMakeDir env part (insertParts env kind data size mode rest) child)
    else if (child.findChild part).isSome then
      (v, child.onChild part fun f below => (fillFile data size mode f, below))
    else (v, child.attach (fillFile data size mode (mknode env part .file)) .nil)

def insertPath (path : Name) (kind : Kind) (data : Buffer) (size mode : Nat)
    (t : Tree) : Tree :=
  let parts := pathParts path.length (stripPath path.length path)
  t.update (insertParts env kind data size mode parts) []

def cstr (b : Buffer) (off : Nat) : Nat → Name
  | 0 => []
  | n + 1 => if b off = 0 then [] else b off :: cstr b (off + 1) n

def oct (b : Buffer) (off : Nat) : Nat → Nat → Nat
  | 0, acc => acc
  | n + 1, acc =>
    if b off < 48 ∨ 55 < b off then acc
    else oct b (off + 1) n (acc * 8 + ((b off).toNat - 48))

def headerPath (b : Buffer) (p : Nat) : Name :=
  if b (p + 345) = 0 then cstr b p 255
  else
    let front := cstr b (p + 345) 254
    front ++ 47 :: cstr b p (254 - front.length)

/-- The import loop over USTAR headers; `p` is the offset in the initrd. -/
def importInitrd (env : Caller) (b : Buffer) (total : Nat) : Nat → Nat → Tree → Tree
  | 0, _, t => t
  | fuel + 1, p, t =>
    if total < p + 512 ∨ b p = 0 ∨ cstr b (p + 257) 5 ≠ text "ustar" then t
    else
      let size := oct b (p + 124) 12 0
      let path := headerPath b p
      let kind := if b (p + 156) = 53 ∨ path.getLast? = some 47 then Kind.dir else Kind.file
      let mode := oct b (p + 100) 8 0 % 2 ^ 16
      importInitrd env b total fuel (p + 512 + (size + 511) / 512 * 512)
        (insertPath env path kind (fun i => b (p + 512 + i)) size mode t)

def skeleton : List (List Name) :=
  [[text "bin"], [text "sbin"], [text "lib"], [text "etc"], [text "dev"],
    [text "dev", text "pts"], [text "proc"], [text "proc", text "self"],
    [text "proc", text "self", text "fd"], [text "sys"], [text "root"], [text "home"],
    [text "home", text "yart"], [text "tmp"], [text "var"], [text "var", text "run"],
    [text "var", text "log"], [text "var", text "cache"], [text "run"], [text "usr"],
    [text "usr", text "bin"], [text "usr", text "sbin"], [text "usr", text "lib"],
    [text "usr", text "share"]]

def setContent (content : Name) (mode : Nat) (v : Vnode) (child : Forest) : Vnode × Forest :=
  if v.kind = .file then
    ({ v with
        data := ofBytes content
        size := content.length
        mode := if mode = 0 then v.mode else mode }, child)
  else (v, child)

def setFileContent (dir name content : Name) (mode : Nat) (v : Vnode)
    (child : Forest) : Vnode × Forest :=
  let (v, child) :=
    if (child.findChild dir).isSome then (v, child) else vfsCreate env dir .dir v child
  (v, child.onChild dir fun d files =>
    if d.kind ≠ .dir then (d, files)
    else
      let (d, files) := vfsCreate env name .file d files
      (d, files.onChild name (setContent content mode)))

/-- Directory, name, contents and mode of the files that `vfs_init` seeds. -/
def seedFiles : List (Name × Name × Name × Nat) :=
  [(text "etc", text "passwd", text "root:x:0:0:root:/root:/bin/sh\nyart:x:1000:1000:yart:/home/yart:/bin/sh\n", 0o644),
    (text "etc", text "group", text "root:x:0:\nwheel:x:10:yart\nyart:x:1000:\n", 0o644),
    (text "etc", text "hosts", text "127.0.0.1 localhost\n::1 localhost\n", 0o644),
    (text "etc", text "resolv.conf", text "nameserver 10.0.2.3\n", 0o644),
    (text "etc", text "os-release", text ("NAME=\"Alpine Linux\"\nID=alpine\nVERSION_ID=3.20.0\n" ++
      "PRETTY_NAME=\"Alpine Linux v3.20 (YartOS)\"\n"), 0o644),
    (text "etc", text "alpine-release", text "3.20.0\n", 0o644),
    (text "proc", text "mounts", text ("rootfs / rootfs rw 0 0\nproc /proc proc rw 0 0\n" ++
      "devtmpfs /dev devtmpfs rw 0 0\ndevpts /dev/pts devpts rw 0 0\ntmpfs /tmp tmpfs rw 0 0\n"),
      0o444),
    (text "proc", text "version",
      text "Linux version 6.6.0-yart (gcc 14) #1 SMP PREEMPT Fri Aug 28 2026 x86_64\n", 0o444),
    (text "proc", text "cpuinfo", text ("processor\t: 0\nvendor_id\t: GenuineIntel\n" ++
      "cpu family\t: 6\nmodel name\t: YartOS Virtual x86_64 CPU\nflags\t\t: fpu vme de pse tsc " ++
      "msr pae mce cx8 apic sep mtrr pge mca cmov pat pse36 clflush mmx fxsr sse sse2 ss syscall " ++
      "nx lm constant_tsc rep_good nopl cpuid pni pclmulqdq ssse3 fma cx16 sse4_1 sse4_2 x2apic " ++
      "movbe popcnt aes xsave avx f16c rdrand\n\n"), 0o444),
    (text "proc", text "meminfo", text ("MemTotal:        1048576 kB\n" ++
      "MemFree:          800000 kB\nMemAvailable:     800000 kB\nBuffers:           32000 kB\n" ++
      "Cached:            64000 kB\n"), 0o444),
    (text "proc", text "uptime", text "100.00 100.00\n", 0o444),
    (text "dev", text "null", [], 0o666), (text "dev", text "zero", [], 0o666),
    (text "dev", text "urandom", [], 0o666), (text "dev", text "random", [], 0o666),
    (text "dev", text "tty", [], 0o666), (text "dev", text "ptmx", [], 0o666)]

def makeSkeleton (dirs : List (List Name)) (t : Tree) : Tree :=
  dirs.foldl (fun t names => t.update (makeDirs env names) []) t

def seed (files : List (Name × Name × Name × Nat)) (t : Tree) : Tree :=
  files.foldl (fun t (dir, name, content, mode) =>
    t.update (setFileContent env dir name content mode) []) t

/-- `vfs_init` on an initrd of `total` bytes; `total` is `0` when there is none. -/
def vfsInit (initrd : Buffer) (total : Nat) : Tree :=
  let t := makeSkeleton env skeleton { root := mknode env (text "/") .dir }
  let t := if total < 512 then t else importInitrd env initrd total (total / 512) 0 t
  seed env seedFiles t

end YartOS.Fs
