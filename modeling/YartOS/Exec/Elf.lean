import YartOS.Lib.Bytes
import YartOS.Mm.Regions

/-! Loading of an executable file (`load_user_elf_into` and `apply_relocations`): the bytes of the
file that are read and the user addresses that are written. Sums are taken in 64 bits. -/
namespace YartOS.Exec

open Bytes Mm List

/-- The data of an executable vnode, a buffer in the kernel half. -/
structure File where
  data : Buffer
  size : Nat
  size_lt : size < 2 ^ 63

/-- `ehdr_t`, without the fields that nothing reads. -/
structure Ehdr where
  magic : Nat
  cls : Nat
  type : Nat
  machine : Nat
  entry : Nat
  phoff : Nat
  shoff : Nat
  phentsize : Nat
  phnum : Nat
  shentsize : Nat
  shnum : Nat

structure Phdr where
  type : Nat
  offset : Nat
  vaddr : Nat
  filesz : Nat
  memsz : Nat

structure Shdr where
  type : Nat
  offset : Nat
  size : Nat

def elfMagic : Nat := 0x464C457F
def emX8664 : Nat := 62
def etExec : Nat := 2
def etDyn : Nat := 3
def ptLoad : Nat := 1
def shtRela : Nat := 4
def rX8664Relative : Nat := 8

def sizeofEhdr : Nat := 64
def sizeofPhdr : Nat := 56
def sizeofShdr : Nat := 64

namespace File

variable (f : File)

def ehdr : Ehdr where
  magic := getU32 f.data 0
  cls := (f.data 4).toNat
  type := getU16 f.data 16
  machine := getU16 f.data 18
  entry := getU64 f.data 24
  phoff := getU64 f.data 32
  shoff := getU64 f.data 40
  phentsize := getU16 f.data 54
  phnum := getU16 f.data 56
  shentsize := getU16 f.data 58
  shnum := getU16 f.data 60

/-- `ph[i]`: the step is the size of `phdr_t`, not `phentsize`. -/
def phdr (i : Nat) : Phdr :=
  let at_ := f.ehdr.phoff + i * sizeofPhdr
  { type := getU32 f.data at_
    offset := getU64 f.data (at_ + 8)
    vaddr := getU64 f.data (at_ + 16)
    filesz := getU64 f.data (at_ + 32)
    memsz := getU64 f.data (at_ + 40) }

def shdr (i : Nat) : Shdr :=
  let at_ := f.ehdr.shoff + i * f.ehdr.shentsize
  { type := getU32 f.data (at_ + 4)
    offset := getU64 f.data (at_ + 24)
    size := getU64 f.data (at_ + 32) }

def segments : List Phdr := ((range f.ehdr.phnum).map f.phdr).filter (·.type = ptLoad)

end File

/-- Bytes of the file that are read, and user addresses that are written. -/
inductive Access where
  | read (off len : Nat)
  | write (addr len : Nat)
deriving DecidableEq

variable (f : File)

def headerOk : Bool :=
  sizeofEhdr ≤ f.size && f.ehdr.magic = elfMagic && f.ehdr.cls = 2 && f.ehdr.machine = emX8664 &&
    (f.ehdr.type = etDyn || f.ehdr.type = etExec) &&
    sizeofPhdr ≤ f.ehdr.phentsize && f.ehdr.phnum ≠ 0 && f.ehdr.phnum ≤ 64 &&
    f.ehdr.phoff ≤ f.size && wrap (f.ehdr.phoff + f.ehdr.phnum * sizeofPhdr) ≤ f.size

def minVa : Nat := if f.ehdr.type = etExec then 0x1000 else userVbase

def Phdr.va (bias : Nat) (ph : Phdr) : Nat := wrap (bias + ph.vaddr)

/-- The checks of the first pass for one segment. -/
def segmentOk (bias : Nat) (ph : Phdr) : Bool :=
  ph.va bias ≤ wrap (ph.va bias + ph.memsz) && minVa f ≤ ph.va bias &&
    wrap (ph.va bias + ph.memsz) ≤ userStackTop && ph.offset ≤ f.size &&
    wrap (ph.offset + ph.filesz) ≤ f.size

def noSpan : Nat := 2 ^ 64 - 1

def growSpan (bias : Nat) (span : Nat × Nat) (ph : Phdr) : Nat × Nat :=
  (min span.1 (pageAlignDown (ph.va bias)), max span.2 (pageAlignUp (wrap (ph.va bias + ph.memsz))))

def span (bias : Nat) (segments : List Phdr) : Nat × Nat := segments.foldl (growSpan bias) (noSpan, 0)

def copyPage (bias a : Nat) (ph : Phdr) : List Access :=
  let sva := ph.va bias
  if wrap (a + pageSize) ≤ sva ∨ wrap (sva + ph.memsz) ≤ a then []
  else if wrap (a + pageSize) ≤ sva ∨ wrap (sva + ph.filesz) ≤ a then []
  else
    let dst := max a sva
    let n := wrap (min (wrap (a + pageSize)) (wrap (sva + ph.filesz)) + (2 ^ 64 - dst))
    [.read (wrap (ph.offset + (dst - sva))) n, .write dst n]

def pages (first last : Nat) : List Nat := (range ((last - first) / pageSize)).map (first + · * pageSize)

/-- What loading did: its accesses in order, the reserved span, and the entry point, 0 on failure. -/
structure Loaded where
  accesses : List Access
  span : Nat × Nat := (0, 0)
  entry : Nat := 0

def loadUserElfInto (bias : Nat) (regions : List Region) : Loaded :=
  if f.size < sizeofEhdr then { accesses := [] }
  else if !headerOk f then { accesses := [.read 0 sizeofEhdr] }
  else
    let headers := [.read 0 sizeofEhdr, .read f.ehdr.phoff (f.ehdr.phnum * sizeofPhdr)]
    let (first, last) := span bias f.segments
    if !(f.segments.all (segmentOk f bias)) || first = noSpan || last ≤ first ||
        !reserveOk regions first ((last - first) / pageSize) then
      { accesses := headers }
    else
      { accesses := headers ++ (pages first last).flatMap fun a => f.segments.flatMap (copyPage bias a)
        span := (first, last)
        entry := wrap (bias + f.ehdr.entry) }

def applyRelocation (bias at_ : Nat) : List Access :=
  .read at_ 24 :: (if getU64 f.data (at_ + 8) % 2 ^ 32 = rX8664Relative then
      [.write (wrap (bias + getU64 f.data at_)) 8] else [])

/-- The entries of one section; where `off + 24` wraps, those of the first rounds. -/
def applySection (bias : Nat) (sh : Shdr) : List Access :=
  if sh.type ≠ shtRela ∨ f.size < sh.offset ∨ f.size < wrap (sh.offset + sh.size) then []
  else (range (sh.size / 24)).flatMap fun k => applyRelocation f bias (sh.offset + k * 24)

def applyRelocations (bias : Nat) : List Access :=
  if f.ehdr.shoff = 0 ∨ f.ehdr.shnum = 0 ∨ f.ehdr.shentsize < sizeofShdr ∨ f.size < f.ehdr.shoff ∨
      f.size < wrap (f.ehdr.shoff + f.ehdr.shnum * f.ehdr.shentsize) then []
  else
    (range f.ehdr.shnum).flatMap fun i =>
      .read (f.ehdr.shoff + i * f.ehdr.shentsize) sizeofShdr :: applySection f bias (f.shdr i)

def loadAndRelocate (bias : Nat) (regions : List Region) : Loaded :=
  let loaded := loadUserElfInto f bias regions
  if loaded.entry = 0 then loaded
  else { loaded with accesses := loaded.accesses ++ applyRelocations f bias }

end YartOS.Exec
