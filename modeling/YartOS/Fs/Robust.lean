import YartOS.Fs.Dirents
import YartOS.Fs.Ownership

/-! Mounting an image that somebody else wrote. -/
namespace YartOS.Fs

open Bytes

/-- What `mount_dir` visits of a directory in zeroed memory. -/
def visited (vol : Volume) (a : Nat) : Pass :=
  let din := rdInode vol a
  records (readFile vol din zeros).1 din.size (din.size / 8 + 1) 0

/-- The bytes of a directory in front of its first unmapped block. -/
def filled (vol : Volume) (a : Nat) : Nat := (readFile vol (rdInode vol a) zeros).2

/-- A step comes back, and has stayed inside. -/
def Inside (r : Option Visit) : Prop := ∃ v, r = some v ∧ v.wild = false

variable {env : Caller} {vol : Volume} {height : Nat → Nat} {walk : Walk} {buf buf' : Buffer}
  {size got fuel off b total : Nat} {inode : Inode}

end YartOS.Fs
