import Mathlib.Tactic.Ring

/-! User address space: its bounds, pages, and regions. Sums are taken in 64 bits. -/
namespace YartOS.Mm

def pageSize : Nat := 4096
def userVbase : Nat := 0x40000000
def userVfloor : Nat := 0x1000
def userStackTop : Nat := 0x80000000
def userMmapBase : Nat := 0x50000000
def userMmapEnd : Nat := 0x60000000
def maxUserRegions : Nat := 32

def wrap (x : Nat) : Nat := x % 2 ^ 64

def pageAlignDown (x : Nat) : Nat := x / pageSize * pageSize

def pageAlignUp (x : Nat) : Nat := pageAlignDown (wrap (x + (pageSize - 1)))

/-- The bits of a leaf entry; `cow` and `noshr` are the software bits. -/
structure PteFlags where
  rw : Bool := false
  us : Bool := false
  nx : Bool := false
  cow : Bool := false
  noshr : Bool := false
deriving DecidableEq

structure Region where
  start : Nat
  npages : Nat
  flags : PteFlags := {}

def Region.finish (r : Region) : Nat := wrap (r.start + wrap (r.npages * pageSize))

def findRegion (regions : List Region) (va : Nat) : Option Region :=
  regions.find? fun r => r.start ≤ va && va < r.finish

def reserveOk (regions : List Region) (va npages : Nat) : Bool :=
  let start := pageAlignDown va
  let finish := wrap (start + wrap (npages * pageSize))
  npages ≠ 0 && start ≤ finish && userVfloor ≤ start && finish ≤ userStackTop &&
    !(regions.any fun r => start < r.finish && r.start < finish) &&
    regions.length < maxUserRegions

lemma wrap_of_lt {x : Nat} (h : x < 2 ^ 64) : wrap x = x := Nat.mod_eq_of_lt h

lemma pageAlignDown_spec (x : Nat) :
    pageAlignDown x % pageSize = 0 ∧ pageAlignDown x ≤ x ∧ x < pageAlignDown x + pageSize := by
  unfold pageAlignDown pageSize
  omega

lemma pageAlignUp_spec {x : Nat} (h : x ≤ userStackTop) :
    pageAlignUp x % pageSize = 0 ∧ x ≤ pageAlignUp x ∧ pageAlignUp x < x + pageSize := by
  unfold pageAlignUp pageAlignDown wrap pageSize userStackTop at *
  omega

lemma pageAlignUp_lt (x : Nat) : pageAlignUp x < 2 ^ 64 := by
  unfold pageAlignUp pageAlignDown wrap pageSize
  omega

lemma pageAlignUp_div_mul (x : Nat) : pageAlignUp x / pageSize * pageSize = pageAlignUp x := by
  unfold pageAlignUp pageAlignDown pageSize
  omega

lemma pageAlignUp_idem (x : Nat) : pageAlignUp (pageAlignUp x) = pageAlignUp x := by
  unfold pageAlignUp pageAlignDown wrap pageSize
  omega

end YartOS.Mm
