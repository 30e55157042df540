import YartOS.Fs.Vnode
import Mathlib.Data.Nat.Log

/-! The bytes of a file in memory: a heap buffer with a capacity, 64-bit sizes and offsets that
wrap, and the doubling loop for a new capacity. -/
namespace YartOS.Vfs.Contents

open Bytes Fs Option

def wordSize : Nat := 2 ^ 64

def blkSectorSize : Nat := 512

/-- What contents use of `vnode_t`: `data` has `cap` bytes, `NULL` none. -/
structure FileNode where
  kind : Kind := .file
  size : Nat := 0
  cap : Nat := 0
  data : Buffer := zeros
  mtime : Nat := 0
  dirty : Bool := false
  dirtyB0 : Nat := 0
  dirtyB1 : Nat := 0

/-- A call touches a byte outside the buffer, or never ends. -/
inductive Fault where
  | outside
  | endless
deriving DecidableEq

/-- What `kmalloc` returns for a size: the contents of the new buffer, or `NULL`. -/
abbrev Heap := Nat → Option Buffer

def touch (cap lo len : Nat) : Except Fault Unit :=
  if len = 0 ∨ lo + len ≤ cap then .ok () else .error .outside

/-- `while (newcap < need) newcap *= 2`. After 64 turns the word is 0 and stays 0. -/
def capLoop (need : Nat) : Nat → Nat → Option Nat
  | 0, newcap => if newcap < need then none else some newcap
  | fuel + 1, newcap =>
    if newcap < need then capLoop need fuel (newcap * 2 % wordSize) else some newcap

def startCap (cap : Nat) : Nat := if cap = 0 then 64 else cap

/-- The flag tells whether the call returned 0. -/
def ensureCap (heap : Heap) (v : FileNode) (need : Nat) : Except Fault (Bool × FileNode) :=
  if need ≤ v.cap then .ok (true, v)
  else
    match capLoop need 64 (startCap v.cap) with
    | none => .error .endless
    | some newcap =>
      match heap newcap with
      | none => .ok (false, v)
      | some nb => do
          touch v.cap 0 v.size
          touch newcap 0 v.size
          return (true, { v with data := copyTo nb 0 v.data v.size, cap := newcap })

def toInt (n : Nat) : Int := if n % 2 ^ 32 < 2 ^ 31 then n % 2 ^ 32 else n % 2 ^ 32 - 2 ^ 32

def vfsRead (v : FileNode) (off n : Nat) : Except Fault (Int × Buffer) :=
  if v.kind ≠ .file then .ok (-1, zeros)
  else if v.size ≤ off then .ok (0, zeros)
  else do
    let n := if v.size < (off + n) % wordSize then v.size - off else n
    touch v.cap off n
    return (toInt n, fun i => v.data (off + i))

def markDirty (v : FileNode) (off stop now : Nat) : FileNode :=
  let b0 := off / blkSectorSize % 2 ^ 32
  let b1 := (stop + blkSectorSize - 1) % wordSize / blkSectorSize % 2 ^ 32
  { v with
    mtime := now
    dirty := true
    dirtyB0 := if b0 < v.dirtyB0 then b0 else v.dirtyB0
    dirtyB1 := if v.dirtyB1 < b1 then b1 else v.dirtyB1 }

def fillGap (v : FileNode) (off : Nat) : Except Fault FileNode :=
  if v.size < off then do
    touch v.cap v.size (off - v.size)
    return { v with data := copyTo v.data v.size zeros (off - v.size) }
  else .ok v

/-- The part of `vfs_write` behind `ensure_cap`; `stop` is `off + n`. -/
def storeAt (v : FileNode) (buf : Buffer) (off n stop now : Nat) : Except Fault (Int × FileNode) := do
  let v ← fillGap v off
  touch v.cap off n
  return (toInt n, markDirty { v with
    data := copyTo v.data off buf n
    size := if v.size < stop then stop else v.size } off stop now)

def vfsWrite (heap : Heap) (now : Nat) (v : FileNode) (buf : Buffer) (off n : Nat) : Except Fault (Int × FileNode) :=
  if v.kind ≠ .file then .ok (-1, v)
  else do
    let (grown, v) ← ensureCap heap v ((off + n) % wordSize)
    if grown then storeAt v buf off n ((off + n) % wordSize) now else return (-1, v)

def resized (v : FileNode) (n now : Nat) : FileNode :=
  { v with size := n, mtime := now, dirty := true, dirtyB0 := 0, dirtyB1 := 0xFFFFFFFF }

def vfsTruncate (heap : Heap) (now : Nat) (v : FileNode) (n : Nat) : Except Fault (Int × FileNode) :=
  if v.kind ≠ .file then .ok (-1, v)
  else if v.size < n then do
    let (grown, v) ← ensureCap heap v n
    if grown then
      let v ← fillGap v n
      return (0, resized v n now)
    else return (-1, v)
  else .ok (0, resized v n now)

/-- The new position in a file of `size` bytes; the 64-bit sum wraps. -/
def sysLseek (pos size off whence : Nat) : Option Nat :=
  match whence with
  | 0 => some (off % wordSize)
  | 1 => some ((pos + off) % wordSize)
  | 2 => some ((size + off) % wordSize)
  | _ => none

variable {need cap c n off now fuel : Nat} {v : FileNode} {heap : Heap} {buf : Buffer}

def doubled (c k : Nat) : Nat := c * 2 ^ k % wordSize

/-- Some number of doublings reaches `need`. -/
def DoublesTo (c need : Nat) : Prop := ∃ k < 64, need ≤ doubled c k

instance (c need : Nat) : Decidable (DoublesTo c need) := inferInstanceAs (Decidable (∃ k < 64, _))

lemma doubled_zero (hc : c < wordSize) : doubled c 0 = c := by
  rw [doubled, Nat.pow_zero, Nat.mul_one, Nat.mod_eq_of_lt hc]

lemma doubled_succ (c k : Nat) : doubled c (k + 1) = doubled (c * 2 % wordSize) k := by
  rw [doubled, doubled, Nat.mod_mul_mod, Nat.mul_assoc, ← Nat.pow_succ']

/-- The doublings from `c` up to the first that is large enough. -/
def StopsAt (need fuel c newcap : Nat) : Prop :=
  ∃ k ≤ fuel, doubled c k = newcap ∧ need ≤ newcap ∧ ∀ j < k, doubled c j < need

variable {newcap : Nat}

section

variable (hc : c < wordSize)

include hc

lemma stopsAt_iff_of_le (enough : need ≤ c) : StopsAt need fuel c newcap ↔ c = newcap := by
  constructor
  · rintro ⟨k, -, hStop, -, before⟩
    cases k with
    | zero => rw [← hStop, doubled_zero hc]
    | succ k =>
      have := before 0 (by omega)
      rw [doubled_zero hc] at this
      omega
  · rintro rfl
    exact ⟨0, Nat.zero_le _, doubled_zero hc, enough, by simp⟩

lemma stopsAt_succ_of_lt (short : c < need) :
    StopsAt need (fuel + 1) c newcap ↔ StopsAt need fuel (c * 2 % wordSize) newcap := by
  constructor
  · rintro ⟨k, hk, hStop, hEnough, before⟩
    cases k with
    | zero =>
      rw [doubled_zero hc] at hStop
      omega
    | succ k =>
      refine ⟨k, by omega, by rw [← doubled_succ, hStop], hEnough, fun j hj => ?_⟩
      rw [← doubled_succ]
      exact before (j + 1) (by omega)
  · rintro ⟨k, hk, hStop, hEnough, before⟩
    refine ⟨k + 1, by omega, by rw [doubled_succ, hStop], hEnough, fun j hj => ?_⟩
    cases j with
    | zero => rwa [doubled_zero hc]
    | succ j =>
      rw [doubled_succ]
      exact before j (by omega)

/-- The loop stops at the first doubling that is large enough. -/
lemma capLoop_eq_some_iff : capLoop need fuel c = some newcap ↔ StopsAt need fuel c newcap := by
  induction fuel generalizing c with
  | zero =>
    rw [capLoop]
    by_cases h : c < need
    · rw [if_pos h]
      refine iff_of_false nofun ?_
      rintro ⟨k, hk, hStop, hEnough, -⟩
      obtain rfl := Nat.le_zero.mp hk
      rw [doubled_zero hc] at hStop
      omega
    · rw [if_neg h, some.injEq, stopsAt_iff_of_le hc (by omega)]
  | succ fuel ih =>
    rw [capLoop]
    by_cases h : c < need
    · rw [if_pos h, ih (Nat.mod_lt _ (by decide)), stopsAt_succ_of_lt hc h]
    · rw [if_neg h, some.injEq, stopsAt_iff_of_le hc (by omega)]

/-- The loop ends exactly when some doubling is large enough. -/
lemma capLoop_isSome_iff (hNeed : 0 < need) : (capLoop need 64 c).isSome ↔ DoublesTo c need := by
  rw [isSome_iff_exists]
  constructor
  · rintro ⟨newcap, h⟩
    obtain ⟨k, hk, rfl, hEnough, -⟩ := (capLoop_eq_some_iff hc).mp h
    refine ⟨k, ?_, hEnough⟩
    by_contra hLast
    obtain rfl : k = 64 := by omega
    rw [show doubled c 64 = 0 from Nat.mul_mod_left c (2 ^ 64)] at hEnough
    omega
  · rintro ⟨k, hk, hEnough⟩
    classical
    have some : ∃ k, need ≤ doubled c k := ⟨k, hEnough⟩
    refine ⟨doubled c (Nat.find some), (capLoop_eq_some_iff hc).mpr
      ⟨Nat.find some, ?_, rfl, Nat.find_spec some, fun j hj => ?_⟩⟩
    · exact (Nat.find_min' some hEnough).trans hk.le
    · exact Nat.lt_of_not_le (Nat.find_min some hj)

end

/-- Every capacity reaches half of the address space. -/
lemma doublesTo_of_le (hc : 0 < c) (hWord : c < wordSize) (hNeed : need ≤ 2 ^ 63) : DoublesTo c need := by
  have hLog := Nat.lt_pow_succ_log_self Nat.one_lt_two c
  have hPow := Nat.pow_log_le_self 2 hc.ne'
  have hSmall : Nat.log 2 c < 64 := Nat.log_lt_of_lt_pow hc.ne' hWord
  refine ⟨63 - Nat.log 2 c, by omega, ?_⟩
  have hUpper : c * 2 ^ (63 - Nat.log 2 c) < wordSize := by
    calc c * 2 ^ (63 - Nat.log 2 c)
        < 2 ^ (Nat.log 2 c + 1) * 2 ^ (63 - Nat.log 2 c) := Nat.mul_lt_mul_of_pos_right hLog (Nat.two_pow_pos _)
      _ = 2 ^ 64 := by
          rw [← Nat.pow_add]
          congr 1
          omega
  rw [doubled, Nat.mod_eq_of_lt hUpper]
  calc need ≤ 2 ^ 63 := hNeed
    _ = 2 ^ Nat.log 2 c * 2 ^ (63 - Nat.log 2 c) := by
        rw [← Nat.pow_add]
        congr 1
        omega
    _ ≤ c * 2 ^ (63 - Nat.log 2 c) := Nat.mul_le_mul_right _ hPow

/-- `ensure_cap` makes room for `need` bytes, or fails and changes nothing. -/
def Ends (need : Nat) (v : FileNode) (call : Except Fault (Bool × FileNode)) : Prop :=
  call ≠ .error .endless ∧ ∀ grown v', call = .ok (grown, v') → if grown then need ≤ v'.cap else v' = v

/-- The buffer is large enough, or some doubling of its capacity is. -/
def CanGrow (v : FileNode) (need : Nat) : Prop := need ≤ v.cap ∨ DoublesTo (startCap v.cap) need

lemma bind_ne_endless {α β : Type} {x : Except Fault α} {rest : α → Except Fault β} (first : x ≠ .error .endless)
    (next : ∀ a, rest a ≠ .error .endless) : (x >>= rest) ≠ .error .endless := by
  cases x with
  | error fault => exact fun h => first (by cases h; rfl)
  | ok a => exact next a

lemma touch_ne_endless (cap lo len : Nat) : touch cap lo len ≠ .error .endless := by
  unfold touch
  split_ifs <;> nofun

lemma startCap_lt (hCap : v.cap < wordSize) : startCap v.cap < wordSize := by
  unfold startCap
  split_ifs
  · decide
  · exact hCap

lemma ensureCap_ends (hCap : v.cap < wordSize) (grows : CanGrow v need) : Ends need v (ensureCap heap v need) := by
  by_cases enough : need ≤ v.cap
  · rw [ensureCap, if_pos enough]
    refine ⟨nofun, ?_⟩
    intro grown v' h
    cases h
    exact enough
  have doubles := grows.resolve_left enough
  rw [← capLoop_isSome_iff (startCap_lt hCap) (by omega), isSome_iff_exists] at doubles
  obtain ⟨newcap, hLoop⟩ := doubles
  obtain ⟨-, -, -, hEnough, -⟩ := (capLoop_eq_some_iff (startCap_lt hCap)).mp hLoop
  unfold ensureCap
  simp only [if_neg enough, hLoop]
  cases heap newcap with
  | none =>
    refine ⟨nofun, ?_⟩
    intro grown v' h
    cases h
    rfl
  | some nb =>
    refine ⟨bind_ne_endless (touch_ne_endless _ _ _) fun _ =>
      bind_ne_endless (touch_ne_endless _ _ _) fun _ => nofun, ?_⟩
    intro grown v' h
    generalize touch v.cap 0 v.size = old at h
    generalize touch newcap 0 v.size = new at h
    cases old with
    | error fault => cases h
    | ok _ =>
      cases new with
      | error fault => cases h
      | ok _ =>
        cases h
        exact hEnough

lemma ensureCap_endless (hCap : v.cap < wordSize) (stuck : ¬ CanGrow v need) :
    ensureCap heap v need = .error .endless := by
  have short : ¬ need ≤ v.cap := fun h => stuck (.inl h)
  have hLoop : capLoop need 64 (startCap v.cap) = none := by
    rw [← not_isSome_iff_eq_none, capLoop_isSome_iff (startCap_lt hCap) (by omega)]
    exact fun h => stuck (.inr h)
  unfold ensureCap
  rw [if_neg short, hLoop]

lemma fillGap_ne_endless (v : FileNode) (off : Nat) : fillGap v off ≠ .error .endless := by
  unfold fillGap
  split_ifs
  · exact bind_ne_endless (touch_ne_endless _ _ _) fun _ => nofun
  · nofun

/-- A call that starts with `ensure_cap` hangs iff its loop does. -/
lemma endless_iff (hCap : v.cap < wordSize) {rest : Bool × FileNode → Except Fault (Int × FileNode)}
    (returns : ∀ r, rest r ≠ .error .endless) :
    (ensureCap heap v need >>= rest) ≠ .error .endless ↔ CanGrow v need := by
  constructor
  · intro h
    by_contra stuck
    rw [ensureCap_endless hCap stuck] at h
    exact h rfl
  · intro grows
    exact bind_ne_endless (ensureCap_ends hCap grows).1 returns

lemma vfsTruncate_ends_iff (hCap : v.cap < wordSize) (hFile : v.kind = .file) (hGrow : v.size < n) :
    vfsTruncate heap now v n ≠ .error .endless ↔ CanGrow v n := by
  unfold vfsTruncate
  rw [if_neg (not_not.mpr hFile), if_pos hGrow]
  apply endless_iff hCap
  rintro ⟨grown, v'⟩
  cases grown with
  | false => nofun
  | true => exact bind_ne_endless (fillGap_ne_endless v' n) fun _ => nofun

lemma vfsWrite_ends_iff (hCap : v.cap < wordSize) (hFile : v.kind = .file) (noWrap : off + n < wordSize) :
    vfsWrite heap now v buf off n ≠ .error .endless ↔ CanGrow v (off + n) := by
  unfold vfsWrite
  rw [if_neg (not_not.mpr hFile), Nat.mod_eq_of_lt noWrap]
  apply endless_iff hCap
  rintro ⟨grown, v'⟩
  cases grown with
  | false => nofun
  | true =>
    exact bind_ne_endless (fillGap_ne_endless v' off) fun v'' =>
      bind_ne_endless (touch_ne_endless _ _ _) fun _ => nofun

/-- The capacity loop ends with room, or fails without a change, iff the capacity or some doubling
of it (of 64, if new) suffices in 64 bits; then growing by `vfs_truncate` and `vfs_write` returns. -/
theorem growth_ends_iff (hCap : v.cap < wordSize) :
    ((∀ heap, Ends need v (ensureCap heap v need)) ↔ CanGrow v need) ∧ (v.kind = .file → v.size < need →
      ((∀ heap now, vfsTruncate heap now v need ≠ .error .endless) ↔ CanGrow v need)) ∧
    ∀ off n, v.kind = .file → off + n < wordSize → off + n = need →
      ((∀ heap now buf, vfsWrite heap now v buf off n ≠ .error .endless) ↔ CanGrow v need) := by
  refine ⟨⟨fun ends => ?_, fun grows heap => ensureCap_ends hCap grows⟩,
    fun hFile hGrow => ⟨fun ends => ?_, fun grows heap now => ?_⟩,
    fun off n hFile noWrap hNeed => ⟨fun ends => ?_, fun grows heap now buf => ?_⟩⟩
  · by_contra stuck
    exact (ends fun _ => none).1 (ensureCap_endless hCap stuck)
  · exact (vfsTruncate_ends_iff hCap hFile hGrow).mp (ends (fun _ => none) 0)
  · exact (vfsTruncate_ends_iff hCap hFile hGrow).mpr grows
  · rw [← hNeed]
    exact (vfsWrite_ends_iff hCap hFile noWrap).mp (ends (fun _ => none) 0 zeros)
  · rw [← hNeed] at grows
    exact (vfsWrite_ends_iff hCap hFile noWrap).mpr grows

theorem growth_ends_at_one_page : CanGrow {} 4096 ∧ ∀ heap now, vfsTruncate heap now {} 4096 ≠ .error .endless := by
  have grows : CanGrow {} 4096 := .inr (doublesTo_of_le (by decide) (by decide) (by decide))
  obtain ⟨-, truncates, -⟩ := @growth_ends_iff 4096 {} (by decide)
  exact ⟨grows, (truncates rfl (by decide)).mpr grows⟩

/-- Growing an empty file beyond half of the address space never returns. -/
theorem truncate_beyond_half_hangs : vfsTruncate (fun _ => none) 0 {} (2 ^ 63 + 1) = .error .endless := by
  by_contra returns
  have grows := (vfsTruncate_ends_iff (by decide) rfl (by decide)).mp returns
  revert grows
  unfold CanGrow
  decide

end YartOS.Vfs.Contents
