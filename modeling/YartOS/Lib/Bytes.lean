import Mathlib.Data.Nat.Bitwise
import Mathlib.Data.UInt

/-! Buffers of bytes, little-endian words in them, and bit sets. A buffer is a function of the
offset. -/
namespace YartOS.Bytes

open Function

/-- The contents of a buffer, offset by offset. -/
abbrev Buffer := Nat → UInt8

def zeros : Buffer := fun _ => 0

def getU16 (b : Buffer) (off : Nat) : Nat := (b off).toNat + 2 ^ 8 * (b (off + 1)).toNat

def getU32 (b : Buffer) (off : Nat) : Nat :=
  (b off).toNat + 2 ^ 8 * (b (off + 1)).toNat + 2 ^ 16 * (b (off + 2)).toNat + 2 ^ 24 * (b (off + 3)).toNat

def getU64 (b : Buffer) (off : Nat) : Nat := getU32 b off + 2 ^ 32 * getU32 b (off + 4)

def byteOf (x k : Nat) : UInt8 := UInt8.ofNat (x / 2 ^ (8 * k))

def putU32 (b : Buffer) (off x : Nat) : Buffer :=
  fun i => if off ≤ i ∧ i < off + 4 then byteOf x (i - off) else b i

def putU64 (b : Buffer) (off x : Nat) : Buffer :=
  fun i => if off ≤ i ∧ i < off + 8 then byteOf x (i - off) else b i

def putWords (b : Buffer) (off : Nat) : List Nat → Buffer
  | [] => b
  | x :: xs => putWords (putU64 b off x) (off + 8) xs

def copyTo (b : Buffer) (off : Nat) (src : Buffer) (len : Nat) : Buffer :=
  fun i => if off ≤ i ∧ i < off + len then src (i - off) else b i

/-- A structure of 32-bit words as it lies in memory. -/
def packWords (w : Nat → Nat) : Buffer := fun i => byteOf (w (i / 4)) (i % 4)

variable {b b' src : Buffer} {off pos len x : Nat} {w : Nat → Nat}

lemma toNat_byteOf (x k : Nat) : (byteOf x k).toNat = x / 2 ^ (8 * k) % 256 := rfl

lemma getU16_lt (b : Buffer) (off : Nat) : getU16 b off < 2 ^ 16 := by
  have h0 := (b off).toNat_lt
  have h1 := (b (off + 1)).toNat_lt
  unfold getU16
  omega

lemma getU32_lt (b : Buffer) (off : Nat) : getU32 b off < 2 ^ 32 := by
  have h0 := (b off).toNat_lt
  have h1 := (b (off + 1)).toNat_lt
  have h2 := (b (off + 2)).toNat_lt
  have h3 := (b (off + 3)).toNat_lt
  unfold getU32
  omega

lemma getU64_lt (b : Buffer) (off : Nat) : getU64 b off < 2 ^ 64 := by
  have low := getU32_lt b off
  have high := getU32_lt b (off + 4)
  unfold getU64
  omega

lemma getU32_congr (same : ∀ i, off ≤ i → i < off + 4 → b i = b' i) : getU32 b off = getU32 b' off := by
  unfold getU32
  rw [same off (by omega) (by omega), same (off + 1) (by omega) (by omega),
    same (off + 2) (by omega) (by omega), same (off + 3) (by omega) (by omega)]

/-- Four bytes of a word, read back. -/
lemma getU32_of_bytes (bytes : ∀ k < 4, b (off + k) = byteOf x k) : getU32 b off = x % 2 ^ 32 := by
  unfold getU32
  rw [show b off = byteOf x 0 from bytes 0 (by omega), bytes 1 (by omega), bytes 2 (by omega), bytes 3 (by omega)]
  simp only [toNat_byteOf]
  omega

lemma getU32_putU32_self : getU32 (putU32 b off x) off = x % 2 ^ 32 := by
  apply getU32_of_bytes
  intro k hk
  unfold putU32
  rw [if_pos (by omega), show off + k - off = k by omega]

lemma getU32_putU32_of_apart (apart : off + 4 ≤ pos ∨ pos + 4 ≤ off) : getU32 (putU32 b off x) pos = getU32 b pos := by
  apply getU32_congr
  intro i hlo hhi
  exact if_neg (by omega)

lemma getU32_copyTo_of_inside (inside : off ≤ pos ∧ pos + 4 ≤ off + len) :
    getU32 (copyTo b off src len) pos = getU32 src (pos - off) := by
  have at_ : ∀ k < 4, copyTo b off src len (pos + k) = src (pos - off + k) := by
    intro k hk
    unfold copyTo
    rw [if_pos (by omega), show pos + k - off = pos - off + k by omega]
  unfold getU32
  rw [show copyTo b off src len pos = src (pos - off) from at_ 0 (by omega), at_ 1 (by omega),
    at_ 2 (by omega), at_ 3 (by omega)]

lemma getU32_copyTo_of_apart (apart : off + len ≤ pos ∨ pos + 4 ≤ off) :
    getU32 (copyTo b off src len) pos = getU32 b pos := by
  apply getU32_congr
  intro i hlo hhi
  exact if_neg (by omega)

@[simp] lemma copyTo_zero : copyTo b off src 0 = b := by
  funext i
  exact if_neg (by omega)

lemma copyTo_congr {src' : Buffer} (same : ∀ i < len, src i = src' i) :
    copyTo b off src len = copyTo b off src' len := by
  funext i
  unfold copyTo
  split
  · exact same _ (by omega)
  · rfl

/-- Copying the rest where the first part ends. -/
lemma copyTo_copyTo {len' : Nat} : copyTo (copyTo b off src len) (off + len) (fun i => src (len + i)) len' =
      copyTo b off src (len + len') := by
  funext i
  unfold copyTo
  by_cases hRest : off + len ≤ i ∧ i < off + len + len'
  · rw [if_pos hRest, if_pos (by omega)]
    exact congrArg src (by omega)
  · rw [if_neg hRest]
    split
    · rw [if_pos (by omega)]
    · rw [if_neg (by omega)]

lemma getU32_packWords (w : Nat → Nat) (i : Nat) : getU32 (packWords w) (4 * i) = w i % 2 ^ 32 := by
  apply getU32_of_bytes
  intro k hk
  unfold packWords
  rw [show (4 * i + k) / 4 = i by omega, show (4 * i + k) % 4 = k by omega]

lemma getU64_congr (same : ∀ i, off ≤ i → i < off + 8 → b i = b' i) : getU64 b off = getU64 b' off := by
  unfold getU64
  rw [getU32_congr fun i lo hi => same i (by omega) (by omega),
    getU32_congr fun i lo hi => same i (by omega) (by omega)]

/-- A word determines its bytes. -/
lemma bytes_eq_of_getU64_eq (h : getU64 b off = getU64 b' off) {i : Nat} (lo : off ≤ i) (hi : i < off + 8) :
    b i = b' i := by
  have lt : ∀ k, (b (off + k)).toNat < 256 ∧ (b' (off + k)).toNat < 256 := fun k =>
    ⟨(b (off + k)).toNat_lt, (b' (off + k)).toNat_lt⟩
  have h0 := lt 0
  have h1 := lt 1
  have h2 := lt 2
  have h3 := lt 3
  have h4 := lt 4
  have h5 := lt 5
  have h6 := lt 6
  obtain ⟨k, rfl⟩ : ∃ k, i = off + k := ⟨i - off, by omega⟩
  apply UInt8.toNat_inj.mp
  simp only [getU64, getU32, add_assoc, Nat.reduceAdd, add_zero] at h h0
  obtain rfl | rfl | rfl | rfl | rfl | rfl | rfl | rfl :
      k = 0 ∨ k = 1 ∨ k = 2 ∨ k = 3 ∨ k = 4 ∨ k = 5 ∨ k = 6 ∨ k = 7 := by omega
  all_goals (try rw [add_zero]); omega

lemma getU64_putU64_self : getU64 (putU64 b off x) off = x % 2 ^ 64 := by
  have low : getU32 (putU64 b off x) off = x % 2 ^ 32 := getU32_of_bytes fun k hk => by
    unfold putU64
    rw [if_pos (by omega), show off + k - off = k by omega]
  have high : getU32 (putU64 b off x) (off + 4) = x / 2 ^ 32 % 2 ^ 32 := getU32_of_bytes fun k hk => by
    unfold putU64 byteOf
    rw [if_pos (by omega), show off + 4 + k - off = 4 + k by omega, Nat.div_div_eq_div_mul, ← pow_add]
    rw [show 32 + 8 * k = 8 * (4 + k) by omega]
  unfold getU64
  omega

variable {i k fuel : Nat} {xs : List Nat} {p : Nat → Bool}

lemma putU64_of_apart (apart : i < off ∨ off + 8 ≤ i) : putU64 b off x i = b i := if_neg (by omega)

lemma getU64_putWords_of_apart (apart : pos + 8 ≤ off) : getU64 (putWords b off xs) pos = getU64 b pos := by
  induction xs generalizing b off with
  | nil => rfl
  | cons x xs ih =>
    rw [putWords, ih (by omega)]
    exact getU64_congr fun _ _ _ => putU64_of_apart (by omega)

lemma getU64_putWords (h : xs[k]? = some x) : getU64 (putWords b off xs) (off + 8 * k) = x % 2 ^ 64 := by
  induction xs generalizing b off k with
  | nil => cases h
  | cons y xs ih =>
    rw [putWords]
    cases k with
    | zero =>
      cases h
      exact (getU64_putWords_of_apart (le_refl (off + 8))).trans getU64_putU64_self
    | succ k => rw [show off + 8 * (k + 1) = off + 8 + 8 * k by omega, ih h]

@[simp] lemma getU32_zeros (off : Nat) : getU32 zeros off = 0 := by simp [getU32, zeros]

/-- Bit `i` of a bit set: bit `i % 8` of byte `i / 8`. -/
def getBit (b : Buffer) (i : Nat) : Bool := (b (i / 8)).toNat.testBit (i % 8)

def setBit (b : Buffer) (i : Nat) (v : Bool) : Buffer :=
  update b (i / 8) (if v then b (i / 8) ||| 1 <<< UInt8.ofNat (i % 8)
    else b (i / 8) &&& ~~~(1 <<< UInt8.ofNat (i % 8)))

@[simp] lemma getBit_zeros (i : Nat) : getBit zeros i = false := Nat.zero_testBit _

lemma testBit_mask : ∀ k j : Fin 8, (1 <<< UInt8.ofNat k.val : UInt8).toNat.testBit j.val = decide (k = j) ∧
      (~~~(1 <<< UInt8.ofNat k.val) : UInt8).toNat.testBit j.val = !decide (k = j) := by
  decide

/-- Setting a bit changes that bit and no other. -/
lemma getBit_setBit (b : Buffer) (i j : Nat) (v : Bool) :
    getBit (setBit b i v) j = if i = j then v else getBit b j := by
  unfold getBit setBit
  by_cases sameByte : j / 8 = i / 8
  · have mask := testBit_mask ⟨i % 8, Nat.mod_lt _ (by decide)⟩ ⟨j % 8, Nat.mod_lt _ (by decide)⟩
    have samePlace : (⟨i % 8, Nat.mod_lt _ (by decide)⟩ : Fin 8) = ⟨j % 8, Nat.mod_lt _ (by decide)⟩ ↔ i = j := by
      rw [Fin.mk.injEq]
      omega
    simp only [samePlace] at mask
    rw [sameByte, update_self]
    cases v with
    | true =>
      rw [if_pos rfl, UInt8.toNat_or, Nat.testBit_or, mask.1]
      by_cases hij : i = j <;> simp [hij]
    | false =>
      rw [if_neg Bool.false_ne_true, UInt8.toNat_and, Nat.testBit_and, mask.2]
      by_cases hij : i = j <;> simp [hij]
  · have hij : i ≠ j := by
      intro h
      exact sameByte (h ▸ rfl)
    rw [update_of_ne sameByte, if_neg hij]

/-- The first of `fuel` numbers from `i` on that satisfies `p`. -/
def findFrom (p : Nat → Bool) : Nat → Nat → Option Nat
  | 0, _ => none
  | fuel + 1, i => if p i then some i else findFrom p fuel (i + 1)

lemma findFrom_some (h : findFrom p fuel i = some k) : i ≤ k ∧ k < i + fuel ∧ p k = true := by
  induction fuel generalizing i with
  | zero => cases h
  | succ fuel ih =>
    rw [findFrom] at h
    split_ifs at h with hp
    · obtain rfl := Option.some.inj h
      exact ⟨le_rfl, by omega, hp⟩
    · have := ih h
      exact ⟨by omega, by omega, this.2.2⟩

lemma findFrom_none (h : findFrom p fuel i = none) : ∀ k, i ≤ k → k < i + fuel → p k = false := by
  induction fuel generalizing i with
  | zero =>
    intro k hlo hhi
    omega
  | succ fuel ih =>
    rw [findFrom] at h
    split_ifs at h with hp
    intro k hlo hhi
    by_cases hk : k = i
    · rw [hk]
      exact Bool.eq_false_iff.mpr hp
    · exact ih h k (by omega) (by omega)

end YartOS.Bytes
