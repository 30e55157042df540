import Mathlib.Tactic.Ring

/-! Byte strings of a fixed length: the fields of a frame, and how they are read back from the
bytes around them. -/
namespace YartOS

open List

abbrev Octets (n : Nat) := { bytes : List UInt8 // bytes.length = n }

namespace Octets

variable {n m i : Nat}

def zero (n : Nat) : Octets n := ⟨replicate n 0, length_replicate⟩

def append (a : Octets m) (b : Octets n) : Octets (m + n) := ⟨a.val ++ b.val, by rw [length_append, a.2, b.2]⟩

def xor (a b : Octets n) : Octets n := ⟨zipWith (· ^^^ ·) a.val b.val, by rw [length_zipWith, a.2, b.2, Nat.min_self]⟩

def field (f : List UInt8) (i n : Nat) : Octets n := ⟨(f.drop i ++ replicate n 0).take n, by simp⟩

def part (a : Octets m) (i n : Nat) : Octets n := field a.val i n

def put16 (v : Nat) : Octets 2 := ⟨[(v / 256).toUInt8, v.toUInt8], rfl⟩

def put64 (v : Nat) : Octets 8 := ⟨ofFn fun k : Fin 8 => (v / 256 ^ (7 - k.val)).toUInt8, by simp⟩

/-- The number that the bytes write down, the highest first. -/
def value (a : Octets n) : Nat := a.val.foldl (fun v b => v * 256 + b.toNat) 0

def be16 (f : List UInt8) (i : Nat) : Nat := (field f i 2).value

def be64 (f : List UInt8) (i : Nat) : Nat := (field f i 8).value

lemma value_put16 {v : Nat} (h : v < 2 ^ 16) : (put16 v).value = v := by
  simp only [value, put16, foldl_cons, foldl_nil, Nat.toUInt8, UInt8.toNat_ofNat']
  omega

lemma zipWith_xor_self (a b : List UInt8) (h : a.length ≤ b.length) :
    zipWith (· ^^^ ·) (zipWith (· ^^^ ·) a b) b = a := by
  induction a generalizing b with
  | nil => rfl
  | cons x a ih =>
    cases b with
    | nil => cases h
    | cons y b =>
      rw [zipWith_cons_cons, zipWith_cons_cons, ih b (Nat.le_of_succ_le_succ h)]
      rw [UInt8.xor_assoc, UInt8.xor_self, UInt8.xor_zero]

@[simp] lemma xor_xor (a b : Octets n) : (a.xor b).xor b = a :=
  Subtype.ext (zipWith_xor_self a.val b.val (Nat.le_of_eq (a.2.trans b.2.symm)))

/-- A field is read back from between what comes before and after it. -/
lemma field_eq {f : List UInt8} {a : Octets n} (before after : List UInt8)
    (h : f = before ++ (a.val ++ after)) (hAt : before.length = i) : field f i n = a := by
  apply Subtype.ext
  change ((f.drop i ++ replicate n 0).take n) = a.val
  rw [h, drop_left' hAt, append_assoc, take_left' a.2]

@[simp] lemma part_append_left (a : Octets m) (b : Octets n) : (a.append b).part 0 m = a := field_eq [] b.val rfl rfl

@[simp] lemma part_append_right (a : Octets m) (b : Octets n) : (a.append b).part m n = b :=
  field_eq a.val [] (by simp [append]) a.2

/-- Two halves make the whole. -/
lemma append_part (a : Octets (m + n)) : (a.part 0 m).append (a.part m n) = a := by
  have hSplit : a.val = a.val.take m ++ a.val.drop m := (take_append_drop m a.val).symm
  have hLeft : (a.val.take m).length = m := by rw [length_take, a.2]; omega
  have hRight : (a.val.drop m).length = n := by rw [length_drop, a.2]; omega
  have hFirst : a.part 0 m = ⟨a.val.take m, hLeft⟩ := field_eq [] (a.val.drop m) hSplit rfl
  have hSecond : a.part m n = ⟨a.val.drop m, hRight⟩ :=
    field_eq (a.val.take m) [] (by rw [append_nil]; exact hSplit) hLeft
  rw [hFirst, hSecond]
  exact Subtype.ext hSplit.symm

/-- A field depends on what is left of the bytes only. -/
lemma field_congr {f g : List UInt8} {j : Nat} (h : f.drop i = g.drop j) : field f i n = field g j n := by
  apply Subtype.ext
  change (f.drop i ++ replicate n 0).take n = (g.drop j ++ replicate n 0).take n
  rw [h]

def join (as : List (Octets n)) : List UInt8 := (as.map Subtype.val).flatten

lemma length_join (as : List (Octets n)) : (join as).length = n * as.length := by
  induction as with
  | nil => rfl
  | cons a as ih =>
    have hJoin : join (a :: as) = a.val ++ join as := rfl
    rw [hJoin, length_append, a.2, ih, length_cons, Nat.mul_succ, Nat.add_comm]

/-- A string of the list is read back from its place. -/
lemma field_join {as : List (Octets n)} (h : i < as.length) : field (join as) (n * i) n = as[i] := by
  induction as generalizing i with
  | nil => cases h
  | cons a as ih =>
    have hJoin : join (a :: as) = a.val ++ join as := rfl
    cases i with
    | zero => exact field_eq [] (join as) hJoin rfl
    | succ i =>
      have hDrop : (join (a :: as)).drop (n * (i + 1)) = (join as).drop (n * i) := by
        rw [hJoin, Nat.mul_succ, Nat.add_comm, ← drop_drop, drop_left' a.2]
      rw [field_congr hDrop, ih (Nat.lt_of_succ_lt_succ h)]
      rfl

/-- A string of `k` times `n` bytes is that of its pieces. -/
lemma join_fields {k : Nat} {f : List UInt8} (h : f.length = n * k) :
    join (ofFn fun i : Fin k => field f (n * i) n) = f := by
  induction k generalizing f with
  | zero => exact (eq_nil_of_length_eq_zero h).symm
  | succ k ih =>
    have hHead : (f.take n).length = n := by rw [length_take, h, Nat.mul_succ]; omega
    have hFirst : field f (n * 0) n = ⟨f.take n, hHead⟩ := field_eq [] (f.drop n) (take_append_drop n f).symm rfl
    have hRest : ∀ i : Nat, field f (n * (i + 1)) n = field (f.drop n) (n * i) n := by
      intro i
      apply field_congr
      rw [drop_drop, Nat.mul_succ, Nat.add_comm]
    have hTail : (f.drop n).length = n * k := by rw [length_drop, h, Nat.mul_succ]; omega
    rw [ofFn_succ]
    change (field f (n * 0) n).val ++ join (ofFn fun i : Fin k => field f (n * (i + 1)) n) = f
    simp only [hFirst, hRest, ih hTail]
    exact take_append_drop n f

/-- The blocks of 16 bytes; zeros fill up the last one. -/
def blocks (data : List UInt8) : List (Octets 16) :=
  ofFn fun i : Fin ((data.length + 15) / 16) => field data (16 * i) 16

lemma blocks_length {data : List UInt8} : (blocks data).length = (data.length + 15) / 16 := length_ofFn

lemma blocks_join {bs : List (Octets 16)} : blocks (join bs) = bs := by
  refine ext_getElem ?_ fun i _ h => ?_
  · rw [blocks_length, length_join]
    omega
  · exact (List.getElem_ofFn _).trans (field_join h)

end Octets

end YartOS
