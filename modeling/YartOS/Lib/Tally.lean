import Mathlib.Algebra.BigOperators.Group.List.Basic
import Mathlib.Tactic.Ring

/-! Sums of a weight over a list of entries, as entries are appended and replaced. -/
namespace YartOS.Tally

open List

variable {α : Type*} {f g : α → Nat} {l l' : List α} {i : Nat} {x y : α}

def tally (f : α → Nat) (l : List α) : Nat := (l.map f).sum

@[simp] lemma tally_nil (f : α → Nat) : tally f [] = 0 := rfl

@[simp] lemma tally_cons (f : α → Nat) (x : α) (l : List α) : tally f (x :: l) = f x + tally f l := by simp [tally]

@[simp] lemma tally_append (f : α → Nat) (l l' : List α) : tally f (l ++ l') = tally f l + tally f l' := by simp [tally]

/-- Replacing one entry trades its weight for that of the new one. -/
lemma tally_set (h : l[i]? = some x) (y : α) : tally f (l.set i y) + f x = tally f l + f y := by
  induction l generalizing i with
  | nil => simp at h
  | cons z l ih =>
    cases i with
    | zero =>
      obtain rfl : z = x := by simpa using h
      simp only [set_cons_zero, tally_cons]
      omega
    | succ i =>
      have := ih (i := i) (by simpa using h)
      simp only [set_cons_succ, tally_cons]
      omega

lemma tally_set_of_eq (h : l[i]? = some x) (same : f y = f x) : tally f (l.set i y) = tally f l := by
  have := tally_set (f := f) h y
  omega

lemma le_tally (h : x ∈ l) : f x ≤ tally f l := by
  induction l with
  | nil => simp at h
  | cons z l ih =>
    rw [tally_cons]
    cases mem_cons.mp h with
    | inl h =>
      rw [h]
      omega
    | inr h =>
      have := ih h
      omega

lemma tally_eq_zero_iff : tally f l = 0 ↔ ∀ x ∈ l, f x = 0 := by
  induction l with
  | nil => simp
  | cons z l ih => simp [ih]

/-- Where one entry has all the weight. -/
lemma tally_eq_of_unique (nodup : l.Nodup) (hx : x ∈ l) (others : ∀ y ∈ l, y ≠ x → f y = 0) : tally f l = f x := by
  induction l with
  | nil => simp at hx
  | cons z l ih =>
    obtain ⟨hz, nodup⟩ := nodup_cons.mp nodup
    rw [tally_cons]
    cases mem_cons.mp hx with
    | inl h =>
      subst h
      rw [tally_eq_zero_iff.mpr fun y hy => others y (by simp [hy]) (by rintro rfl; exact hz hy)]
      rfl
    | inr h =>
      rw [ih nodup h fun y hy => others y (by simp [hy]), others z (by simp) (by rintro rfl; exact hz h)]
      omega

lemma tally_congr (h : ∀ x ∈ l, f x = g x) : tally f l = tally g l := by rw [tally, tally, map_congr_left h]

lemma tally_add {h : α → Nat} (sum : ∀ x ∈ l, h x = f x + g x) : tally h l = tally f l + tally g l := by
  induction l with
  | nil => rfl
  | cons z l ih =>
    rw [tally_cons, tally_cons, tally_cons, sum z (by simp), ih fun x hx => sum x (by simp [hx])]
    omega

lemma tally_mono (h : ∀ x ∈ l, f x ≤ g x) : tally f l ≤ tally g l := by
  induction l with
  | nil => exact Nat.le_refl 0
  | cons z l ih =>
    rw [tally_cons, tally_cons]
    have := h z (by simp)
    have := ih fun x hx => h x (by simp [hx])
    omega

lemma tally_le_length (h : ∀ x ∈ l, f x ≤ 1) : tally f l ≤ l.length := by
  induction l with
  | nil => exact Nat.le_refl 0
  | cons z l ih =>
    rw [tally_cons, length_cons]
    have := h z (by simp)
    have := ih fun x hx => h x (by simp [hx])
    omega

end YartOS.Tally
