import YartOS.Lib.Linked

/-! Address ranges, and lists of blocks that cover several ranges one after the other. -/
namespace YartOS.Rows

open Linked List

structure Range where
  base : Nat
  len : Nat
deriving DecidableEq

def Range.finish (r : Range) : Nat := r.base + r.len

def Range.Apart (r s : Range) : Prop := r.finish ≤ s.base ∨ s.finish ≤ r.base

variable {r s : Range} {b n : Nat}

lemma Range.Apart.symm (h : r.Apart s) : s.Apart r := Or.symm h

def Range.Inside (r s : Range) : Prop := s.base ≤ r.base ∧ r.finish ≤ s.finish

instance : Std.Symm Range.Apart := ⟨fun _ _ => Range.Apart.symm⟩

instance (r s : Range) : Decidable (r.Apart s) := inferInstanceAs (Decidable (_ ∨ _))
instance (r s : Range) : Decidable (r.Inside s) := inferInstanceAs (Decidable (_ ∧ _))

lemma Range.Apart.mono {r' s' : Range} (h : r.Apart s) (hr : r'.Inside r) (hs : s'.Inside s) : r'.Apart s' := by
  unfold Range.Apart Range.Inside at *
  omega

/-- The blocks, cut where ranges end: each part covers its range without gaps. -/
inductive Tiled (finish : Nat → Nat) : List Range → List Nat → Prop where
  | nil : Tiled finish [] []
  | cons {r : Range} {ranges : List Range} {row rest : List Nat} :
      Seg finish r.base row r.finish → Tiled finish ranges rest →
      Tiled finish (r :: ranges) (row ++ rest)

variable {finish finish' : Nat → Nat} {ranges : List Range} {blocks left right : List Nat}

section

variable (tiled : Tiled finish ranges blocks)

include tiled

lemma Tiled.congr (same : ∀ x ∈ blocks, finish' x = finish x) : Tiled finish' ranges blocks := by
  induction tiled with
  | nil => exact .nil
  | cons seg _ ih =>
    exact .cons (seg.congr fun x hx => same x (by simp [hx])) (ih fun x hx => same x (by simp [hx]))

/-- Every block lies in one of the ranges. -/
lemma Tiled.inside (grows : ∀ x ∈ blocks, x < finish x)
    {x : Nat} (hx : x ∈ blocks) : ∃ r ∈ ranges, r.base ≤ x ∧ finish x ≤ r.finish := by
  induction tiled with
  | nil => simp at hx
  | @cons r ranges row rest seg _ ih =>
    rcases mem_append.mp hx with hx | hx
    · exact ⟨r, by simp, (seg.bounds fun y hy => grows y (by simp [hy])).2 x hx⟩
    · obtain ⟨s, hs, bounds⟩ := ih (fun y hy => grows y (by simp [hy])) hx
      exact ⟨s, by simp [hs], bounds⟩

/-- Blocks of disjoint ranges do not overlap. -/
lemma Tiled.pairwise (apart : ranges.Pairwise Range.Apart) (grows : ∀ x ∈ blocks, x < finish x) :
    blocks.Pairwise fun x y => finish x ≤ y ∨ finish y ≤ x := by
  induction tiled with
  | nil => exact List.Pairwise.nil
  | @cons r ranges row rest seg tiled ih =>
    have growsRow : ∀ x ∈ row, x < finish x := fun x hx => grows x (by simp [hx])
    have growsRest : ∀ x ∈ rest, x < finish x := fun x hx => grows x (by simp [hx])
    obtain ⟨hr, apart⟩ := pairwise_cons.mp apart
    refine pairwise_append.mpr ⟨(seg.pairwise growsRow).imp .inl, ih apart growsRest, ?_⟩
    intro x hx y hy
    have hxr := (seg.bounds growsRow).2 x hx
    obtain ⟨s, hs, hys⟩ := tiled.inside growsRest hy
    have := hr s hs
    unfold Range.Apart at this
    omega

lemma Tiled.append {more : List Range} {rest : List Nat} (next : Tiled finish more rest) :
    Tiled finish (ranges ++ more) (blocks ++ rest) := by
  induction tiled with
  | nil => exact next
  | cons first _ ih =>
    rw [append_assoc]
    exact .cons first ih

lemma Tiled.snoc {r : Range} {row : List Nat}
    (seg : Seg finish r.base row r.finish) : Tiled finish (ranges ++ [r]) (blocks ++ row) := by
  simpa using tiled.append (.cons seg .nil)

end

/-- The range of block `b`, with the blocks around it there and elsewhere. -/
lemma Tiled.around (tiled : Tiled finish ranges (left ++ b :: right)) :
    ∃ before r after first row row' last, ranges = before ++ r :: after ∧ left = first ++ row ∧
      right = row' ++ last ∧ Tiled finish before first ∧
      Seg finish r.base (row ++ b :: row') r.finish ∧ Tiled finish after last := by
  generalize hblocks : left ++ b :: right = blocks at tiled
  induction tiled generalizing left with
  | nil => simp at hblocks
  | @cons r ranges row rest seg tiled ih =>
    have parts : (∃ mid, left = row ++ mid ∧ rest = mid ++ b :: right) ∨
        ∃ mid, row = left ++ b :: mid ∧ right = mid ++ rest := by
      rcases append_eq_append_iff.mp hblocks with ⟨mid, hRow, hRest⟩ | later
      · rcases cons_eq_append_iff.mp hRest with ⟨rfl, hTail⟩ | ⟨mid, rfl, hTail⟩
        · exact .inl ⟨[], by simpa using hRow.symm, hTail⟩
        · exact .inr ⟨mid, hRow, hTail⟩
      · exact .inl later
    obtain ⟨mid, rfl, hRest⟩ | ⟨mid, rfl, rfl⟩ := parts
    · obtain ⟨before, s, after, first, row', row'', last, rfl, rfl, rfl, head, tail⟩ := ih hRest.symm
      exact ⟨r :: before, s, after, row ++ first, row', row'', last, rfl,
        (append_assoc row first row').symm, rfl, .cons seg head, tail⟩
    · exact ⟨[], r, ranges, [], left, mid, rest, rfl, rfl, rfl, .nil, seg, tiled⟩

/-- Cut block `b` in two: `n` takes over what lies behind it. -/
lemma Tiled.split (tiled : Tiled finish ranges (left ++ b :: right)) (hb : finish' b = n)
    (hn : finish' n = finish b) (hleft : ∀ x ∈ left, finish' x = finish x)
    (hright : ∀ x ∈ right, finish' x = finish x) : Tiled finish' ranges (left ++ b :: n :: right) := by
  obtain ⟨before, r, after, first, row, row', last, rfl, rfl, rfl, head, seg, tail⟩ := tiled.around
  simp only [mem_append, or_imp, forall_and] at hleft hright
  obtain ⟨toB, fromB⟩ := Seg.middle_iff.mp seg
  have seg' : Seg finish' r.base (row ++ b :: n :: row') r.finish :=
    Seg.middle_iff.mpr ⟨toB.congr hleft.2, hb, hn ▸ fromB.congr hright.1⟩
  simpa using (head.congr hleft.1).append (.cons seg' (tail.congr hright.2))

/-- Neighbours that share a range touch, and the first can absorb the second. -/
lemma Tiled.merge (tiled : Tiled finish ranges (left ++ b :: n :: right))
    (apart : ranges.Pairwise Range.Apart) (grows : ∀ x ∈ left ++ b :: n :: right, x < finish x)
    (hs : s ∈ ranges) (hb : s.base ≤ b ∧ b < s.finish) (hn : s.base ≤ n ∧ n < s.finish) :
    finish b = n ∧ ∀ finish', finish' b = finish n → (∀ x ∈ left, finish' x = finish x) →
      (∀ x ∈ right, finish' x = finish x) → Tiled finish' ranges (left ++ b :: right) := by
  obtain ⟨before, r, after, first, row, row', last, rfl, rfl, hRight, head, seg, tail⟩ := tiled.around
  simp only [hRight, mem_append, mem_cons, or_imp, forall_and, forall_eq] at grows
  obtain ⟨⟨-, growsRow⟩, growsB, growsRow', growsLast⟩ := grows
  have hr := (seg.bounds (by simpa [or_imp, forall_and] using ⟨growsRow, growsB, growsRow'⟩)).2 b (by simp)
  obtain rfl : r = s := by
    by_contra hne
    have := apart.forall (by simp) hs hne
    unfold Range.Apart at this
    omega
  rcases cons_eq_append_iff.mp hRight with ⟨rfl, rfl⟩ | ⟨row', rfl, rfl⟩
  · -- the second would lie in a later range
    obtain ⟨t, ht, hnt⟩ := tail.inside growsLast (mem_cons_self ..)
    have := (pairwise_cons.mp (pairwise_append.mp apart).2.1).1 t ht
    have := growsLast n (mem_cons_self ..)
    unfold Range.Apart at *
    omega
  · obtain ⟨toB, touch, fromN⟩ := Seg.middle_iff.mp seg
    refine ⟨touch, fun finish' hb hleft hright => ?_⟩
    simp only [mem_append, or_imp, forall_and] at hleft hright
    have seg' : Seg finish' r.base (row ++ b :: row') r.finish :=
      Seg.middle_iff.mpr ⟨toB.congr hleft.2, hb ▸ fromN.congr hright.1⟩
    simpa using (head.congr hleft.1).append (.cons seg' (tail.congr hright.2))

end YartOS.Rows
