import Mathlib.Order.Interval.Finset.Nat

/-! Linked lists whose links are a successor function: chains of pointers, and rows of adjacent
blocks. -/
namespace YartOS.Linked

open List

variable {α : Type*} {next next' prev prev' : α → α} {a b c d p z : α} {l m : List α}

/-- Following `next` from `a` visits the nodes of `l` and ends at `c`. -/
def Seg (next : α → α) : α → List α → α → Prop
  | a, [], c => a = c
  | a, b :: l, c => a = b ∧ Seg next (next b) l c

@[simp] lemma Seg.nil_iff : Seg next a [] c ↔ a = c := Iff.rfl

@[simp] lemma Seg.cons_iff : Seg next a (b :: l) c ↔ a = b ∧ Seg next (next b) l c := Iff.rfl

lemma Seg.append_iff : Seg next a (l ++ m) c ↔ ∃ d, Seg next a l d ∧ Seg next d m c := by
  induction l generalizing a with
  | nil => simp
  | cons b l ih => simp [ih, and_assoc]

/-- A segment only reads the links of its own nodes. -/
lemma Seg.congr (seg : Seg next a l c) (same : ∀ x ∈ l, next' x = next x) : Seg next' a l c := by
  induction l generalizing a with
  | nil => exact seg
  | cons b l ih =>
    refine ⟨seg.1, ?_⟩
    rw [same b (by simp)]
    exact ih seg.2 fun x hx => same x (by simp [hx])

/-- Open a segment at one of its nodes. -/
lemma Seg.middle_iff : Seg next a (l ++ b :: m) c ↔ Seg next a l b ∧ Seg next (next b) m c := by
  rw [Seg.append_iff]
  constructor
  · rintro ⟨d, left, rfl, right⟩
    exact ⟨left, right⟩
  · rintro ⟨left, right⟩
    exact ⟨b, left, rfl, right⟩

/-- The chain from a given node to a fixed end that is not a node is unique. -/
lemma Seg.unique (left : Seg next a l z) (right : Seg next a m z)
    (hl : ∀ x ∈ l, x ≠ z) (hm : ∀ x ∈ m, x ≠ z) : l = m := by
  induction l generalizing a m with
  | nil =>
    cases m with
    | nil => rfl
    | cons b m => exact absurd (right.1.symm.trans left) (hm b (by simp))
  | cons b l ih =>
    cases m with
    | nil => exact absurd (left.1.symm.trans right) (hl b (by simp))
    | cons b' m =>
      obtain rfl : b = b' := left.1.symm.trans right.1
      rw [ih left.2 right.2 (fun x hx => hl x (by simp [hx])) (fun x hx => hm x (by simp [hx]))]

/-- A chain that ends cannot visit a node twice. -/
lemma Seg.nodup (seg : Seg next a l z) (hl : ∀ x ∈ l, x ≠ z) : l.Nodup := by
  induction l generalizing a with
  | nil => exact nodup_nil
  | cons b l ih =>
    have hl' : ∀ x ∈ l, x ≠ z := fun x hx => hl x (by simp [hx])
    refine nodup_cons.mpr ⟨fun hb => ?_, ih seg.2 hl'⟩
    -- the tail after the second visit would equal the tail after the first
    obtain ⟨l₁, l₂, rfl⟩ := append_of_mem hb
    have again : Seg next (next b) l₂ z := (Seg.middle_iff.mp seg.2).2
    have same := seg.2.unique again hl' fun x hx => hl' x (by simp [hx])
    have := congrArg length same
    simp at this
    omega

/-- The nodes a walk from `a` stands on before it reaches `z`. -/
inductive Visited (next : α → α) (z a : α) : α → Prop where
  | start : a ≠ z → Visited next z a a
  | step {b : α} : Visited next z a b → next b ≠ z → Visited next z a (next b)

lemma Seg.mem_of_visited (seg : Seg next a l z) (visited : Visited next z a b) : b ∈ l := by
  induction visited with
  | start ha =>
    cases l with
    | nil => exact absurd seg ha
    | cons b l => simp [seg.1]
  | @step b _ hb ih =>
    obtain ⟨l₁, l₂, rfl⟩ := append_of_mem ih
    have rest := (Seg.middle_iff.mp seg).2
    cases l₂ with
    | nil => exact absurd rest hb
    | cons x l₂ => simp [rest.1]

lemma Seg.visited_of_mem (seg : Seg next a l z) (hl : ∀ x ∈ l, x ≠ z) (hb : b ∈ l) : Visited next z a b := by
  obtain ⟨l₁, l₂, rfl⟩ := append_of_mem hb
  have first := (Seg.middle_iff.mp seg).1
  have hl₁ : ∀ x ∈ l₁ ++ [b], x ≠ z := fun x hx => hl x (by
    simp only [mem_append, mem_cons, not_mem_nil, or_false] at hx ⊢
    tauto)
  clear seg hl hb
  induction l₁ using reverseRecOn generalizing b with
  | nil =>
    obtain rfl : a = b := first
    exact .start (hl₁ a (by simp))
  | append_singleton l₁ x ih =>
    obtain ⟨toX, rfl⟩ := Seg.middle_iff.mp first
    exact .step (ih toX fun y hy => hl₁ y (by
      simp only [mem_append, mem_cons, not_mem_nil, or_false] at hy ⊢
      tauto)) (hl₁ _ (by simp))

lemma Seg.visited_iff (seg : Seg next a l z) (hl : ∀ x ∈ l, x ≠ z) : Visited next z a b ↔ b ∈ l :=
  ⟨seg.mem_of_visited, seg.visited_of_mem hl⟩

/-- Backward links: the first node points at `p`, others at the one before. -/
def Prevs (prev : α → α) : α → List α → Prop
  | _, [] => True
  | p, b :: l => prev b = p ∧ Prevs prev b l

@[simp] lemma Prevs.nil : Prevs prev p [] := trivial

@[simp] lemma Prevs.cons_iff : Prevs prev p (b :: l) ↔ prev b = p ∧ Prevs prev b l := Iff.rfl

lemma Prevs.middle_iff : Prevs prev p (l ++ b :: m) ↔ Prevs prev p (l ++ [b]) ∧ Prevs prev b m := by
  induction l generalizing p with
  | nil => simp
  | cons x l ih => simp [ih, and_assoc]

lemma Prevs.congr (prevs : Prevs prev p l) (same : ∀ x ∈ l, prev' x = prev x) : Prevs prev' p l := by
  induction l generalizing p with
  | nil => trivial
  | cons b l ih =>
    exact ⟨(same b (by simp)).trans prevs.1, ih prevs.2 fun x hx => same x (by simp [hx])⟩

/-- A doubly linked list from `a`, with `z` as the null pointer. -/
structure Doubly (next prev : α → α) (z a : α) (l : List α) : Prop where
  forward : Seg next a l z
  backward : Prevs prev z l
  nonnull : ∀ x ∈ l, x ≠ z

namespace Doubly

variable {left right : List α} {n : α}

lemma nodup (list : Doubly next prev z a l) : l.Nodup := list.forward.nodup list.nonnull

lemma congr (list : Doubly next prev z a l) (nexts : ∀ x ∈ l, next' x = next x)
    (prevs : ∀ x ∈ l, prev' x = prev x) : Doubly next' prev' z a l :=
  ⟨list.forward.congr nexts, list.backward.congr prevs, list.nonnull⟩

section

variable (list : Doubly next prev z a (left ++ b :: right))

include list

/-- The successor of a node is the node that follows it in the list. -/
lemma next_eq : next b = right.headD z := by
  have rest := (Seg.middle_iff.mp list.forward).2
  cases right with
  | nil => exact rest
  | cons y right => exact rest.1

lemma prev_eq : prev b = left.getLastD z := by
  rcases eq_nil_or_concat left with rfl | ⟨left, y, rfl⟩
  · exact list.backward.1
  · have back := list.backward
    rw [concat_eq_append, append_assoc] at back
    simpa using (Prevs.middle_iff.mp back).2.1

lemma eq_next_cons (hne : next b ≠ z) : ∃ rest, right = next b :: rest := by
  have hNext := list.next_eq
  cases right with
  | nil => exact absurd hNext hne
  | cons y right => exact ⟨right, by rw [hNext]; rfl⟩

lemma eq_snoc_prev (hne : prev b ≠ z) : ∃ rest, left = rest ++ [prev b] := by
  have hPrev := list.prev_eq
  rcases eq_nil_or_concat left with rfl | ⟨rest, y, rfl⟩
  · exact absurd hPrev hne
  · exact ⟨rest, by rw [hPrev]; simp⟩

lemma prev_next (hne : next b ≠ z) : next b ∈ left ++ b :: right ∧ prev (next b) = b := by
  obtain ⟨rest, rfl⟩ := list.eq_next_cons hne
  have shifted : Doubly next prev z a ((left ++ [b]) ++ next b :: rest) := by simpa using list
  exact ⟨by simp, by simpa using shifted.prev_eq⟩

lemma next_prev (hne : prev b ≠ z) : prev b ∈ left ++ b :: right ∧ next (prev b) = b := by
  obtain ⟨rest, rfl⟩ := list.eq_snoc_prev hne
  have shifted : Doubly next prev z a (rest ++ prev b :: b :: right) := by simpa using list
  exact ⟨by simp, shifted.next_eq⟩

/-- No node at or before `b` is the successor of `b`. -/
lemma next_notMem : next b ∉ left ++ [b] := by
  rw [list.next_eq]
  intro hmem
  cases right with
  | nil => exact list.nonnull z (by simpa [or_assoc] using hmem) rfl
  | cons y right =>
    have distinct := list.nodup
    rw [show left ++ b :: y :: right = (left ++ [b]) ++ y :: right by simp, nodup_append] at distinct
    exact distinct.2.2 y hmem y (by simp) rfl

end

variable [DecidableEq α]

/-- Backward links of the part behind `b`, when its first node is redirected. -/
lemma redirect (list : Doubly next prev z a (left ++ b :: right)) {q : α}
    (prevs : ∀ x ∈ right, prev' x = if x = next b then q else prev x) : Prevs prev' q right := by
  have back := (Prevs.middle_iff.mp list.backward).2
  have hNext := list.next_eq
  have distinct : right.Nodup := (nodup_cons.mp (nodup_append.mp list.nodup).2.1).2
  cases right with
  | nil => trivial
  | cons y right =>
    have hNext : next b = y := hNext
    refine ⟨by rw [prevs y (by simp), if_pos hNext.symm], back.2.congr fun x hx => ?_⟩
    rw [prevs x (by simp [hx]), if_neg]
    rintro rfl
    exact (nodup_cons.mp distinct).1 (hNext ▸ hx)

lemma insert (list : Doubly next prev z a (left ++ b :: right)) (fresh : n ≠ z) (nextB : next' b = n)
    (nextN : next' n = next b) (prevN : prev' n = b) (nexts : ∀ x ∈ left ++ right, next' x = next x)
    (prevs : ∀ x ∈ left ++ b :: right, prev' x = if x = next b then n else prev x) :
    Doubly next' prev' z a (left ++ b :: n :: right) := by
  obtain ⟨toB, fromB⟩ := Seg.middle_iff.mp list.forward
  have backB := (Prevs.middle_iff.mp list.backward).1
  refine ⟨Seg.middle_iff.mpr ⟨toB.congr fun x hx => nexts x (by simp [hx]), nextB, ?_⟩,
    Prevs.middle_iff.mpr ⟨backB.congr fun x hx => ?_, prevN, ?_⟩, fun x hx => ?_⟩
  · rw [nextN]
    exact fromB.congr fun x hx => nexts x (by simp [hx])
  · rw [prevs x (by simpa [or_assoc] using Or.inl hx), if_neg]
    rintro rfl
    exact list.next_notMem hx
  · exact list.redirect fun x hx => prevs x (by simp [hx])
  · by_cases hxn : x = n
    · exact hxn ▸ fresh
    · exact list.nonnull x (by simpa [hxn] using hx)

/-- Unlink the node `y` that follows `b`. -/
lemma remove {y : α} (list : Doubly next prev z a (left ++ b :: y :: right))
    (nextB : next' b = next y) (nexts : ∀ x ∈ left ++ right, next' x = next x)
    (prevs : ∀ x ∈ left ++ b :: right, prev' x = if x = next y then b else prev x) :
    Doubly next' prev' z a (left ++ b :: right) := by
  obtain ⟨toB, -, fromY⟩ := Seg.middle_iff.mp list.forward
  have backB := (Prevs.middle_iff.mp list.backward).1
  have shifted : Doubly next prev z a ((left ++ [b]) ++ y :: right) := by simpa using list
  refine ⟨Seg.middle_iff.mpr ⟨toB.congr fun x hx => nexts x (by simp [hx]), ?_⟩,
    Prevs.middle_iff.mpr ⟨backB.congr fun x hx => ?_, ?_⟩,
    fun x hx => list.nonnull x (by simp only [mem_append, mem_cons] at hx ⊢; tauto)⟩
  · rw [nextB]
    exact fromY.congr fun x hx => nexts x (by simp [hx])
  · rw [prevs x (by simpa [or_assoc] using Or.inl hx), if_neg]
    rintro rfl
    exact shifted.next_notMem (by simp only [mem_append] at hx ⊢; tauto)
  · exact shifted.redirect fun x hx => prevs x (by simp [hx])

/-- Append `n` to a list whose last node is `b`. -/
lemma snoc (list : Doubly next prev z a (left ++ [b])) (fresh : n ≠ z) (nextB : next' b = n)
    (nextN : next' n = z) (prevN : prev' n = b) (nexts : ∀ x ∈ left, next' x = next x)
    (prevs : ∀ x ∈ left ++ [b], prev' x = prev x) : Doubly next' prev' z a (left ++ [b, n]) := by
  have hNext : next b = z := list.next_eq
  refine list.insert fresh nextB (nextN.trans hNext.symm) prevN (by simpa using nexts) ?_
  intro x hx
  rw [prevs x hx, if_neg]
  rw [hNext]
  exact list.nonnull x hx

end Doubly

variable {finish : Nat → Nat} {x y lo hi : Nat} {row : List Nat}

/-- In a row of adjacent blocks every block lies between the ends of the row. -/
lemma Seg.bounds (seg : Seg finish lo row hi) (grows : ∀ x ∈ row, x < finish x) :
    lo ≤ hi ∧ ∀ x ∈ row, lo ≤ x ∧ finish x ≤ hi := by
  induction row generalizing lo with
  | nil => exact ⟨le_of_eq seg, by simp⟩
  | cons b row ih =>
    obtain ⟨rfl, seg⟩ := seg
    have hb := grows lo (by simp)
    obtain ⟨hle, hall⟩ := ih seg fun x hx => grows x (by simp [hx])
    refine ⟨by omega, fun x hx => ?_⟩
    rcases mem_cons.mp hx with rfl | hx
    · exact ⟨le_rfl, hle⟩
    · have := hall x hx
      omega

/-- Blocks of one row do not overlap: each ends before the next begins. -/
lemma Seg.pairwise (seg : Seg finish lo row hi) (grows : ∀ x ∈ row, x < finish x) :
    row.Pairwise fun x y => finish x ≤ y := by
  induction row generalizing lo with
  | nil => exact List.Pairwise.nil
  | cons b row ih =>
    obtain ⟨rfl, seg⟩ := seg
    have grows' : ∀ x ∈ row, x < finish x := fun x hx => grows x (by simp [hx])
    exact pairwise_cons.mpr ⟨fun y hy => ((seg.bounds grows').2 y hy).1, ih seg grows'⟩

/-- Distinct addresses below a bound are at most as many as the bound. -/
lemma length_le_of_nodup_lt {row : List Nat} {bound : Nat} (distinct : row.Nodup)
    (below : ∀ x ∈ row, x < bound) : row.length ≤ bound := by
  have hsub : row.toFinset ⊆ Finset.range bound := by
    intro x hx
    exact Finset.mem_range.mpr (below x (mem_toFinset.mp hx))
  have hcard := Finset.card_le_card hsub
  rwa [toFinset_card_of_nodup distinct, Finset.card_range] at hcard

end YartOS.Linked
