import Mathlib.Tactic.Ring

/-! The physical memory manager: used frames and 16-bit reference counts, by frame index. -/
namespace YartOS.Mm

open Function List

abbrev Page := Nat → Nat

def zeroPage : Page := fun _ => 0

def refMax : Nat := 0xFFFF

/-- `last` is the index at which the next search starts. -/
structure Pmm where
  used : Nat → Bool
  refs : Nat → Nat
  data : Nat → Page
  total : Nat
  last : Nat := 0

namespace Pmm

variable {m m' : Pmm} {p q : Nat}

/-- The frames in the order in which `find_free_locked` tries them. -/
def searchOrder (m : Pmm) : List Nat := range' m.last (m.total - m.last) ++ range m.last

def allocIdx (m : Pmm) (i : Nat) : Pmm :=
  { m with
    used := update m.used i true
    refs := update m.refs i 1
    data := update m.data i zeroPage
    last := i + 1 }

/-- `none` when no frame is free; eviction and OOM killer are left out. -/
def allocPage (m : Pmm) : Option (Nat × Pmm) := (m.searchOrder.find? fun i => !m.used i).map fun i => (i, m.allocIdx i)

def refPage (m : Pmm) (p : Nat) : Pmm :=
  if p < m.total ∧ m.used p ∧ m.refs p < refMax then
    { m with refs := update m.refs p (m.refs p + 1) }
  else m

/-- Drop a reference; with the last one the frame is zeroed and free. -/
def unrefPage (m : Pmm) (p : Nat) : Pmm :=
  if p < m.total ∧ m.used p ∧ m.refs p ≠ 0 then
    if m.refs p = 1 then
      { m with
        used := update m.used p false
        refs := update m.refs p 0
        data := update m.data p zeroPage
        last := if p < m.last then p else m.last }
    else { m with refs := update m.refs p (m.refs p - 1) }
  else m

lemma allocPage_eq_some (h : m.allocPage = some (p, m')) : m.used p = false ∧ m' = m.allocIdx p := by
  obtain ⟨i, found, hi⟩ := Option.map_eq_some_iff.mp h
  cases hi
  exact ⟨by simpa using find?_some found, rfl⟩

/-- Frames that were in use still are, with their counts and contents. -/
def Stable (m m' : Pmm) : Prop := ∀ f, m.used f → m'.used f ∧ m'.refs f = m.refs f ∧ m'.data f = m.data f

lemma Stable.refl : Stable m m := fun _ h => ⟨h, rfl, rfl⟩

lemma Stable.trans {t : Pmm} (first : Stable m t) (second : Stable t m') : Stable m m' := by
  intro f hf
  obtain ⟨used, refs, data⟩ := first f hf
  obtain ⟨used', refs', data'⟩ := second f used
  exact ⟨used', refs'.trans refs, data'.trans data⟩

lemma stable_allocIdx (free : m.used p = false) : Stable m (m.allocIdx p) := by
  intro f hf
  have hne : f ≠ p := by
    rintro rfl
    simp [hf] at free
  simp [allocIdx, hne, hf]

/-- A frame is used iff it is referenced, or `reserved` by boot. -/
structure Counted (reserved : Nat → Prop) (m : Pmm) : Prop where
  used_iff : ∀ p, m.used p ↔ m.refs p ≠ 0 ∨ reserved p
  refs_reserved : ∀ p, reserved p → m.refs p = 0
  lt_total : ∀ p, m.refs p ≠ 0 → p < m.total
  last_le : m.last ≤ m.total

variable {reserved : Nat → Prop}

lemma lt_total_of_mem_searchOrder (hLast : m.last ≤ m.total) (h : p ∈ m.searchOrder) : p < m.total := by
  simp only [searchOrder, mem_append, mem_range'_1, mem_range] at h
  omega

section

variable (h : m.Counted reserved)

include h

lemma refs_eq_zero (free : m.used p = false) : m.refs p = 0 := by
  by_contra hRefs
  have := (h.used_iff p).mpr (.inl hRefs)
  simp [free] at this

lemma Counted.allocIdx (free : m.used p = false) (hp : p < m.total) : (m.allocIdx p).Counted reserved where
  used_iff q := by
    by_cases hq : q = p
    · simp [Pmm.allocIdx, hq]
    · simpa [Pmm.allocIdx, hq] using h.used_iff q
  refs_reserved q hq := by
    have hne : q ≠ p := by
      rintro rfl
      have := (h.used_iff q).mpr (.inr hq)
      simp [free] at this
    simpa [Pmm.allocIdx, hne] using h.refs_reserved q hq
  lt_total q hq := by
    by_cases hqp : q = p
    · exact hqp ▸ hp
    · exact h.lt_total q (by simpa [Pmm.allocIdx, hqp] using hq)
  last_le := hp

/-- A frame that is handed out had no reference and now has one. -/
lemma Counted.allocPage (alloc : m.allocPage = some (p, m')) :
    m'.Counted reserved ∧ ∀ f, m'.refs f = m.refs f + if p = f then 1 else 0 := by
  obtain ⟨free, rfl⟩ := allocPage_eq_some alloc
  obtain ⟨i, found, hi⟩ := Option.map_eq_some_iff.mp alloc
  obtain rfl : i = p := congrArg Prod.fst hi
  have hp := lt_total_of_mem_searchOrder h.last_le (mem_of_find?_eq_some found)
  refine ⟨h.allocIdx free hp, fun f => ?_⟩
  by_cases hf : i = f
  · subst hf
    simp [Pmm.allocIdx, refs_eq_zero h free]
  · simp [Pmm.allocIdx, hf, update_of_ne (Ne.symm hf)]

/-- A further reference, where the count has room. -/
lemma Counted.refPage (hp : m.refs p ≠ 0) (room : m.refs p < refMax) :
    (m.refPage p).Counted reserved ∧ ∀ f, (m.refPage p).refs f = m.refs f + if p = f then 1 else 0 := by
  have hUsed := (h.used_iff p).mpr (.inl hp)
  have hEq : m.refPage p = { m with refs := update m.refs p (m.refs p + 1) } :=
    if_pos ⟨h.lt_total p hp, hUsed, room⟩
  rw [hEq]
  refine ⟨⟨fun q => ?_, fun q hq => ?_, fun q hq => ?_, h.last_le⟩, fun f => ?_⟩
  · by_cases hq : q = p
    · simp [hq, hUsed]
    · simpa [hq] using h.used_iff q
  · have hne : q ≠ p := fun e => hp (e ▸ h.refs_reserved q hq)
    simpa [hne] using h.refs_reserved q hq
  · by_cases hqp : q = p
    · exact hqp ▸ h.lt_total p hp
    · exact h.lt_total q (by simpa [hqp] using hq)
  · by_cases hf : p = f
    · simp [hf]
    · simp [hf, update_of_ne (Ne.symm hf)]

end

lemma refPage_used (m : Pmm) (p : Nat) : (m.refPage p).used = m.used := by
  unfold refPage
  split <;> rfl

lemma refPage_data (m : Pmm) (p : Nat) : (m.refPage p).data = m.data := by
  unfold refPage
  split <;> rfl

/-- Dropping a reference frees the frame with the last one. -/
lemma Counted.unrefPage (h : m.Counted reserved) (hp : m.refs p ≠ 0) : (m.unrefPage p).Counted reserved ∧
      ∀ f, (m.unrefPage p).refs f + (if p = f then 1 else 0) = m.refs f := by
  have hUsed := (h.used_iff p).mpr (.inl hp)
  have hFree : ¬ reserved p := fun hr => hp (h.refs_reserved p hr)
  have hRefs : ∀ f, (m.unrefPage p).refs f = if p = f then m.refs p - 1 else m.refs f := by
    intro f
    unfold Pmm.unrefPage
    rw [if_pos ⟨h.lt_total p hp, hUsed, hp⟩]
    by_cases hf : p = f
    · subst hf
      split <;> simp [*]
    · split <;> simp [update_of_ne (Ne.symm hf)]
  have hUsed' : ∀ f, (m.unrefPage p).used f = if p = f ∧ m.refs p = 1 then false else m.used f := by
    intro f
    unfold Pmm.unrefPage
    rw [if_pos ⟨h.lt_total p hp, hUsed, hp⟩]
    by_cases hf : p = f
    · subst hf
      split <;> simp [*]
    · split <;> simp [hf, update_of_ne (Ne.symm hf)]
  have hLast : (m.unrefPage p).last ≤ (m.unrefPage p).total := by
    have := h.last_le
    unfold Pmm.unrefPage
    rw [if_pos ⟨h.lt_total p hp, hUsed, hp⟩]
    split
    · dsimp only
      split <;> omega
    · exact this
  have hTotal : (m.unrefPage p).total = m.total := by
    unfold Pmm.unrefPage
    rw [if_pos ⟨h.lt_total p hp, hUsed, hp⟩]
    split <;> rfl
  refine ⟨⟨fun q => ?_, fun q hq => ?_, fun q hq => ?_, hLast⟩, fun f => ?_⟩
  · rw [hUsed', hRefs]
    by_cases hq : p = q
    · subst hq
      by_cases hOne : m.refs p = 1
      · simp [hOne, hFree]
      · simp [hOne, hUsed]
        omega
    · simpa [hq] using h.used_iff q
  · rw [hRefs]
    have hne : p ≠ q := fun e => hFree (e ▸ hq)
    simpa [hne] using h.refs_reserved q hq
  · rw [hTotal]
    rw [hRefs] at hq
    by_cases hqp : p = q
    · exact hqp ▸ h.lt_total p hp
    · exact h.lt_total q (by simpa [hqp] using hq)
  · rw [hRefs]
    split_ifs with hf
    · subst hf
      omega
    · rfl

/-- Dropping a list of references that are all held. -/
lemma Counted.unrefPages {ps : List Nat} (h : m.Counted reserved)
    (held : ∀ f, ps.count f ≤ m.refs f) : (ps.foldl Pmm.unrefPage m).Counted reserved ∧
      ∀ f, (ps.foldl Pmm.unrefPage m).refs f + ps.count f = m.refs f := by
  induction ps generalizing m with
  | nil => exact ⟨h, fun f => by simp⟩
  | cons p ps ih =>
    have hp : m.refs p ≠ 0 := by
      have := held p
      rw [count_cons_self] at this
      omega
    obtain ⟨kept, dropped⟩ := h.unrefPage hp
    have hRest : ∀ f, ps.count f ≤ (m.unrefPage p).refs f := by
      intro f
      have := held f
      have := dropped f
      rw [count_cons] at *
      simp only [beq_iff_eq] at *
      omega
    obtain ⟨kept', dropped'⟩ := ih kept hRest
    refine ⟨kept', fun f => ?_⟩
    have := dropped f
    have := dropped' f
    rw [foldl_cons, count_cons]
    simp only [beq_iff_eq]
    omega

end Pmm

end YartOS.Mm
