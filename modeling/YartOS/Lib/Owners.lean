import Mathlib.Tactic.Ring

/-! Slots that are marked as used, each with exactly one owner. -/
namespace YartOS.Owners

open Function

variable {κ σ : Type*} {owns owns' : κ → Option σ} {used used' : σ → Bool} {k : κ} {slot : σ}

/-- The used slots are those that some key owns, and no two keys own the same one. -/
structure Exclusive (owns : κ → Option σ) (used : σ → Bool) : Prop where
  owned : ∀ slot, used slot = true → ∃ k, owns k = some slot
  used : ∀ k slot, owns k = some slot → used slot = true
  unique : ∀ k k' slot, owns k = some slot → owns k' = some slot → k = k'

namespace Exclusive

lemma congr (h : Exclusive owns used) (hOwns : ∀ k, owns' k = owns k) (hUsed : used' = used) :
    Exclusive owns' used' := by
  rwa [funext hOwns, hUsed]

variable [DecidableEq κ] [DecidableEq σ]

/-- A key that owns nothing takes a free slot. -/
lemma take (h : Exclusive owns used) (free : used slot = false) (none : owns k = none) :
    Exclusive (update owns k (some slot)) (update used slot true) where
  owned slot' hUsed := by
    by_cases hSlot : slot' = slot
    · exact ⟨k, by rw [update_self, hSlot]⟩
    · rw [update_of_ne hSlot] at hUsed
      obtain ⟨k', hk'⟩ := h.owned slot' hUsed
      refine ⟨k', ?_⟩
      rw [update_of_ne (by rintro rfl; simp [none] at hk'), hk']
  used k' slot' hk' := by
    by_cases hk : k' = k
    · subst hk
      rw [update_self] at hk'
      cases hk'
      rw [update_self]
    · rw [update_of_ne hk] at hk'
      have hUsed := h.used k' slot' hk'
      rw [update_of_ne (by rintro rfl; simp [free] at hUsed), hUsed]
  unique k₁ k₂ slot' h₁ h₂ := by
    have other : ∀ k', k' ≠ k → owns k' ≠ some slot := by
      intro k' _ hk'
      have := h.used k' slot hk'
      simp [free] at this
    by_cases hk₁ : k₁ = k <;> by_cases hk₂ : k₂ = k
    · rw [hk₁, hk₂]
    · subst hk₁
      rw [update_self] at h₁
      rw [update_of_ne hk₂] at h₂
      cases h₁
      exact absurd h₂ (other k₂ hk₂)
    · subst hk₂
      rw [update_self] at h₂
      rw [update_of_ne hk₁] at h₁
      cases h₂
      exact absurd h₁ (other k₁ hk₁)
    · rw [update_of_ne hk₁] at h₁
      rw [update_of_ne hk₂] at h₂
      exact h.unique k₁ k₂ slot' h₁ h₂

/-- A key gives its slot back. -/
lemma give (h : Exclusive owns used) (hk : owns k = some slot) :
    Exclusive (update owns k none) (update used slot false) where
  owned slot' hUsed := by
    by_cases hSlot : slot' = slot
    · subst hSlot
      simp at hUsed
    rw [update_of_ne hSlot] at hUsed
    obtain ⟨k', hk'⟩ := h.owned slot' hUsed
    refine ⟨k', ?_⟩
    rw [update_of_ne, hk']
    rintro rfl
    exact hSlot (Option.some.inj (hk'.symm.trans hk))
  used k' slot' hk' := by
    have hne : k' ≠ k := by
      rintro rfl
      simp at hk'
    rw [update_of_ne hne] at hk'
    rw [update_of_ne, h.used k' slot' hk']
    rintro rfl
    exact hne (h.unique k' k slot' hk' hk)
  unique k₁ k₂ slot' h₁ h₂ := by
    have kept : ∀ {k'}, update owns k none k' = some slot' → owns k' = some slot' := by
      intro k' hk'
      rwa [update_of_ne (by rintro rfl; simp at hk')] at hk'
    exact h.unique k₁ k₂ slot' (kept h₁) (kept h₂)

end Exclusive

end YartOS.Owners
