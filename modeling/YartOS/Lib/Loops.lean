import Mathlib.Tactic.Ring

/-! The loop that counts an integer up, and what carries over from a round to the whole loop. -/
namespace YartOS.Loops

variable {σ : Type*}

/-- The first rounds of a loop that starts at `lo`. -/
def rounds (lo : Int) (body : Int → σ → σ) : Nat → σ → σ
  | 0, s => s
  | n + 1, s => body (lo + n) (rounds lo body n s)

def forUpTo (lo hi : Int) (body : Int → σ → σ) (s : σ) : σ := rounds lo body (hi - lo).toNat s

variable {lo hi : Int} {body : Int → σ → σ} {R : σ → σ → Prop}

variable (refl : ∀ s, R s s) (trans : ∀ s t u, R s t → R t u → R s u)

include refl trans

lemma rounds_rel {n : Nat}
    (round : ∀ i, lo ≤ i → i < lo + n → ∀ s, R s (body i s)) (s : σ) : R s (rounds lo body n s) := by
  induction n with
  | zero => exact refl s
  | succ n ih =>
    have hBefore := ih fun i hlo hn => round i hlo (by omega)
    exact trans _ _ _ hBefore (round (lo + n) (by omega) (by omega) _)

/-- What holds across each round holds across the loop. -/
lemma forUpTo_rel (round : ∀ i, lo ≤ i → i < hi → ∀ s, R s (body i s)) (s : σ) : R s (forUpTo lo hi body s) :=
  rounds_rel refl trans (fun i hlo hn => round i hlo (by omega)) s

/-- The loop around one of its rounds. -/
lemma forUpTo_round (round : ∀ i, lo ≤ i → i < hi → ∀ s, R s (body i s)) {i : Int} (hlo : lo ≤ i) (hhi : i < hi)
    (s : σ) : ∃ t, R s t ∧ R (body i t) (forUpTo lo hi body s) := by
  have hAll : ∀ n : Nat, n ≤ (hi - lo).toNat → i < lo + n → ∃ t, R s t ∧ R (body i t) (rounds lo body n s) := by
    intro n hn hi'
    induction n with
    | zero => omega
    | succ n ih =>
      by_cases hLast : i = lo + n
      · subst hLast
        exact ⟨_, rounds_rel refl trans (fun i hi₁ hi₂ => round i hi₁ (by omega)) s, refl _⟩
      · obtain ⟨t, hBefore, hAfter⟩ := ih (by omega) (by omega)
        exact ⟨t, hBefore, trans _ _ _ hAfter (round (lo + n) (by omega) (by omega) _)⟩
  exact hAll _ (Nat.le_refl _) (by omega)

end YartOS.Loops
