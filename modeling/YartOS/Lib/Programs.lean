import Mathlib.Tactic.Ring

/-! Programs that pass a state and may stop, with rules of pre- and postconditions. -/
namespace YartOS.Programs

abbrev Prog (σ α : Type) := StateT σ Option α

variable {σ α β : Type} {P : σ → Prop} {Q : α → σ → Prop} {x : Prog σ α}

/-- Started where `P` holds, the program ends where `Q` holds of its result. -/
def Triple (P : σ → Prop) (x : Prog σ α) (Q : α → σ → Prop) : Prop := ∀ s a s', P s → x s = some (a, s') → Q a s'

abbrev Keeps (P : σ → Prop) (x : Prog σ α) : Prop := Triple P x fun _ => P

variable {f : α → Prog σ β} {s s' t : σ} {b : β} {a : α} {u : PUnit} {k : PUnit → Prog σ β}
  {r : Option (β × σ)} {c : Prop}

lemma of_bind (h : (x >>= f) s = some (b, s')) : ∃ a t, x s = some (a, t) ∧ f a t = some (b, s') := by
  obtain ⟨⟨a, t⟩, hx, hf⟩ := Option.bind_eq_some_iff.mp h
  exact ⟨a, t, hx, hf⟩

lemma of_pure {b : α} (h : (pure a : Prog σ α) s = some (b, s')) : a = b ∧ s = s' := by
  cases h
  exact ⟨rfl, rfl⟩

lemma of_modify {f : σ → σ} (h : (modify f : Prog σ PUnit) s = some (u, s')) : f s = s' := by
  cases h
  rfl

lemma of_bind_pure {f : α → β} (h : (x >>= fun a => pure (f a)) s = some (b, s')) : ∃ a, x s = some (a, s') ∧ f a = b := by
  obtain ⟨a, t, hx, hf⟩ := of_bind h
  obtain ⟨rfl, rfl⟩ := of_pure hf
  exact ⟨a, hx, rfl⟩

lemma of_modify_bind {f : σ → σ} (h : (modify f >>= k) s = r) : k ⟨⟩ (f s) = r := h

def require (c : Prop) [Decidable c] : Prog σ PUnit := fun s => if c then some (⟨⟩, s) else none

lemma require_eq_some [Decidable c] {u : PUnit} {s s' : σ} : require c s = some (u, s') ↔ c ∧ s = s' := by
  by_cases h : c <;> simp [require, h]

lemma require_pos [Decidable c] (h : c) : (require c : Prog σ PUnit) = pure ⟨⟩ := by
  funext s
  exact if_pos h

def ofOption (o : Option α) : Prog σ α := fun s => o.map (·, s)

lemma ofOption_eq_some {o : Option α} : ofOption o s = some (a, s') ↔ o = some a ∧ s = s' := by
  cases o <;> simp [ofOption]

/-- A program whose first part is known to end. -/
lemma bind_run (h : x s = some (a, t)) : (x >>= f) s = f a t := by
  change (x s >>= fun r => f r.1 r.2) = _
  rw [h]
  rfl

lemma bind_of (h : x s = some (a, t)) (rest : f a t = r) : (x >>= f) s = r := (bind_run h).trans rest

lemma ofOption_bind {o : Option α} (h : o = some a) (rest : f a s = r) : (ofOption o >>= f) s = r :=
  bind_of (ofOption_eq_some.mpr ⟨h, rfl⟩) rest

lemma require_bind [Decidable c] (h : c) (rest : k ⟨⟩ s = r) : (require c >>= k) s = r :=
  bind_of (require_eq_some.mpr ⟨h, rfl⟩) rest

/-- A program that begins by reading the state. -/
lemma get_bind_run (f : σ → Prog σ β) (s : σ) : (get >>= f) s = f s s := rfl

lemma of_get_bind {f : σ → Prog σ β} (h : (get >>= f) s = r) : f s s = r := h

/-! Programs that do not stop. -/

/-- Started in `s`, the program ends. -/
def Ends (x : Prog σ α) (s : σ) : Prop := (x s).isSome

lemma ends_bind : Ends (x >>= f) s ↔ ∃ a t, x s = some (a, t) ∧ Ends (f a) t := by
  unfold Ends
  cases h : x s with
  | none =>
    change (x s >>= fun r => f r.1 r.2).isSome = true ↔ _
    simp [h]
  | some r =>
    obtain ⟨a, t⟩ := r
    rw [bind_run h]
    constructor
    · intro hRest
      exact ⟨a, t, rfl, hRest⟩
    · rintro ⟨a', t', hEq, hRest⟩
      cases hEq
      exact hRest

lemma ends_bind_run (h : x s = some (a, t)) : Ends (x >>= f) s ↔ Ends (f a) t := by
  rw [Ends, bind_run h]
  rfl

@[simp] lemma ends_pure : Ends (pure a : Prog σ α) s := rfl

@[simp] lemma ends_modify {f : σ → σ} : Ends (modify f : Prog σ PUnit) s := rfl

lemma ends_modify_bind {f : σ → σ} : Ends (modify f >>= k) s ↔ Ends (k ⟨⟩) (f s) := Iff.rfl

lemma ends_get_bind {k : σ → Prog σ β} : Ends (get >>= k) s ↔ Ends (k s) s := Iff.rfl

lemma ends_require_bind [Decidable c] {k : PUnit → Prog σ β} {s : σ} :
    Ends (require c >>= k) s ↔ c ∧ Ends (k ⟨⟩) s := by
  rw [ends_bind]
  constructor
  · rintro ⟨u, t, hRun, hRest⟩
    obtain ⟨hc, rfl⟩ := require_eq_some.mp hRun
    exact ⟨hc, hRest⟩
  · rintro ⟨hc, hRest⟩
    exact ⟨⟨⟩, s, require_eq_some.mpr ⟨hc, rfl⟩, hRest⟩

lemma ends_require_pure_bind [Decidable c] {a : α} {k : α → Prog σ β} {s : σ} :
    Ends ((require c >>= fun _ => pure a) >>= k) s ↔ c ∧ Ends (k a) s := by
  rw [bind_assoc]
  exact ends_require_bind

/-- A program whose end does not depend on what came before. -/
lemma ends_bind_const {k : α → Prog σ β} (rest : ∀ a t, Ends (k a) t ↔ c) : Ends (x >>= k) s ↔ Ends x s ∧ c := by
  rw [ends_bind]
  constructor
  · rintro ⟨a, t, hRun, hRest⟩
    exact ⟨by rw [Ends, hRun]; rfl, (rest a t).mp hRest⟩
  · rintro ⟨hEnds, hc⟩
    obtain ⟨⟨a, t⟩, hRun⟩ := Option.isSome_iff_exists.mp hEnds
    exact ⟨a, t, hRun, (rest a t).mpr hc⟩

lemma ends_ite [Decidable c] {y : Prog σ α} {s : σ} :
    Ends (if c then x else y) s ↔ if c then Ends x s else Ends y s := by
  split <;> rfl

namespace Triple

lemma pure {a : α} (h : ∀ s, P s → Q a s) : Triple P (pure a) Q := by
  intro s b s' hP run
  obtain ⟨rfl, rfl⟩ := of_pure run
  exact h s hP

variable {R : β → σ → Prop}

lemma bind {f : α → Prog σ β} (first : Triple P x Q) (rest : ∀ a, Triple (Q a) (f a) R) : Triple P (x >>= f) R := by
  intro s b s' hP run
  obtain ⟨a, t, hx, hf⟩ := of_bind run
  exact rest a t b s' (first s a t hP hx) hf

/-- Reading the state fixes it for the rest of the program. -/
lemma get_bind {f : σ → Prog σ β} (rest : ∀ s, P s → Triple (· = s) (f s) R) : Triple P (get >>= f) R := by
  intro s b s' hP run
  exact rest s hP s b s' rfl (of_get_bind run)

lemma ite {c : Prop} [Decidable c] {y : Prog σ α} (yes : c → Triple P x Q)
    (no : ¬ c → Triple P y Q) : Triple P (if c then x else y) Q := by
  split
  · exact yes ‹_›
  · exact no ‹_›

/-- A loop over a list keeps what its body keeps. -/
lemma forM {f : β → Prog σ PUnit} {l : List β} (body : ∀ b ∈ l, Keeps P (f b)) : Keeps P (l.forM f) := by
  induction l with
  | nil => exact pure fun _ h => h
  | cons b l ih =>
    refine bind (body b (by simp)) fun _ => ?_
    exact ih fun c hc => body c (by simp [hc])

end Triple

end YartOS.Programs
