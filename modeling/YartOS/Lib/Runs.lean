import Mathlib.Logic.Basic

/-! Runs of a labelled transition system, and the induction that carries an
invariant along them. -/
namespace YartOS.Runs

open Option

variable {State Label : Type*} {step step' : State → Label → State → Prop}
  {start middle finish : State}

/-- The states that some finite sequence of steps reaches. -/
inductive Reaches (step : State → Label → State → Prop) (start : State) : State → Prop where
  | refl : Reaches step start start
  | tail {s s' : State} (label : Label) : Reaches step start s → step s label s' → Reaches step start s'

/-- Keep only the steps whose label is acceptable in the state before them. -/
def Guarded (ok : State → Label → Prop) (step : State → Label → State → Prop)
    (s : State) (label : Label) (s' : State) : Prop :=
  ok s label ∧ step s label s'

/-- Each step of a deterministic run on labels has the property. -/
def Along (apply : State → Label → State) (P : State → Label → State → Prop) : State → List Label → Prop
  | _, [] => True
  | s, label :: labels => P s label (apply s label) ∧ Along apply P (apply s label) labels

variable {P Inv : State → Prop} {Safe : State → Label → Prop} {s : State}

/-- A property of the first state that every step preserves holds throughout. -/
lemma Reaches.invariant (run : Reaches step start finish) (first : P start)
    (preserved : ∀ s label s', P s → step s label s' → P s') : P finish := by
  induction run with
  | refl => exact first
  | tail label _ last ih => exact preserved _ label _ ih last

variable {apply : State → Label → State}

/-- Where a step keeps a property iff it is safe, the property holds after each step of a run iff
each step is safe. `Inv` is what every step keeps. -/
lemma Along.iff_safe (inv : ∀ s label, Inv s → Inv (apply s label))
    (step : ∀ s label, Inv s → P s → (P (apply s label) ↔ Safe s label))
    {s : State} (hInv : Inv s) (hP : P s) (labels : List Label) :
    Along apply (fun _ _ s' => P s') s labels ↔ Along apply (fun s label _ => Safe s label) s labels := by
  induction labels generalizing s with
  | nil => exact Iff.rfl
  | cons label labels ih =>
    constructor
    · rintro ⟨now, later⟩
      exact ⟨(step s label hInv hP).mp now, (ih (inv s label hInv) now).mp later⟩
    · rintro ⟨now, later⟩
      have kept := (step s label hInv hP).mpr now
      exact ⟨kept, (ih (inv s label hInv) kept).mpr later⟩

/-- What an invariant gives at safe steps holds along a safe run. -/
lemma Along.of_invariant {P : State → Label → State → Prop}
    (step : ∀ s label, Inv s → Safe s label → P s label (apply s label) ∧ Inv (apply s label))
    {s : State} (hInv : Inv s) {labels : List Label}
    (safe : Along apply (fun s label _ => Safe s label) s labels) : Along apply P s labels := by
  induction labels generalizing s with
  | nil => trivial
  | cons label labels ih =>
    obtain ⟨now, kept⟩ := step s label hInv safe.1
    exact ⟨now, ih kept safe.2⟩

lemma Along.of_safe (step : ∀ s label, Inv s → Safe s label → Inv (apply s label)) {s : State}
    (hInv : Inv s) {labels : List Label} (safe : Along apply (fun s label _ => Safe s label) s labels) :
    Along apply (fun _ _ s' => Inv s') s labels :=
  Along.of_invariant (fun s label hInv hSafe => and_self_iff.mpr (step s label hInv hSafe)) hInv safe

lemma Along.mono {P Q : State → Label → State → Prop} (weaker : ∀ s label s', P s label s' → Q s label s') {s : State}
    {labels : List Label} (run : Along apply P s labels) : Along apply Q s labels := by
  induction labels generalizing s with
  | nil => trivial
  | cons label labels ih => exact ⟨weaker _ _ _ run.1, ih run.2⟩

/-- What every label of the run has is known at each step. -/
lemma Along.with_mem {Q : Label → Prop} {P : State → Label → State → Prop} {labels : List Label}
    (mem : ∀ label ∈ labels, Q label) (run : Along apply P s labels) :
    Along apply (fun s label s' => Q label ∧ P s label s') s labels := by
  induction labels generalizing s with
  | nil => trivial
  | cons label labels ih =>
    exact ⟨⟨mem label List.mem_cons_self, run.1⟩,
      ih (fun other hOther => mem other (List.mem_cons_of_mem label hOther)) run.2⟩

lemma Reaches.mono (run : Reaches step start finish)
    (weaker : ∀ s label s', step s label s' → step' s label s') : Reaches step' start finish := by
  induction run with
  | refl => exact .refl
  | tail label _ last ih => exact .tail label ih (weaker _ _ _ last)

variable {next : State → Label → Option State} {labels : List Label}

/-- The property holds in every state of a run, the first included. -/
def Throughout (next : State → Label → Option State) (P : State → Prop) : State → List Label → Prop
  | s, [] => P s
  | s, label :: labels => P s ∧ ∀ s', next s label = some s' → Throughout next P s' labels

lemma Throughout.first (h : Throughout next P s labels) : P s := by
  cases labels with
  | nil => exact h
  | cons label labels => exact h.1

lemma Throughout.of_forall (h : ∀ s, P s) : Throughout next P s labels := by
  induction labels generalizing s with
  | nil => exact h s
  | cons label labels ih => exact ⟨h s, fun s' _ => ih⟩

/-- What every safe step keeps holds throughout a run of safe steps. -/
lemma Throughout.of_safe {safe : Label → Prop}
    (step : ∀ s label s', Inv s → safe label → next s label = some s' → Inv s') (holds : ∀ s, Inv s → P s) {s : State}
    (hInv : Inv s) (hSafe : ∀ label ∈ labels, safe label) : Throughout next P s labels := by
  induction labels generalizing s with
  | nil => exact holds s hInv
  | cons label labels ih =>
    refine ⟨holds s hInv, fun s' hNext => ih (step s label s' hInv (hSafe label (by simp)) hNext) ?_⟩
    exact fun label' h => hSafe label' (by simp [h])

/-- Where unsafe steps end the property, a run that keeps it is safe. -/
lemma Throughout.safe {kind safe : Label → Prop}
    (step : ∀ s label s', Inv s → kind label → safe label → next s label = some s' → Inv s')
    (ends : ∀ s label s', Inv s → kind label → ¬ safe label → next s label = some s' → ¬ P s')
    {s : State} (hInv : Inv s) (hKind : ∀ label ∈ labels, kind label) (h : Throughout next P s labels)
    (run : (labels.foldlM next s).isSome) : ∀ label ∈ labels, safe label := by
  induction labels generalizing s with
  | nil => simp
  | cons label labels ih =>
    obtain ⟨finish, run⟩ := isSome_iff_exists.mp run
    obtain ⟨s', hNext, rest⟩ := bind_eq_some_iff.mp run
    have later := h.2 s' hNext
    have hLabel := hKind label (by simp)
    have now : safe label := Classical.byContradiction fun hUnsafe =>
      ends s label s' hInv hLabel hUnsafe hNext later.first
    have rest := ih (step s label s' hInv hLabel now hNext)
      (fun label' h => hKind label' (by simp [h])) later (by rw [rest]; rfl)
    intro label' hMem
    rcases List.mem_cons.mp hMem with rfl | hMem
    · exact now
    · exact rest label' hMem

/-- Running a step function over a list of labels. -/
lemma Reaches.of_foldlM (run : labels.foldlM next start = some finish) :
    Reaches (fun s label s' => next s label = some s') start finish := by
  have extend : ∀ {s}, Reaches (fun s label s' => next s label = some s') start s → labels.foldlM next s = some finish →
      Reaches (fun s label s' => next s label = some s') start finish := by
    clear run
    induction labels with
    | nil =>
      intro s before run
      cases run
      exact before
    | cons label labels ih =>
      intro s before run
      obtain ⟨s', first, rest⟩ := bind_eq_some_iff.mp run
      exact ih (.tail label before first) rest
  exact extend .refl run

/-- The same when each label is checked first. -/
lemma Reaches.of_guarded_foldlM {ok : State → Label → Prop} [∀ s label, Decidable (ok s label)]
    (run : labels.foldlM (fun s label => if ok s label then next s label else none) start =
      some finish) : Reaches (Guarded ok fun s label s' => next s label = some s') start finish :=
  (Reaches.of_foldlM run).mono fun _ _ _ h => ite_none_right_eq_some.mp h

end YartOS.Runs
