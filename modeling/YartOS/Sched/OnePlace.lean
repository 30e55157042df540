import YartOS.Sched.Queues
import YartOS.Lib.Runs
import Mathlib.Data.Fintype.Basic

/-! Every task that can run is in one place: current on a CPU, parked on one, or on one ready
queue. The invariant needs that a task is woken only when it is nowhere. -/
namespace YartOS.Sched.Queues

open Runs Function Option

/-- The CPU has chosen what to run next and is still on the old task. -/
@[grind] def Stage.leaving {τ : Type} : Stage τ → Bool
  | .switchTo _ | .switchToIdle => true
  | _ => false

/-- The CPU is deciding about its current task. -/
@[grind] def Stage.handling {τ : Type} : Stage τ → Bool
  | .preempt | .park | .switchAfter | .pushPop | .parkYielded => true
  | _ => false

lemma Stage.leaving_of_handling {τ : Type} {g : Stage τ} (h : g.handling = true) : g.leaving = false := by
  cases g <;> first | rfl | cases h

/-- A place of a task; in flight it is chosen and not yet switched to. -/
inductive Place (κ : Type) where
  | current (c : κ)
  | flight (c : κ)
  | parked (c : κ)
  | queued (c : κ)
deriving DecidableEq, Repr

namespace Scheduler

variable {κ τ : Type} [DecidableEq κ] [DecidableEq τ]

/-- `place` says where each task is; a CPU leaving its task is not its place. -/
structure Placed (s : Scheduler κ τ) (place : τ → Option (Place κ)) : Prop where
  current : ∀ t c, (s.current c = some t ∧ (s.stage c).leaving = false) ↔ place t = some (.current c)
  flight : ∀ t c, s.stage c = .switchTo t ↔ place t = some (.flight c)
  parked : ∀ t c, s.apNext c = some t ↔ place t = some (.parked c)
  queued : ∀ t c, t ∈ s.queue c ↔ place t = some (.queued c)
  nodup : ∀ c, (s.queue c).Nodup
  rq : ∀ t c, s.rqCpu t = some c ↔ t ∈ s.queue c
  live : ∀ t, s.state t = .ready ∨ s.state t = .running → place t ≠ none
  alone : ∀ t c c', s.current c = some t → s.current c' = some t → c = c'
  /-- A task that is being left stays on the CPU that leaves it. -/
  leaves : ∀ t c, s.current c = some t → (s.stage c).leaving = true →
    place t = none ∨ place t = some (.parked c) ∨ place t = some (.queued c)
  slot : ∀ c, s.apNext c ≠ none → s.stage c = .switchToIdle ∨ (s.current c = none ∧ s.stage c = .run)
  handling : ∀ c, (s.stage c).handling = true → s.current c ≠ none
  after : ∀ t c, s.current c = some t → s.stage c = .switchAfter → s.state t ≠ .running
  unborn : ∀ t, s.state t = .unborn → place t = none ∧ ∀ c, s.current c ≠ some t

section Leave

omit [DecidableEq κ]

variable (s : Scheduler κ τ) (c : κ)

@[simp] lemma leave_stage : (s.leave c).stage = s.stage := by
  unfold leave
  split <;> try split
  all_goals rfl

@[simp] lemma leave_current : (s.leave c).current = s.current := by
  unfold leave
  split <;> try split
  all_goals rfl

lemma leave_state_zombie {t : τ} (h : s.state t = .zombie) : (s.leave c).state t = .zombie := by
  unfold leave
  split
  · split
    · simp only [setState, update_apply]
      grind
    · exact h
  · exact h

end Leave

namespace Placed

variable {s : Scheduler κ τ} {place : τ → Option (Place κ)} {c : κ} {cur t : τ}

omit [DecidableEq κ] [DecidableEq τ] in
lemma initial : (initial : Scheduler κ τ).Placed fun _ => none := by
  constructor <;> simp [Scheduler.initial, Stage.leaving, Stage.handling]

omit [DecidableEq κ] in
/-- A task changes its state. -/
lemma setState (h : s.Placed place) {st : TaskState} (born : st ≠ .unborn)
    (live : st = .ready ∨ st = .running → place t ≠ none)
    (after : st = .running → ∀ c, s.current c = some t → s.stage c ≠ .switchAfter) :
    (s.setState t st).Placed place := by
  refine ⟨h.current, h.flight, h.parked, h.queued, h.nodup, h.rq, ?_, h.alone, h.leaves, h.slot, h.handling, ?_, ?_⟩
  all_goals
    have hLive := h.live
    have hAfter := h.after
    have hUnborn := h.unborn
    simp only [Scheduler.setState, update_apply]
    grind

omit [DecidableEq κ] in
lemma leave (h : s.Placed place) : (s.leave c).Placed place := by
  unfold Scheduler.leave
  split
  · split
    · rename_i t _ hRunning
      exact h.setState (by decide) (fun _ => h.live t (.inr hRunning)) nofun
    · exact h
  · exact h

omit [DecidableEq κ] [DecidableEq τ] in
lemma at_current (h : s.Placed place) (hCur : s.current c = some cur)
    (hStay : (s.stage c).leaving = false) : place cur = some (.current c) :=
  (h.current cur c).mp ⟨hCur, hStay⟩

omit [DecidableEq κ] [DecidableEq τ] in
/-- The head of a queue and the tasks behind it. -/
lemma head (h : s.Placed place) {rest : List τ} (hQueue : s.queue c = t :: rest) :
    place t = some (.queued c) ∧ (t :: rest).Nodup ∧ ∀ x, x ∈ rest ↔ x ≠ t ∧ place x = some (.queued c) := by
  have hNodup : (t :: rest).Nodup := hQueue ▸ h.nodup c
  refine ⟨(h.queued t c).mp (hQueue ▸ List.mem_cons_self), hNodup, fun x => ?_⟩
  rw [← h.queued, hQueue]
  grind

omit [DecidableEq τ] in
/-- The CPU goes on deciding about its current task. -/
lemma decide (h : s.Placed place) (hCur : s.current c = some cur)
    (hStay : (s.stage c).leaving = false) {g : Stage τ} (hHandling : g.handling = true)
    (after : g = .switchAfter → s.state cur ≠ .running) : (s.setStage c g).Placed place := by
  have hLeaving := Stage.leaving_of_handling hHandling
  cases h
  have hEmpty : s.apNext c = none := by grind
  simp only [setStage]
  constructor <;> simp [update_apply] <;> grind

section

variable (h : s.Placed place)

include h

lemma takeParked (hIdle : s.current c = none) (hRun : s.stage c = .run) (hNext : s.apNext c = some t) :
    ({ s with apNext := update s.apNext c none }.setStage c (.switchTo t)).Placed
      (update place t (some (.flight c))) := by
  have hPlace := (h.parked t c).mp hNext
  cases h
  simp only [setStage]
  constructor <;> simp [update_apply] <;> grind

lemma takeHead (hIdle : s.current c = none) (hRun : s.stage c = .run) (hNext : s.apNext c = none) {rest : List τ}
    (hQueue : s.queue c = t :: rest) : (s.takeHead c t rest).Placed (update place t (some (.flight c))) := by
  obtain ⟨hPlace, -, hRest⟩ := h.head hQueue
  cases h
  simp only [Scheduler.takeHead, setQueue, setStage]
  constructor <;> simp [update_apply] <;> grind

section

variable (hCur : s.current c = some cur) (hHandling : (s.stage c).handling = true)

include hCur hHandling

/-- The CPU queues its current task and takes the head of its queue. -/
lemma handOver {rest : List τ} (hQueue : s.queue c = t :: rest) : ((s.rqPush c cur).takeHead c t (rest ++ [cur])).Placed
      (update (update place cur (some (.queued c))) t (some (.flight c))) := by
  have hPlace := h.at_current hCur (Stage.leaving_of_handling hHandling)
  obtain ⟨hHead, hTail, hRest⟩ := h.head hQueue
  cases h
  have hAppend : (rest ++ [cur]).Nodup := by grind
  have hNe : t ≠ cur := by grind
  clear hQueue hTail
  simp only [Scheduler.takeHead, rqPush, setQueue, setStage]
  constructor <;> simp [update_apply] <;> grind

/-- The CPU parks its current task: while it has one, the slot is free. -/
lemma parkYielded : (s.parkYielded c cur).Placed (update place cur (some (.parked c))) := by
  have hLeaving := Stage.leaving_of_handling hHandling
  cases h
  have hEmpty : s.apNext c = none := by grind
  rw [Scheduler.parkYielded, if_pos hEmpty, setStage]
  constructor <;> simp [update_apply] <;> grind

/-- The CPU leaves a current task that cannot run. -/
lemma giveUp (hReady : s.state cur ≠ .ready) (hRunning : s.state cur ≠ .running) :
    (s.setStage c .switchToIdle).Placed (update place cur none) := by
  have hPlace := h.at_current hCur (Stage.leaving_of_handling hHandling)
  cases h
  simp only [setStage]
  constructor <;> simp [update_apply] <;> grind

end

/-- The CPU arrives at the task in flight. -/
lemma arrive (hStage : s.stage c = .switchTo t) :
    ({ s with current := update s.current c (some t) }.setStage c .run).Placed
      (update place t (some (.current c))) := by
  have hPlace := (h.flight t c).mp hStage
  cases h
  simp only [setStage]
  constructor <;> simp [update_apply] <;> grind

/-- The CPU drops a task in flight that was killed. -/
lemma drop (hStage : s.stage c = .switchTo t) (hZombie : s.state t = .zombie) :
    (s.setStage c .switchToIdle).Placed (update place t none) := by
  have hPlace := (h.flight t c).mp hStage
  cases h
  simp only [setStage]
  constructor <;> simp [update_apply] <;> grind

end

omit [DecidableEq τ] in
/-- The CPU has left its task for the idle loop. -/
lemma idle (h : s.Placed place) (hStage : s.stage c = .switchToIdle) :
    ({ s with current := update s.current c none }.setStage c .run).Placed place := by
  cases h
  simp only [setStage]
  constructor <;> simp [update_apply] <;> grind

/-- A task that is nowhere is queued. -/
lemma wakeOn (h : s.Placed place) (hPlace : place t = none) (hNowhere : ∀ c, s.current c ≠ some t) :
    (s.wakeOn t c).Placed (update place t (some (.queued c))) := by
  cases h
  have hAppend : (s.queue c ++ [t]).Nodup := by grind
  simp only [Scheduler.wakeOn, rqPush, setQueue, Scheduler.setState]
  constructor <;> simp [update_apply] <;> grind

omit [DecidableEq κ] [DecidableEq τ] in
lemma rqCpu_eq_none (h : s.Placed place) (hQueue : ∀ c, place t ≠ some (.queued c)) : s.rqCpu t = none := by
  cases hOn : s.rqCpu t with
  | none => rfl
  | some c => exact absurd ((h.queued t c).mp ((h.rq t c).mp hOn)) (hQueue c)

/-- A task that cannot run leaves queue and slot, but not a CPU at it. -/
lemma unplace (h : s.Placed place) (hReady : s.state t ≠ .ready)
    (hRunning : s.state t ≠ .running) : ∃ place', (s.unplace t).Placed place' := by
  have hSlots : ∀ c, s.apNext c = some t ↔ place t = some (.parked c) := h.parked t
  have hNone := h.rqCpu_eq_none (t := t)
  obtain hSame | ⟨c, hPlace⟩ | ⟨c, hPlace⟩ : ((∀ c, place t ≠ some (.parked c)) ∧
      ∀ c, place t ≠ some (.queued c)) ∨ (∃ c, place t = some (.parked c)) ∨ ∃ c, place t = some (.queued c) := by
    grind
  · have hEq : s.unplace t = s := by simp [Scheduler.unplace, unqueue, hNone hSame.2, hSlots, hSame.1]
    exact ⟨place, by rw [hEq]; exact h⟩
  · refine ⟨update place t none, ?_⟩
    rw [Scheduler.unplace, unqueue, hNone (by simp [hPlace])]
    cases h
    constructor <;> simp [update_apply] <;> grind
  refine ⟨update place t none, ?_⟩
  have hMem : t ∈ s.queue c := (h.queued t c).mpr hPlace
  have hErase : ∀ x, x ∈ (s.queue c).erase t ↔ x ≠ t ∧ x ∈ s.queue c :=
    fun x => (h.nodup c).mem_erase_iff
  have hNodup' := (h.nodup c).erase t
  rw [Scheduler.unplace, unqueue, (h.rq t c).mpr hMem]
  dsimp only
  rw [rqRemove, if_pos hMem, setQueue]
  cases h
  constructor <;> simp [update_apply] <;> grind

end Placed

lemma unplace_setState (s : Scheduler κ τ) (t : τ) (st : TaskState) :
    (s.setState t st).unplace t = (s.unplace t).setState t st := by
  have hOn : (s.setState t st).rqCpu = s.rqCpu := rfl
  have hQueue : (s.setState t st).queue = s.queue := rfl
  have hUnqueue : (s.setState t st).unqueue t = (s.unqueue t).setState t st := by
    unfold unqueue
    rw [hOn]
    split
    · unfold rqRemove
      rw [hQueue]
      split <;> rfl
    · rfl
  rw [unplace, hUnqueue]
  rfl

def Nowhere (s : Scheduler κ τ) (t : τ) : Prop :=
  ∀ c, s.current c ≠ some t ∧ s.stage c ≠ .switchTo t ∧ s.apNext c ≠ some t ∧ t ∉ s.queue c

/-- A wakeup or a SIGCONT finds its task nowhere. -/
def Safe (s : Scheduler κ τ) : Event κ τ → Prop
  | .wake t _ | .cont t _ => s.Nowhere t
  | _ => True

instance [Fintype κ] (s : Scheduler κ τ) (t : τ) : Decidable (s.Nowhere t) := inferInstanceAs (Decidable (∀ _, _))

instance [Fintype κ] (s : Scheduler κ τ) : (e : Event κ τ) → Decidable (s.Safe e)
  | .wake t _ | .cont t _ => inferInstanceAs (Decidable (s.Nowhere t))
  | .advance _ | .yield _ | .block _ | .exit _ | .stop _ | .kill _ | .create _ _ =>
    inferInstanceAs (Decidable True)

def Located (s : Scheduler κ τ) : Prop := ∃ place, s.Placed place

namespace Located

variable {s s' : Scheduler κ τ} {c : κ} {cur t : τ}

section

variable (h : s.Located)

include h

lemma schedTick (hRun : s.stage c = .run) : (s.schedTick c).Located := by
  obtain ⟨place, h⟩ := h
  unfold Scheduler.schedTick
  split
  · rename_i hIdle
    unfold idlePop
    split
    · rename_i hNext
      exact ⟨_, h.takeParked hIdle hRun hNext⟩
    · rename_i hNext hQueue
      exact ⟨_, h.takeHead hIdle hRun hNext hQueue⟩
    · exact ⟨_, h⟩
  · rename_i hCur
    refine ⟨_, h.decide hCur (by rw [hRun]; rfl) (by split <;> rfl) ?_⟩
    intro hAfter hRunning
    simp [hRunning] at hAfter

lemma rotate (hStage : s.stage c = .preempt) (hCur : s.current c = some cur) : (s.rotate c cur).Located := by
  obtain ⟨place, h⟩ := h
  unfold Scheduler.rotate
  split
  · exact ⟨_, h.decide hCur (by rw [hStage]; rfl) rfl nofun⟩
  · rename_i hQueue
    exact ⟨_, h.handOver hCur (by rw [hStage]; rfl) hQueue⟩

lemma parkYielded (hHandling : (s.stage c).handling = true)
    (hCur : s.current c = some cur) : (s.parkYielded c cur).Located := by
  obtain ⟨place, h⟩ := h
  exact ⟨_, h.parkYielded hCur hHandling⟩

lemma park (hStage : s.stage c = .park) (hCur : s.current c = some cur) : (s.park c cur).Located := by
  have hHandling : (s.stage c).handling = true := by rw [hStage]; rfl
  unfold Scheduler.park
  split
  · obtain ⟨place, h⟩ := h
    exact ⟨_, (h.parkYielded hCur hHandling).setState (by decide) (by simp) nofun⟩
  · exact h.parkYielded hHandling hCur

lemma schedSwitchAfter (hStage : s.stage c = .switchAfter)
    (hCur : s.current c = some cur) : (s.schedSwitchAfter c cur).Located := by
  obtain ⟨place, h⟩ := h
  have hOn := h.rqCpu_eq_none (t := cur) (by simp [h.at_current hCur (by rw [hStage]; rfl)])
  unfold Scheduler.schedSwitchAfter
  split_ifs with hReady
  · exact ⟨_, h.decide hCur (by rw [hStage]; rfl) rfl nofun⟩
  · exact ⟨_, h.giveUp hCur (by rw [hStage]; rfl) (fun hEq => hReady ⟨hEq, hOn⟩) (h.after cur c hCur hStage)⟩

lemma rqPushPop (hStage : s.stage c = .pushPop) (hCur : s.current c = some cur) : (s.rqPushPop c cur).Located := by
  obtain ⟨place, h⟩ := h
  have hOn := h.rqCpu_eq_none (t := cur) (by simp [h.at_current hCur (by rw [hStage]; rfl)])
  have hOff : cur ∉ s.queue c := fun hMem => by
    rw [(h.rq cur c).mpr hMem] at hOn
    cases hOn
  unfold Scheduler.rqPushPop
  cases hQueue : s.queue c with
  | nil =>
    have hAlone : (((s.rqPush c cur).takeHead c cur []).rqRemove c cur).setStage c .parkYielded =
        s.setStage c .parkYielded := by
      have hEmpty : cur ∉ ((s.rqPush c cur).takeHead c cur []).queue c := by simp [takeHead, setQueue, setStage]
      rw [rqRemove, if_neg hEmpty]
      simp only [setStage, takeHead, setQueue, rqPush, update_idem]
      have hQueues : update s.queue c [] = s.queue := update_eq_self_iff.mpr hQueue.symm
      have hOns : update s.rqCpu cur none = s.rqCpu := update_eq_self_iff.mpr hOn.symm
      rw [hQueues, hOns]
    simp only [List.nil_append, if_true, hAlone]
    exact ⟨_, h.decide hCur (by rw [hStage]; rfl) rfl nofun⟩
  | cons t rest =>
    have hNe : t ≠ cur := fun hEq => hOff (by simp [hQueue, hEq])
    simp only [List.cons_append, if_neg hNe]
    exact ⟨_, h.handOver hCur (by rw [hStage]; rfl) hQueue⟩

lemma switchTo (hStage : s.stage c = .switchTo t) : (s.switchTo c t).Located := by
  obtain ⟨place, h⟩ := h
  have hPlace : place t = some (.flight c) := (h.flight t c).mp hStage
  have hCur : s.current c ≠ some t := by
    intro hCur
    have := h.leaves t c hCur (by rw [hStage]; rfl)
    simp [hPlace] at this
  rw [Scheduler.switchTo, if_neg hCur]
  split_ifs with hZombie
  · exact ⟨_, h.leave.drop (by simpa using hStage) (s.leave_state_zombie c hZombie)⟩
  have hArrive := (h.leave (c := c)).arrive (by simpa using hStage)
  rw [leave_current] at hArrive
  refine ⟨_, hArrive.setState (by decide) (by simp) ?_⟩
  intro _ c' hCur'
  simp only [setStage, leave_stage, update_apply] at hCur' ⊢
  split_ifs with hNe
  · nofun
  · rw [if_neg hNe] at hCur'
    intro hAfter
    have hAway := (h.current t c').mp ⟨hCur', by rw [hAfter]; rfl⟩
    simp [hPlace] at hAway

lemma switchToIdle (hStage : s.stage c = .switchToIdle) : (s.switchToIdle c).Located := by
  obtain ⟨place, h⟩ := h
  have hIdle := (h.leave (c := c)).idle (by simpa using hStage)
  rw [leave_current] at hIdle
  exact ⟨_, hIdle⟩

lemma advance (step : s.advance c = some s') : s'.Located := by
  unfold Scheduler.advance at step
  split at step <;> cases step
  · exact h.schedTick ‹_›
  · exact h.rotate ‹_› ‹_›
  · exact h.park ‹_› ‹_›
  · exact h.schedSwitchAfter ‹_› ‹_›
  · exact h.rqPushPop ‹_› ‹_›
  · exact h.parkYielded (by rw [‹s.stage c = _›]; rfl) ‹_›
  · exact h.switchTo ‹_›
  · exact h.switchToIdle ‹_›

end

omit [DecidableEq κ] in
/-- A task outside of the scheduler is on its CPU, in any state. -/
lemma become (h : s.Located) {st : TaskState} (born : st ≠ .unborn) (hStop : st ≠ .running)
    (step : s.become c st = some s') : s'.Located := by
  obtain ⟨place, h⟩ := h
  unfold Scheduler.become at step
  split at step
  · rename_i t hRun hCur
    cases step
    have hPlace : place t = some (.current c) := (h.current t c).mp ⟨hCur, by rw [hRun]; rfl⟩
    exact ⟨_, h.setState born (by simp [hPlace]) (fun hEq => absurd hEq hStop)⟩
  · cases step

lemma unplace (h : s.Located) {st : TaskState} (born : st ≠ .unborn) (hReady : st ≠ .ready)
    (hRunning : st ≠ .running) : ((s.unplace t).setState t st).Located := by
  obtain ⟨place, h⟩ := h
  have hState : (s.setState t st).Placed place := h.setState born (by simp [hReady, hRunning])
    (fun hEq => absurd hEq hRunning)
  rw [← unplace_setState]
  exact hState.unplace (by simpa [setState] using hReady) (by simpa [setState] using hRunning)

lemma stop (h : s.Located) : (s.stop t).Located := by
  unfold Scheduler.stop
  split_ifs with hIdle
  · exact h.unplace (by decide) (by decide) (by decide)
  · obtain ⟨place, h⟩ := h
    exact h.unplace (fun hEq => hIdle (.inr hEq)) (fun hEq => hIdle (.inl hEq))

lemma wakeOn (h : s.Located) (hNowhere : s.Nowhere t) : (s.wakeOn t c).Located := by
  obtain ⟨place, h⟩ := h
  have hPlace : place t = none := by
    cases hPlace : place t with
    | none => rfl
    | some p =>
      cases p with
      | current c => exact absurd ((h.current t c).mpr hPlace).1 (hNowhere c).1
      | flight c => exact absurd ((h.flight t c).mpr hPlace) (hNowhere c).2.1
      | parked c => exact absurd ((h.parked t c).mpr hPlace) (hNowhere c).2.2.1
      | queued c => exact absurd ((h.queued t c).mpr hPlace) (hNowhere c).2.2.2
  exact ⟨_, h.wakeOn hPlace fun c => (hNowhere c).1⟩

lemma create (h : s.Located) (hUnborn : s.state t = .unborn) : (s.wakeOn t c).Located := by
  obtain ⟨place, h⟩ := h
  exact ⟨_, h.wakeOn (h.unborn t hUnborn).1 (h.unborn t hUnborn).2⟩

lemma step (h : s.Located) {e : Event κ τ} (safe : s.Safe e) (step : s.step e = some s') : s'.Located := by
  cases e with
  | advance c => exact h.advance step
  | yield c =>
    simp only [Scheduler.step, ite_none_right_eq_some] at step
    exact h.become (by decide) (by decide) step.2
  | block c => exact h.become (by decide) (by decide) step
  | exit c => exact h.become (by decide) (by decide) step
  | wake t target | cont t target =>
    simp only [Scheduler.step, ite_none_right_eq_some, some.injEq] at step
    exact step.2 ▸ h.wakeOn safe
  | stop t =>
    simp only [Scheduler.step, ite_none_right_eq_some, some.injEq] at step
    exact step.2 ▸ h.stop
  | kill t =>
    simp only [Scheduler.step, ite_none_right_eq_some, some.injEq] at step
    exact step.2 ▸ h.unplace (by decide) (by decide) (by decide)
  | create t target =>
    simp only [Scheduler.step, ite_none_right_eq_some, some.injEq] at step
    exact step.2 ▸ h.create step.1

end Located

def At (s : Scheduler κ τ) (t : τ) : Place κ → Prop
  | .current c => s.current c = some t
  | .flight c => s.stage c = .switchTo t
  | .parked c => s.apNext c = some t
  | .queued c => t ∈ s.queue c

/-- No task is current or queued twice, and while no CPU switches, a task that can run is in one
place. -/
structure OnePlace (s : Scheduler κ τ) : Prop where
  alone : ∀ t c c', s.current c = some t → s.current c' = some t → c = c'
  once : ∀ c, (s.queue c).Nodup
  one : (∀ c, (s.stage c).leaving = false) → ∀ t, s.state t = .ready ∨ s.state t = .running → ∃! p, s.At t p

omit [DecidableEq κ] [DecidableEq τ] in
lemma Located.onePlace {s : Scheduler κ τ} (h : s.Located) : s.OnePlace := by
  obtain ⟨place, h⟩ := h
  refine ⟨h.alone, h.nodup, fun hSettled t hLive => ?_⟩
  have hAt : ∀ p, s.At t p ↔ place t = some p := by
    intro p
    cases p with
    | current c => simpa [At, hSettled] using h.current t c
    | flight c => exact h.flight t c
    | parked c => exact h.parked t c
    | queued c => exact h.queued t c
  obtain ⟨p, hPlace⟩ := ne_none_iff_exists'.mp (h.live t hLive)
  refine ⟨p, (hAt p).mpr hPlace, fun p' hOther => ?_⟩
  have hOther := (hAt p').mp hOther
  rw [hPlace] at hOther
  exact (some.inj hOther).symm

/-- Where every wakeup finds its task switched away from, tasks keep to one place. -/
theorem onePlace_of_safe {s : Scheduler κ τ}
    (run : Reaches (Guarded Safe fun s e s' => s.step e = some s') initial s) : s.OnePlace := by
  have hLocated : s.Located := run.invariant ⟨_, Placed.initial⟩
    fun s e s' h step => h.step step.1 step.2
  exact hLocated.onePlace

/-- Two CPUs; task 0 runs on CPU 0, blocks, is left, and wakes on CPU 1. -/
theorem onePlace_of_late_wakeup : ∃ s : Scheduler (Fin 2) (Fin 1), s.current 1 = some 0 ∧ s.OnePlace := by
  have hRun : (([.create 0 0, .advance 0, .advance 0, .block 0, .advance 0, .advance 0, .advance 0,
      .wake 0 1, .advance 1, .advance 1] : List (Event (Fin 2) (Fin 1))).foldlM
        (fun s e => if Safe s e then s.step e else none) initial).any (fun s => s.current 1 = some 0) = true := by
    decide +kernel
  obtain ⟨s, run, hCurrent⟩ := (any_eq_true _ _).mp hRun
  exact ⟨s, by simpa using hCurrent, onePlace_of_safe (Reaches.of_guarded_foldlM run)⟩

/-- Woken before CPU 0 has left it, the task runs on both. -/
theorem early_wakeup_not_onePlace : ∃ s : Scheduler (Fin 2) (Fin 1),
    Reaches (fun s e s' => s.step e = some s') initial s ∧ ¬ s.OnePlace := by
  have hRun : (([.create 0 0, .advance 0, .advance 0, .block 0, .wake 0 1, .advance 1, .advance 1] :
      List (Event (Fin 2) (Fin 1))).foldlM step initial).any
        (fun s => s.current 0 = some 0 ∧ s.current 1 = some 0) = true := by
    decide +kernel
  obtain ⟨s, run, hCurrent⟩ := (any_eq_true _ _).mp hRun
  have hCurrent : s.current 0 = some 0 ∧ s.current 1 = some 0 := by simpa using hCurrent
  refine ⟨s, Reaches.of_foldlM run, fun h => ?_⟩
  exact absurd (h.alone 0 0 1 hCurrent.1 hCurrent.2) (by decide)

end Scheduler

end YartOS.Sched.Queues
