import YartOS.Lib.Runs
import Mathlib.Tactic.Ring

/-! Waiting for children: `sched_waitpid` blocks a parent, and a dying task wakes it. Every section
under a lock and every store outside of one is one step. -/
namespace YartOS.Sched

open Runs List Option Function

inductive TaskState where
  | ready | running | blocked | zombie | stopped
deriving DecidableEq, Repr

/-- `(u32)-1`, any child. -/
def anyPid : Nat := 0xFFFFFFFF

structure Proc where
  ppid : Nat
  state : TaskState := .ready
  waiting : Bool := false
  waitPid : Nat := 0

/-- What is left of a death path after the zombie flag: a wake of the parent, or a second store of
the flag. -/
inductive DeathStage where
  | wake | wakeThenMark | mark
deriving DecidableEq, Repr

structure Death where
  pid : Nat
  stage : DeathStage
deriving DecidableEq, Repr

/-- `tasks` is the list `g_tasks`; a reaped task is no longer in it. -/
structure ProcTable where
  tasks : List Nat
  task : Nat → Proc
  deaths : List Death := []

def ProcTable.boot : ProcTable where
  tasks := [0]
  task := fun _ => { ppid := 0, state := .running }

namespace ProcTable

variable {s s' : ProcTable} {c p q : Nat}

section

variable (s : ProcTable) (p : Nat)

def set (t : Proc) : ProcTable :=
  { s with task := update s.task p t }

def setState (state : TaskState) : ProcTable := s.set p { s.task p with state := state }

def taskAppend : ProcTable := { s with tasks := s.tasks ++ [p] }

def taskRemove : ProcTable := { s with tasks := s.tasks.erase p }

end

def WaitsFor (s : ProcTable) (p c : Nat) : Prop :=
  (s.task p).waiting = true ∧ (s.task p).state = .blocked ∧
    ((s.task p).waitPid = 0 ∨ (s.task p).waitPid = anyPid ∨ (s.task p).waitPid = c)

instance (s : ProcTable) (p c : Nat) : Decidable (s.WaitsFor p c) := inferInstanceAs (Decidable (_ ∧ _ ∧ _))

section

variable (s : ProcTable)

def wakeWaitingParent (c : Nat) : ProcTable :=
  let p := (s.task c).ppid
  if p = 0 then s
  else if p ∈ s.tasks ∧ s.WaitsFor p c then
    s.set p { s.task p with waiting := false, state := .ready }
  else s

/-- The child of `sched_waitpid`: the first dead or stopped, or the first. -/
def pickChild (cur pid : Nat) : Option Nat :=
  let children := s.tasks.filter fun t =>
    (s.task t).ppid = cur ∧ (pid = 0 ∨ pid = anyPid ∨ t = pid)
  (children.find? fun t => (s.task t).state = .zombie ∨ (s.task t).state = .stopped).or
    children.head?

def schedWaitpid (cur pid : Nat) (noHang : Bool) : ProcTable :=
  match s.pickChild cur pid with
  | none => s
  | some c =>
    if (s.task c).state = .stopped then s
    else if (s.task c).state ≠ .zombie then
      if noHang then s
      else s.set cur { s.task cur with waiting := true, waitPid := pid, state := .blocked }
    else s.set cur { s.task cur with waiting := false }

/-- The first store of a death path, with what is left of it. -/
def die (p : Nat) (rest : Option DeathStage) : ProcTable :=
  { s.setState p .zombie with deaths := s.deaths ++ (rest.map (Death.mk p)).toList }

def passed (d : Death) (rest : Option DeathStage) : ProcTable :=
  { s with deaths := s.deaths.erase d ++ (rest.map (Death.mk d.pid)).toList }

def advance (d : Death) : ProcTable :=
  match d.stage with
  | .wake => (s.wakeWaitingParent d.pid).passed d none
  | .wakeThenMark => (s.wakeWaitingParent d.pid).passed d (some .mark)
  | .mark => (s.setState d.pid .zombie).passed d none

inductive Event where
  | create (parent child : Nat)
  | waitpid (cur pid : Nat) (noHang : Bool)
  | reap (c : Nat)
  | exit (p : Nat)
  | exitGroup (p : Nat)
  | kill (p : Nat)
  | faultRecover (p : Nat)
  | advance (d : Death)
  | switchTo (p : Nat)

/-- One step, if it can be taken: only user tasks wait or die, and new pids are unused. The check
of killers that their victim lives may be outdated. -/
def step : Event → Option ProcTable
  | .create parent child =>
    if child ∉ s.tasks ∧ child ≠ 0 ∧ ∀ d ∈ s.deaths, d.pid ≠ child then
      some ((s.set child { ppid := parent }).taskAppend child)
    else none
  | .waitpid cur pid noHang =>
    if cur ∈ s.tasks ∧ cur ≠ 0 then some (s.schedWaitpid cur pid noHang) else none
  | .reap c =>
    if c ∈ s.tasks ∧ (s.task c).state = .zombie then some (s.taskRemove c) else none
  | .exit p | .exitGroup p => if p ∈ s.tasks ∧ p ≠ 0 then some (s.die p (some .wake)) else none
  | .kill p => if p ∈ s.tasks ∧ p ≠ 0 then some (s.die p (some .wakeThenMark)) else none
  | .faultRecover p => if p ∈ s.tasks ∧ p ≠ 0 then some (s.die p none) else none
  | .advance d => if d ∈ s.deaths then some (s.advance d) else none
  | .switchTo p => if (s.task p).state = .ready then some (s.setState p .running) else none

/-- No parent sleeps for a child that is dead, not reaped and done with dying. -/
def NoLostWakeup : Prop :=
  ∀ c ∈ s.tasks, ∀ p ∈ s.tasks, (s.task c).state = .zombie → (s.task c).ppid = p →
    (∀ d ∈ s.deaths, d.pid ≠ c) → ¬ s.WaitsFor p c

/-- A dead task does not wait, and none sleeps for a task with a corrupt frame. -/
def Prompt : Event → Prop
  | .waitpid cur _ _ => (s.task cur).state ≠ .zombie
  | .faultRecover p => ¬ s.WaitsFor (s.task p).ppid p
  | _ => True

end

/-- Who is waited for and dead still wakes the parent, and death paths are of dead tasks. -/
structure Waking (s : ProcTable) : Prop where
  pending : ∀ c ∈ s.tasks, ∀ p ∈ s.tasks, (s.task c).state = .zombie → (s.task c).ppid = p →
    s.WaitsFor p c → ∃ d ∈ s.deaths, d.pid = c ∧ d.stage ≠ .mark
  dead : ∀ d ∈ s.deaths, (s.task d.pid).state = .zombie
  desktop : (s.task 0).waiting = false

@[simp] lemma set_task_self (s : ProcTable) (p : Nat) (t : Proc) : (s.set p t).task p = t := update_self ..

@[simp] lemma set_task_of_ne (h : q ≠ p) (s : ProcTable) (t : Proc) : (s.set p t).task q = s.task q := update_of_ne h ..

lemma set_task_ppid {t : Proc} (h : t.ppid = (s.task p).ppid) (q : Nat) :
    ((s.set p t).task q).ppid = (s.task q).ppid := by
  by_cases hne : q = p
  · rw [hne, set_task_self, h]
  · rw [set_task_of_ne hne]

/-- Where the parent that is chosen blocks, none of its children is dead. -/
lemma pickChild_alive {cur pid c₀ : Nat} (h : s.pickChild cur pid = some c₀)
    (alive : ¬ ((s.task c₀).state = .zombie ∨ (s.task c₀).state = .stopped)) (hc : c ∈ s.tasks)
    (hParent : (s.task c).ppid = cur) (hPid : pid = 0 ∨ pid = anyPid ∨ c = pid) : (s.task c).state ≠ .zombie := by
  unfold pickChild at h
  simp only at h
  generalize hChildren : s.tasks.filter _ = children at h
  cases hFind : children.find? fun t =>
    decide ((s.task t).state = .zombie ∨ (s.task t).state = .stopped) with
  | some x =>
    rw [hFind, some_or, some.injEq] at h
    have := find?_some hFind
    rw [h, decide_eq_true_eq] at this
    exact absurd this alive
  | none =>
    rw [find?_eq_none] at hFind
    have hIn : c ∈ children := by
      rw [← hChildren, mem_filter, decide_eq_true_eq]
      exact ⟨hc, hParent, hPid⟩
    intro hZombie
    exact hFind c hIn (decide_eq_true (.inl hZombie))

namespace Waking

section

variable (w : Waking s)

include w

/-- Nobody starts to wait, deaths wake the parent, and a wake done was not needed or ended the
wait. -/
lemma pending_of (parent : ∀ p ∈ s'.tasks, ∀ c, s'.WaitsFor p c → p ∈ s.tasks ∧ s.WaitsFor p c)
    (child : ∀ c ∈ s'.tasks, (s'.task c).state = .zombie →
      (c ∈ s.tasks ∧ (s.task c).state = .zombie ∧ (s'.task c).ppid = (s.task c).ppid) ∨
        (∃ d ∈ s'.deaths, d.pid = c ∧ d.stage ≠ .mark) ∨ ¬ s'.WaitsFor (s'.task c).ppid c)
    (wakes : ∀ d ∈ s.deaths, d.stage ≠ .mark → d ∈ s'.deaths ∨
        ((s'.task d.pid).ppid ∈ s'.tasks → ¬ s'.WaitsFor (s'.task d.pid).ppid d.pid)) :
    ∀ c ∈ s'.tasks, ∀ p ∈ s'.tasks, (s'.task c).state = .zombie → (s'.task c).ppid = p →
      s'.WaitsFor p c → ∃ d ∈ s'.deaths, d.pid = c ∧ d.stage ≠ .mark := by
  intro c hc p hp hZombie hParent hWaits
  rcases child c hc hZombie with ⟨hIn, hBefore, hSame⟩ | hPending | hNot
  · obtain ⟨hpIn, hWaited⟩ := parent p hp c hWaits
    obtain ⟨d, hd, rfl, hStage⟩ := w.pending c hIn p hpIn hBefore (hSame.symm.trans hParent) hWaited
    cases wakes d hd hStage with
    | inl hd' => exact ⟨d, hd', rfl, hStage⟩
    | inr hNot => exact absurd (hParent ▸ hWaits) (hNot (hParent ▸ hp))
  · exact hPending
  · exact absurd (hParent ▸ hWaits) hNot

lemma set {t : Proc} (hDeaths : ∀ d ∈ s.deaths, d.pid ≠ p)
    (hState : t.state ≠ .zombie) (hWaits : ¬ (t.waiting = true ∧ t.state = .blocked))
    (hDesktop : p = 0 → t.waiting = false) : Waking (s.set p t) := by
  refine ⟨?_, fun d hd => ?_, ?_⟩
  · apply w.pending_of
    · intro q hq c h
      have hne : q ≠ p := by
        rintro rfl
        rw [WaitsFor, set_task_self] at h
        exact hWaits ⟨h.1, h.2.1⟩
      rw [WaitsFor, set_task_of_ne hne] at h
      exact ⟨hq, h⟩
    · intro c hc h
      have hne : c ≠ p := by
        rintro rfl
        rw [set_task_self] at h
        exact hState h
      rw [set_task_of_ne hne] at h ⊢
      exact .inl ⟨hc, h, rfl⟩
    · exact fun d hd _ => .inl hd
  · rw [set_task_of_ne (hDeaths d hd)]
    exact w.dead d hd
  · by_cases h : 0 = p
    · subst h
      exact hDesktop rfl
    · rw [set_task_of_ne h]
      exact w.desktop

/-- A task that is not dead has no death path. -/
lemma not_dying (hp : (s.task p).state ≠ .zombie) : ∀ d ∈ s.deaths, d.pid ≠ p := by
  rintro d hd rfl
  exact hp (w.dead d hd)

lemma taskAppend (hState : (s.task p).state ≠ .zombie)
    (hWaits : (s.task p).waiting = false) : Waking (s.taskAppend p) := by
  refine ⟨?_, w.dead, w.desktop⟩
  apply w.pending_of
  · intro q hq c h
    have hne : q ≠ p := by
      rintro rfl
      exact Bool.noConfusion (hWaits.symm.trans h.1)
    exact ⟨(mem_append.mp hq).resolve_right fun hq => hne (mem_singleton.mp hq), h⟩
  · intro c hc h
    have hne : c ≠ p := by
      rintro rfl
      exact hState h
    exact .inl ⟨(mem_append.mp hc).resolve_right fun hc => hne (mem_singleton.mp hc), h, rfl⟩
  · exact fun d hd _ => .inl hd

lemma taskRemove (c : Nat) : Waking (s.taskRemove c) where
  pending := fun a ha p hp =>
    w.pending a (mem_of_mem_erase ha) p (mem_of_mem_erase hp)
  dead := w.dead
  desktop := w.desktop

lemma schedWaitpid {cur : Nat} (hZero : cur ≠ 0) (hState : (s.task cur).state ≠ .zombie) (pid : Nat)
    (noHang : Bool) : Waking (s.schedWaitpid cur pid noHang) := by
  unfold ProcTable.schedWaitpid
  cases hPick : s.pickChild cur pid with
  | none => exact w
  | some c₀ =>
    simp only
    split
    · exact w
    next hStopped =>
    split
    · next hAlive =>
      split
      · exact w
      -- the parent blocks: it has no dead child among those it waits for
      refine ⟨?_, fun d hd => ?_, ?_⟩
      · intro c hc p hp hZombie hParent hWaits
        have hne : c ≠ cur := by
          rintro rfl
          rw [set_task_self] at hZombie
          cases hZombie
        rw [set_task_of_ne hne] at hZombie hParent
        by_cases hp' : p = cur
        · rw [hp'] at hWaits hParent
          rw [WaitsFor, set_task_self] at hWaits
          have hPid : pid = 0 ∨ pid = anyPid ∨ c = pid := by
            rcases hWaits.2.2 with h | h | h
            · exact .inl h
            · exact .inr (.inl h)
            · exact .inr (.inr h.symm)
          have := pickChild_alive hPick (not_or.mpr ⟨hAlive, hStopped⟩) hc hParent hPid
          exact absurd hZombie this
        · rw [WaitsFor, set_task_of_ne hp'] at hWaits
          exact w.pending c hc p hp hZombie hParent hWaits
      · rw [set_task_of_ne (w.not_dying hState d hd)]
        exact w.dead d hd
      · rw [set_task_of_ne hZero.symm]
        exact w.desktop
    · exact w.set (w.not_dying hState) hState (by simp) fun _ => rfl

/-- The parent no longer sleeps for the child; the rest is as before. -/
lemma wakeWaitingParent (c : Nat) : Waking (s.wakeWaitingParent c) ∧
    ((s.task c).ppid ∈ s.tasks → ¬ (s.wakeWaitingParent c).WaitsFor (s.task c).ppid c) := by
  unfold ProcTable.wakeWaitingParent
  simp only
  split
  · next hZero =>
    refine ⟨w, fun _ h => ?_⟩
    rw [hZero] at h
    exact Bool.noConfusion (w.desktop.symm.trans h.1)
  next hZero =>
  split
  · next hWaits =>
    refine ⟨w.set (w.not_dying ?_) (by simp) (by simp) fun h => absurd h hZero, fun _ h => ?_⟩
    · rw [hWaits.2.2.1]
      simp
    · rw [WaitsFor, set_task_self] at h
      exact Bool.noConfusion h.1
  · next hNot => exact ⟨w, fun hIn h => hNot ⟨hIn, h⟩⟩

lemma die {rest : Option DeathStage} (hMark : rest ≠ some .mark)
    (hNone : rest = none → ¬ s.WaitsFor (s.task p).ppid p) : Waking (s.die p rest) := by
  have self : ((s.die p rest).task p) = { s.task p with state := .zombie } := set_task_self ..
  have other : ∀ {q}, q ≠ p → (s.die p rest).task q = s.task q := fun h => set_task_of_ne h ..
  have waits : ∀ {q c}, (s.die p rest).WaitsFor q c → s.WaitsFor q c := by
    intro q c h
    have hne : q ≠ p := by
      rintro rfl
      rw [WaitsFor, self] at h
      exact TaskState.noConfusion h.2.1
    rwa [WaitsFor, other hne] at h
  refine ⟨?_, fun d hd => ?_, ?_⟩
  · apply w.pending_of
    · exact fun q hq c h => ⟨hq, waits h⟩
    · intro c hc h
      by_cases hne : c = p
      · subst hne
        right
        cases rest with
        | none =>
          right
          rw [self]
          exact fun h => hNone rfl (waits h)
        | some stage =>
          left
          refine ⟨⟨c, stage⟩, mem_append_right _ (by simp), rfl, ?_⟩
          exact fun h => hMark (congrArg some h)
      · rw [other hne] at h ⊢
        exact .inl ⟨hc, h, rfl⟩
    · exact fun d hd _ => .inl (mem_append_left _ hd)
  · by_cases hne : d.pid = p
    · rw [hne, self]
    rw [other hne]
    cases mem_append.mp hd with
    | inl hd => exact w.dead d hd
    | inr hd =>
      cases rest with
      | none => exact nomatch hd
      | some stage =>
        rw [mem_singleton.mp hd] at hne
        exact absurd rfl hne
  · by_cases hne : 0 = p
    · rw [← hne] at self ⊢
      exact w.desktop
    · rw [other hne]
      exact w.desktop

/-- A death step that wakes nobody, or left nobody asleep, is ticked off. -/
lemma passed {d : Death} (hd : d ∈ s.deaths) (rest : Option DeathStage) (h : d.stage = .mark ∨
      ((s.task d.pid).ppid ∈ s.tasks → ¬ s.WaitsFor (s.task d.pid).ppid d.pid)) :
    Waking (s.passed d rest) := by
  refine ⟨?_, fun e he => ?_, w.desktop⟩
  · apply w.pending_of
    · exact fun q hq c h => ⟨hq, h⟩
    · exact fun c hc h => .inl ⟨hc, h, rfl⟩
    · intro e he hStage
      by_cases heq : e = d
      · subst heq
        exact .inr (h.resolve_left hStage)
      · exact .inl (mem_append_left _ ((mem_erase_of_ne heq).mpr he))
  · cases mem_append.mp he with
    | inl he => exact w.dead e (mem_of_mem_erase he)
    | inr he =>
      cases rest with
      | none => exact nomatch he
      | some stage =>
        rw [mem_singleton.mp he]
        exact w.dead d hd

lemma advance {d : Death} (hd : d ∈ s.deaths) : Waking (s.advance d) := by
  have ppid : ((s.wakeWaitingParent d.pid).task d.pid).ppid = (s.task d.pid).ppid := by
    unfold ProcTable.wakeWaitingParent
    simp only
    split
    · rfl
    split
    · apply set_task_ppid
      rfl
    · rfl
  have tasks : (s.wakeWaitingParent d.pid).tasks = s.tasks := by
    unfold ProcTable.wakeWaitingParent
    simp only
    split_ifs <;> rfl
  have deaths : (s.wakeWaitingParent d.pid).deaths = s.deaths := by
    unfold ProcTable.wakeWaitingParent
    simp only
    split_ifs <;> rfl
  have woken : ∀ rest, Waking ((s.wakeWaitingParent d.pid).passed d rest) := by
    intro rest
    obtain ⟨after, asleep⟩ := w.wakeWaitingParent d.pid
    apply after.passed (deaths ▸ hd) rest
    rw [ppid, tasks]
    exact .inr asleep
  have marked : s.setState d.pid .zombie = s := by
    have : ({ s.task d.pid with state := .zombie } : Proc) = s.task d.pid := by rw [← w.dead d hd]
    rw [setState, this, ProcTable.set, update_eq_self]
  unfold ProcTable.advance
  cases hStage : d.stage with
  | wake => exact woken none
  | wakeThenMark => exact woken (some .mark)
  | mark =>
    rw [marked]
    exact w.passed hd none (.inl hStage)

end

lemma boot : Waking boot where
  pending := by
    intro c _ p _ h
    cases h
  dead := by
    intro d hd
    cases hd
  desktop := rfl

lemma step (w : Waking s) (event : Event) (prompt : Prompt s event) (h : s.step event = some s') : Waking s' := by
  cases event with
  | create parent child =>
    obtain ⟨⟨hNew, hZero, hFresh⟩, ⟨⟩⟩ := ite_none_right_eq_some.mp h
    have named := w.set (t := { ppid := parent }) hFresh (by simp) (by simp) fun _ => rfl
    exact named.taskAppend (by simp) (by simp)
  | waitpid cur pid noHang =>
    obtain ⟨⟨hIn, hZero⟩, ⟨⟩⟩ := ite_none_right_eq_some.mp h
    exact w.schedWaitpid hZero prompt pid noHang
  | reap c =>
    obtain ⟨-, ⟨⟩⟩ := ite_none_right_eq_some.mp h
    exact w.taskRemove c
  | exit p | exitGroup p | kill p =>
    obtain ⟨-, ⟨⟩⟩ := ite_none_right_eq_some.mp h
    exact w.die (by simp) (by simp)
  | faultRecover p =>
    obtain ⟨-, ⟨⟩⟩ := ite_none_right_eq_some.mp h
    exact w.die (by simp) fun _ => prompt
  | advance d =>
    obtain ⟨hd, ⟨⟩⟩ := ite_none_right_eq_some.mp h
    exact w.advance hd
  | switchTo p =>
    obtain ⟨hReady, ⟨⟩⟩ := ite_none_right_eq_some.mp h
    have alive : (s.task p).state ≠ .zombie := by
      rw [hReady]
      simp
    exact w.set (w.not_dying alive) (by simp) (by simp) fun h => h ▸ w.desktop

lemma noLostWakeup (w : Waking s) : NoLostWakeup s := by
  intro c hc p hp hZombie hParent hDone hWaits
  obtain ⟨d, hd, hPid, -⟩ := w.pending c hc p hp hZombie hParent hWaits
  exact hDone d hd hPid

end Waking

/-- In a run of prompt steps no wakeup of a waiting parent is lost. -/
theorem noLostWakeup_of_prompt_run (run : Reaches (Guarded Prompt fun s event s' => s.step event = some s') boot s) :
    NoLostWakeup s := by
  have waking : Waking s := by
    apply run.invariant Waking.boot
    intro s event s' w h
    exact w.step event h.1 h.2
  exact waking.noLostWakeup

instance (s : ProcTable) (event : Event) : Decidable (s.Prompt event) := by
  cases event <;> unfold Prompt <;> infer_instance

/-- The parent waits for its child, which exits and wakes it. -/
theorem exit_wakes_parent : ∃ s, Reaches (Guarded Prompt fun s event s' => s.step event = some s') boot s ∧
    (s.task 2).state = .zombie ∧ (s.task 1).state = .ready ∧ NoLostWakeup s := by
  have trace : ([.create 0 1, .create 1 2, .waitpid 1 2 false, .exit 2, .advance ⟨2, .wake⟩].foldlM
      (fun (s : ProcTable) (event : Event) => if Prompt s event then s.step event else none) boot).map
      (fun s => decide ((s.task 2).state = .zombie ∧ (s.task 1).state = .ready)) = some true := by decide
  obtain ⟨s, hRun, hEnd⟩ := map_eq_some_iff.mp trace
  have run := Reaches.of_guarded_foldlM hRun
  rw [decide_eq_true_eq] at hEnd
  exact ⟨s, run, hEnd.1, hEnd.2, noLostWakeup_of_prompt_run run⟩

/-- `sched_fault_recover` drops a child with a corrupt frame and wakes nobody. -/
theorem fault_recover_loses_wakeup : ∃ s,
    Reaches (fun s event s' => s.step event = some s') boot s ∧ ¬ NoLostWakeup s := by
  have trace : ([.create 0 1, .create 1 2, .waitpid 1 2 false, .faultRecover 2].foldlM
      (fun (s : ProcTable) (event : Event) => s.step event) boot).map
      (fun s => decide (1 ∈ s.tasks ∧ 2 ∈ s.tasks ∧ s.deaths = [] ∧ (s.task 2).state = .zombie ∧
        (s.task 2).ppid = 1 ∧ s.WaitsFor 1 2)) = some true := by decide
  obtain ⟨s, hRun, hEnd⟩ := map_eq_some_iff.mp trace
  rw [decide_eq_true_eq] at hEnd
  obtain ⟨hParent, hChild, hDeaths, hZombie, hPpid, hWaits⟩ := hEnd
  refine ⟨s, Reaches.of_foldlM hRun, fun ok => ?_⟩
  exact ok 2 hChild 1 hParent hZombie hPpid (by simp [hDeaths]) hWaits

end ProcTable

end YartOS.Sched
