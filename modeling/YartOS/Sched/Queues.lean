import Mathlib.Data.List.Basic

/-! The ready queues of the scheduler. What a CPU does under one lock, or without one, is one step.
An idle CPU has no current task. -/
namespace YartOS.Sched.Queues

inductive TaskState where
  | unborn | ready | running | blocked | stopped | zombie
deriving DecidableEq, Repr

/-- Where a CPU is: outside the scheduler, or before the section of this name. -/
inductive Stage (τ : Type) where
  | run
  /-- `sched_preempt`, for a current task that was seen running. -/
  | preempt
  /-- Parking it, since the queue was empty. -/
  | park
  /-- `sched_switch_after`, for a current task that was seen not running. -/
  | switchAfter
  /-- Its `rq_push_pop`, for a task that yielded. -/
  | pushPop
  /-- Parking that task, since it was alone on the queue. -/
  | parkYielded
  | switchTo (next : τ)
  | switchToIdle
deriving DecidableEq, Repr

/-- What the scheduler keeps per CPU (`apNext` is parked) and per task. -/
structure Scheduler (κ τ : Type) where
  current : κ → Option τ
  apNext : κ → Option τ
  queue : κ → List τ
  stage : κ → Stage τ
  state : τ → TaskState
  rqCpu : τ → Option κ

namespace Scheduler

variable {κ τ : Type} [DecidableEq κ] [DecidableEq τ]

def initial : Scheduler κ τ where
  current _ := none
  apNext _ := none
  queue _ := []
  stage _ := .run
  state _ := .unborn
  rqCpu _ := none

variable (s : Scheduler κ τ)

def setState (t : τ) (st : TaskState) : Scheduler κ τ :=
  { s with state := Function.update s.state t st }

def setStage (c : κ) (g : Stage τ) : Scheduler κ τ :=
  { s with stage := Function.update s.stage c g }

def setQueue (c : κ) (q : List τ) (t : τ) (on : Option κ) : Scheduler κ τ :=
  { s with queue := Function.update s.queue c q, rqCpu := Function.update s.rqCpu t on }

def rqPush (c : κ) (t : τ) : Scheduler κ τ := s.setQueue c (s.queue c ++ [t]) t (some c)

/-- Takes the head `t` of the queue of `c`, whose tail is `rest`, to switch to it. -/
def takeHead (c : κ) (t : τ) (rest : List τ) : Scheduler κ τ := (s.setQueue c rest t none).setStage c (.switchTo t)

def rqRemove (c : κ) (t : τ) : Scheduler κ τ :=
  if t ∈ s.queue c then s.setQueue c ((s.queue c).erase t) t none else s

def unqueue (t : τ) : Scheduler κ τ :=
  match s.rqCpu t with
  | some c => s.rqRemove c t
  | none => s

/-- Takes a task off queue and parking slots, as SIGSTOP and `sched_kill` do. -/
def unplace (t : τ) : Scheduler κ τ :=
  { s.unqueue t with apNext := fun c => if s.apNext c = some t then none else s.apNext c }

variable (c : κ) (cur : τ)

def leave : Scheduler κ τ :=
  match s.current c with
  | some t => if s.state t = .running then s.setState t .ready else s
  | none => s

/-- `idle_pop`, then on to `switch_to`. -/
def idlePop : Scheduler κ τ :=
  match s.apNext c, s.queue c with
  | some t, _ => { s with apNext := Function.update s.apNext c none }.setStage c (.switchTo t)
  | none, t :: rest => s.takeHead c t rest
  | none, [] => s

def schedTick : Scheduler κ τ :=
  match s.current c with
  | none => s.idlePop c
  | some t => s.setStage c (if s.state t = .running then .preempt else .switchAfter)

def rotate : Scheduler κ τ :=
  match s.queue c with
  | [] => s.setStage c .park
  | t :: rest => (s.rqPush c cur).takeHead c t (rest ++ [cur])

def parkYielded : Scheduler κ τ :=
  if s.apNext c = none then
    { s with apNext := Function.update s.apNext c (some cur) }.setStage c .switchToIdle
  else s.setStage c .switchToIdle

/-- The parking of `sched_preempt` makes the task ready as well. -/
def park : Scheduler κ τ :=
  if s.apNext c = none then (s.parkYielded c cur).setState cur .ready else s.parkYielded c cur

/-- A task that yielded and is on no queue is queued; any other is just left. -/
def schedSwitchAfter : Scheduler κ τ :=
  s.setStage c (if s.state cur = .ready ∧ s.rqCpu cur = none then .pushPop else .switchToIdle)

/-- `rq_push_pop` of the yielding task; if it comes back, `rq_remove` follows. -/
def rqPushPop : Scheduler κ τ :=
  match s.queue c ++ [cur] with
  | [] => s
  | t :: rest =>
    if t = cur then (((s.rqPush c cur).takeHead c t rest).rqRemove c cur).setStage c .parkYielded
    else (s.rqPush c cur).takeHead c t rest

def switchTo (next : τ) : Scheduler κ τ :=
  if s.current c = some next then s.setStage c .run
  else if s.state next = .zombie then (s.leave c).setStage c .switchToIdle
  else
    ({ s.leave c with current := Function.update s.current c (some next) }.setStage c .run).setState
      next .running

def switchToIdle : Scheduler κ τ :=
  { s.leave c with current := Function.update s.current c none }.setStage c .run

/-- The next section of the scheduler on `c`. -/
def advance (c : κ) : Option (Scheduler κ τ) :=
  match s.stage c, s.current c with
  | .run, _ => some (s.schedTick c)
  | .preempt, some cur => some (s.rotate c cur)
  | .park, some cur => some (s.park c cur)
  | .switchAfter, some cur => some (s.schedSwitchAfter c cur)
  | .pushPop, some cur => some (s.rqPushPop c cur)
  | .parkYielded, some cur => some (s.parkYielded c cur)
  | .switchTo next, _ => some (s.switchTo c next)
  | .switchToIdle, _ => some (s.switchToIdle c)
  | _, none => none

def become (c : κ) (st : TaskState) : Option (Scheduler κ τ) :=
  match s.stage c, s.current c with
  | .run, some t => some (s.setState t st)
  | _, _ => none

/-- Queues a task and makes it ready, as the wakers do, on the CPU they choose. -/
def wakeOn (t : τ) (target : κ) : Scheduler κ τ := (s.rqPush target t).setState t .ready

def stop (t : τ) : Scheduler κ τ :=
  if s.state t = .running ∨ s.state t = .ready then (s.unplace t).setState t .stopped
  else s.unplace t

def kill (t : τ) : Scheduler κ τ := (s.unplace t).setState t .zombie

end Scheduler

/-- The steps of the system; any blocked task may be woken. -/
inductive Event (κ τ : Type) where
  | advance (c : κ)
  /-- `sched_yield`. -/
  | yield (c : κ)
  /-- `sched_futex_wait`, `sched_sleep_ms` or `sched_waitpid`. -/
  | block (c : κ)
  | exit (c : κ)
  | wake (t : τ) (target : κ)
  | stop (t : τ)
  | cont (t : τ) (target : κ)
  | kill (t : τ)
  /-- `sched_fork`. -/
  | create (t : τ) (target : κ)
deriving DecidableEq, Repr

namespace Scheduler

variable {κ τ : Type} [DecidableEq κ] [DecidableEq τ]

def Alive (s : Scheduler κ τ) (t : τ) : Prop := s.state t ≠ .unborn ∧ s.state t ≠ .zombie

instance (s : Scheduler κ τ) (t : τ) : Decidable (s.Alive t) := inferInstanceAs (Decidable (_ ∧ _))

def step (s : Scheduler κ τ) : Event κ τ → Option (Scheduler κ τ)
  | .advance c => s.advance c
  | .yield c => if (s.current c).any fun t => s.state t = .running then s.become c .ready else none
  | .block c => s.become c .blocked
  | .exit c => s.become c .zombie
  | .wake t target => if s.state t = .blocked then some (s.wakeOn t target) else none
  | .stop t => if s.Alive t then some (s.stop t) else none
  | .cont t target => if s.state t = .stopped then some (s.wakeOn t target) else none
  | .kill t => if s.Alive t then some (s.kill t) else none
  | .create t target => if s.state t = .unborn then some (s.wakeOn t target) else none

end Scheduler

end YartOS.Sched.Queues
