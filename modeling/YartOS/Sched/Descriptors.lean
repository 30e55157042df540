import YartOS.Lib.Runs
import YartOS.Lib.Tally

/-! Descriptors of tasks, and the pipes and vnodes they refer to; every call counts references by
hand. -/
namespace YartOS.Sched

open Tally List Function

def maxFd : Nat := 64

/-- A `fd_entry_t`: unused, without an object, or for a vnode or a pipe end. -/
inductive Fd where
  | free
  | device
  | node (v : Nat)
  | pipe (p : Nat) (readEnd : Bool)
deriving DecidableEq, Repr

def Fd.inUse (fd : Fd) : Bool := fd ≠ .free

structure FdTask where
  fds : List Fd
  size : fds.length = maxFd
  cwd : Nat
  ppid : Nat := 0
  live : Bool := true

structure Pipe where
  refs : Int := 0
  readEnds : Int := 0
  writeEnds : Int := 0
  freed : Bool := false

/-- The counter of a vnode, its parent, and whether it was freed. -/
structure Vn where
  refs : Nat := 0
  parent : Option Nat := none
  freed : Bool := false

/-- Tasks are numbered from 1 on; vnode 0 is the root. -/
structure FdState where
  tasks : List FdTask := []
  pipe : Nat → Pipe := fun _ => {}
  nextPipe : Nat := 0
  vnode : Nat → Vn := update (fun _ => {}) 0 { refs := 1 }
  nextVnode : Nat := 1

def rootVnode : Nat := 0

namespace FdTask

def setFd (t : FdTask) (k : Nat) (fd : Fd) : FdTask :=
  { t with fds := t.fds.set k fd, size := by rw [length_set, t.size] }

def fdGet (t : FdTask) (k : Nat) : Option Fd := t.fds[k]?.filter Fd.inUse

def allocFdFrom (t : FdTask) (min : Nat) : Option Nat := (range maxFd).find? fun k => min ≤ k ∧ t.fds[k]? = some .free

def allocFd (t : FdTask) : Option Nat := t.allocFdFrom 3

/-- `set_fds0`: descriptors 0, 1 and 2 are in use. -/
def fds0 : List Fd := replicate 3 .device ++ replicate 61 .free

lemma size_fds0 : fds0.length = maxFd := rfl

end FdTask

namespace FdState

variable (s : FdState) (i : Nat) (t : FdTask)

def setTask : FdState := { s with tasks := s.tasks.set i t }

def setPipe (p : Nat) (q : Pipe) : FdState :=
  { s with pipe := update s.pipe p q }

def setVnode (v : Nat) (n : Vn) : FdState :=
  { s with vnode := update s.vnode v n }

def vnodeRef (v : Nat) : FdState := s.setVnode v { s.vnode v with refs := ((s.vnode v).refs + 1) % 2 ^ 32 }

def vnodeUnref (v : Nat) : FdState :=
  if (s.vnode v).refs = 0 then s
  else
    let refs := (s.vnode v).refs - 1
    s.setVnode v { s.vnode v with refs := refs, freed := (s.vnode v).freed || refs = 0 }

def share : Fd → FdState
  | .pipe p readEnd =>
    let q := s.pipe p
    s.setPipe p { q with
      refs := q.refs + 1
      readEnds := if readEnd then q.readEnds + 1 else q.readEnds
      writeEnds := if readEnd then q.writeEnds else q.writeEnds + 1 }
  | .node v => s.vnodeRef v
  | .device | .free => s

def release : Fd → FdState
  | .pipe p readEnd =>
    let q := s.pipe p
    s.setPipe p { q with
      refs := q.refs - 1
      readEnds := if readEnd ∧ q.readEnds > 0 then q.readEnds - 1 else q.readEnds
      writeEnds := if ¬ readEnd ∧ q.writeEnds > 0 then q.writeEnds - 1 else q.writeEnds
      freed := q.freed || q.refs - 1 ≤ 0 }
  | .node v => s.vnodeUnref v
  | .device | .free => s

def sysClose (k : Nat) : FdState :=
  match t.fdGet k with
  | none => s
  | some fd => (s.release fd).setTask i (t.setFd k .free)

def copyFd (k : Nat) (fd : Fd) : FdState := (s.share fd).setTask i (t.setFd k fd)

def sysDup2 (old new : Nat) : FdState :=
  match t.fdGet old with
  | none => s
  | some fd =>
    if maxFd ≤ new ∨ old = new then s
    else (s.sysClose i t new).copyFd i (t.setFd new .free) new fd

/-- `linux_fcntl` with `F_DUPFD`. -/
def linuxFcntlDupfd (old : Nat) (start : Int) : FdState :=
  match t.fdGet old, t.allocFdFrom start.toNat with
  | some fd, some k => s.copyFd i t k fd
  | _, _ => s

def linuxDup (old : Nat) : FdState := s.linuxFcntlDupfd i t old 0

def pipeNew : FdState :=
  { s with
    nextPipe := s.nextPipe + 1
    pipe := update s.pipe s.nextPipe { refs := 2, readEnds := 1, writeEnds := 1 } }

/-- `sys_pipe`, which allocates the second descriptor when the first is taken. -/
def sysPipe : FdState :=
  match t.allocFd with
  | none => s
  | some r =>
    match (t.setFd r .device).allocFd with
    | none => s
    | some w =>
      s.pipeNew.setTask i ((t.setFd r (.pipe s.nextPipe true)).setFd w (.pipe s.nextPipe false))

/-- The end of `sys_open`: `fd` is what the path was resolved to. -/
def sysOpen (fd : Fd) : FdState :=
  match t.allocFdFrom 0 with
  | none => s
  | some k => s.copyFd i t k fd

/-- `sched_create_user`: the working directory is the root, without a reference. -/
def schedCreateUser : FdState :=
  { s with tasks := s.tasks ++ [{ fds := FdTask.fds0, size := FdTask.size_fds0, cwd := rootVnode }] }

/-- The copies of `sched_fork` and `sched_clone_thread`; the loop starts at 3. -/
def copyTask : FdState :=
  let s := (t.fds.drop 3).foldl share s
  let s := s.vnodeRef t.cwd
  { s with tasks := s.tasks ++ [{ t with ppid := i + 1 }] }

/-- No function that ends a task touches its descriptors. -/
def exit : FdState := s.setTask i { t with live := false }

def vfsCreate (parent : Nat) : FdState :=
  { s with nextVnode := s.nextVnode + 1 }.setVnode s.nextVnode { refs := 1, parent := some parent }

/-- The node is detached; the root and filled directories stay. -/
def vfsUnlink (v : Nat) : FdState :=
  if (s.vnode v).parent = none ∨ ∃ u < s.nextVnode, (s.vnode u).parent = some v then s
  else (s.setVnode v { s.vnode v with parent := none }).vnodeUnref v

def sysChdir (v : Nat) : FdState := ((s.vnodeRef v).vnodeUnref t.cwd).setTask i { t with cwd := v }

/-- `fchdir`, which takes no reference and drops none. -/
def linuxFchdir (k : Nat) : FdState :=
  match t.fdGet k with
  | some (.node v) => s.setTask i { t with cwd := v }
  | _ => s

/-- What a lookup may lead to: a node in the tree, the working directory, or a parent. -/
def CanFind (v : Nat) : Prop :=
  v = rootVnode ∨ v = t.cwd ∨ (s.vnode v).parent ≠ none ∨ ∃ u < s.nextVnode, (s.vnode u).parent = some v

instance (s : FdState) (t : FdTask) (v : Nat) : Decidable (s.CanFind t v) :=
  inferInstanceAs (Decidable (_ ∨ _ ∨ _ ∨ ∃ u < _, _))

end FdState

/-- Calls of task `i`, except for `createUser`. -/
inductive FdEvent where
  | createUser
  | fork (i : Nat)
  | clone (i : Nat)
  | exit (i : Nat)
  | pipe (i : Nat)
  | dup2 (i old new : Nat)
  | dup (i old : Nat)
  | dupfd (i old : Nat) (start : Int)
  | close (i k : Nat)
  | openDevice (i : Nat)
  | openNode (i v : Nat)
  | create (i parent : Nat)
  | unlink (i v : Nat)
  | chdir (i v : Nat)
  | fchdir (i k : Nat)

namespace FdState

/-- The call of a live task `t`, the task with number `i`. -/
def call (s : FdState) (i : Nat) (t : FdTask) : FdEvent → FdState
  | .createUser => s.schedCreateUser
  | .fork _ | .clone _ => s.copyTask i t
  | .exit _ => s.exit i t
  | .pipe _ => s.sysPipe i t
  | .dup2 _ old new => s.sysDup2 i t old new
  | .dup _ old => s.linuxDup i t old
  | .dupfd _ old start => s.linuxFcntlDupfd i t old start
  | .close _ k => s.sysClose i t k
  | .openDevice _ => s.sysOpen i t .device
  | .openNode _ v => if s.CanFind t v then s.sysOpen i t (.node v) else s
  | .create _ parent => if s.CanFind t parent then s.vfsCreate parent else s
  | .unlink _ v => if s.CanFind t v then s.vfsUnlink v else s
  | .chdir _ v => if s.CanFind t v then s.sysChdir i t v else s
  | .fchdir _ k => s.linuxFchdir i t k

end FdState

def FdEvent.task : FdEvent → Option Nat
  | .createUser => none
  | .fork i | .clone i | .exit i | .pipe i | .dup2 i _ _ | .dup i _ | .dupfd i _ _ | .close i _
  | .openDevice i | .openNode i _ | .create i _ | .unlink i _ | .chdir i _ | .fchdir i _ => some i

/-- One event; a task that does not exist or is dead makes no call. -/
def FdState.apply (s : FdState) (event : FdEvent) : FdState :=
  match event.task with
  | none => s.schedCreateUser
  | some i =>
    match s.tasks[i]? with
    | none => s
    | some t => if t.live then s.call i t event else s

/-- Either a task is created, or nobody makes the call, or a live task does. -/
lemma FdState.apply_cases (s : FdState) (event : FdEvent) : (event = .createUser ∧ s.apply event = s.schedCreateUser) ∨
    (∃ i, event.task = some i ∧ (∀ t, s.tasks[i]? = some t → t.live = false) ∧ s.apply event = s) ∨
    ∃ i t, event.task = some i ∧ s.tasks[i]? = some t ∧ t.live = true ∧ s.apply event = s.call i t event := by
  cases hEvent : event.task with
  | none =>
    refine .inl ⟨?_, ?_⟩
    · cases event <;> simp_all [FdEvent.task]
    · rw [apply, hEvent]
  | some i =>
    cases hTask : s.tasks[i]? with
    | none => exact .inr (.inl ⟨i, rfl, by simp [hTask], by simp [apply, hEvent, hTask]⟩)
    | some t =>
      cases hLive : t.live with
      | false =>
        exact .inr (.inl ⟨i, rfl, by simp [hTask, hLive], by simp [apply, hEvent, hTask, hLive]⟩)
      | true =>
        exact .inr (.inr ⟨i, t, rfl, hTask, hLive, by simp [apply, hEvent, hTask, hLive]⟩)

variable {s : FdState} {t : FdTask} {fd : Fd} {i k : Nat}

lemma FdTask.fds_of_fdGet (h : t.fdGet k = some fd) : t.fds[k]? = some fd := by
  rw [fdGet, Option.filter_eq_some_iff] at h
  exact h.1

lemma FdTask.fds_of_allocFdFrom {min : Nat} (h : t.allocFdFrom min = some k) : t.fds[k]? = some .free := by
  have := find?_some h
  rw [decide_eq_true_eq] at this
  exact this.2

/-- The two descriptors that `sys_pipe` finds are free and different. -/
lemma FdTask.tally_setFd_setFd {r u : Nat} (hr : t.allocFd = some r)
    (hu : (t.setFd r .device).allocFd = some u) (a b : Fd) {f : Fd → Nat} (hf : f .free = 0) :
    tally f ((t.setFd r a).setFd u b).fds = tally f t.fds + f a + f b := by
  have first : t.fds[r]? = some .free := fds_of_allocFdFrom hr
  have second : (t.setFd r .device).fds[u]? = some .free := fds_of_allocFdFrom hu
  have hNe : r ≠ u := by
    rintro rfl
    have hLt : r < t.fds.length := (List.getElem?_eq_some_iff.mp first).1
    simp [setFd, hLt] at second
  have second : (t.fds.set r a)[u]? = some .free := by
    rw [setFd, List.getElem?_set_ne hNe] at second
    rw [List.getElem?_set_ne hNe]
    exact second
  have inner := tally_set (f := f) first a
  have outer := tally_set (f := f) second b
  simp only [setFd]
  omega

lemma FdTask.setFd_self (h : t.fds[k]? = some fd) : t.setFd k fd = t := by
  obtain ⟨hk, hFd⟩ := List.getElem?_eq_some_iff.mp h
  have : t.fds.set k fd = t.fds := by rw [← hFd, List.set_getElem_self]
  cases t
  simp only [setFd, mk.injEq, and_true] at this ⊢
  exact this

namespace FdState

@[simp] lemma share_tasks (s : FdState) (fd : Fd) : (s.share fd).tasks = s.tasks := by
  cases fd <;> rfl

@[simp] lemma vnodeUnref_tasks (s : FdState) (v : Nat) : (s.vnodeUnref v).tasks = s.tasks := by
  unfold vnodeUnref
  split <;> rfl

@[simp] lemma release_tasks (s : FdState) (fd : Fd) : (s.release fd).tasks = s.tasks := by
  cases fd with
  | node v => exact vnodeUnref_tasks s v
  | _ => rfl

lemma foldl_share_tasks (l : List Fd) (s : FdState) : (l.foldl share s).tasks = s.tasks := by
  induction l generalizing s with
  | nil => rfl
  | cons fd l ih => rw [foldl_cons, ih, share_tasks]

lemma sysClose_of_fdGet_none (h : t.fdGet k = none) : s.sysClose i t k = s := by rw [sysClose, h]

lemma sysClose_of_fdGet (h : t.fdGet k = some fd) : s.sysClose i t k = (s.release fd).setTask i (t.setFd k .free) := by
  rw [sysClose, h]

/-- After a close the descriptor is free, whatever it was. -/
lemma sysClose_task (hTask : s.tasks[i]? = some t) (hk : k < maxFd) :
    (s.sysClose i t k).tasks[i]? = some (t.setFd k .free) := by
  cases hFd : t.fdGet k with
  | none =>
    have free : t.fds[k]? = some .free := by
      rw [FdTask.fdGet, Option.filter_eq_none_iff] at hFd
      have hk : k < t.fds.length := by rwa [t.size]
      have := hFd _ (getElem?_eq_getElem hk)
      rw [Fd.inUse, decide_eq_true_eq, not_not] at this
      rw [getElem?_eq_getElem hk, this]
    rw [sysClose, hFd, FdTask.setFd_self free]
    exact hTask
  | some fd =>
    rw [sysClose, hFd]
    have hi : i < s.tasks.length := (List.getElem?_eq_some_iff.mp hTask).1
    simp [setTask, hi]

/-- `sys_dup2` copies a descriptor to one that was closed. -/
lemma sysDup2_cases (hTask : s.tasks[i]? = some t) (old new : Nat) :
    s.sysDup2 i t old new = s ∨ ∃ fd, let t' := t.setFd new .free
      s.sysDup2 i t old new = (s.sysClose i t new).copyFd i t' new fd ∧
        (s.sysClose i t new).tasks[i]? = some t' ∧ t'.fds[new]? = some .free ∧ fd ∈ t'.fds := by
  unfold sysDup2
  cases hFd : t.fdGet old with
  | none => exact .inl rfl
  | some fd =>
    dsimp only
    split
    · exact .inl rfl
    next hNew =>
    obtain ⟨hLt, hNe⟩ := not_or.mp hNew
    have hLt : new < maxFd := by omega
    have hSize : new < t.fds.length := by rwa [t.size]
    refine .inr ⟨fd, rfl, sysClose_task hTask hLt, by simp [FdTask.setFd, hSize], ?_⟩
    apply mem_of_getElem? (i := old)
    rw [FdTask.setFd, getElem?_set_ne (Ne.symm hNe)]
    exact FdTask.fds_of_fdGet hFd

end FdState

end YartOS.Sched
