import YartOS.Sched.Descriptors

/-! The counters of pipes against the descriptors of live tasks that name them. -/
namespace YartOS.Sched

open Runs Tally Function List FdState FdTask Fd Option

inductive Counter where
  | refs | reads | writes

def Pipe.counter (q : Pipe) : Counter → Int
  | .refs => q.refs
  | .reads => q.readEnds
  | .writes => q.writeEnds

def Fd.weight (c : Counter) (p : Nat) : Fd → Nat
  | .pipe q readEnd =>
    if q = p then
      match c with
      | .refs => 1
      | .reads => if readEnd then 1 else 0
      | .writes => if readEnd then 0 else 1
    else 0
  | _ => 0

/-- `sys_read` on an empty pipe: 0 for the end of the file, or -2. -/
def Pipe.readEmpty (q : Pipe) : Int := if q.writeEnds = 0 then 0 else -2

def FdTask.count (w : Fd → Nat) (t : FdTask) : Nat := if t.live then tally w t.fds else 0

def FdState.count (w : Fd → Nat) (s : FdState) : Nat := tally (FdTask.count w) s.tasks

/-- Counters are the numbers of descriptors, a pipe is freed iff there is none, and readers see the
end iff no write end is left. -/
structure PipesCounted (s : FdState) : Prop where
  counter : ∀ p < s.nextPipe, ∀ c, (s.pipe p).counter c = s.count (Fd.weight c p)
  freed : ∀ p < s.nextPipe, ((s.pipe p).freed = true ↔ s.count (Fd.weight .refs p) = 0)
  eof : ∀ p < s.nextPipe, ((s.pipe p).readEmpty = 0 ↔ s.count (weight .writes p) = 0)

/-- Tasks are copied without pipes in 0, 1 and 2, and end without any. -/
def PipeSafe (s : FdState) : FdEvent → Prop
  | .fork i | .clone i => ∀ t, s.tasks[i]? = some t → t.live = true →
      ∀ fd ∈ t.fds.take 3, ∀ p readEnd, fd ≠ .pipe p readEnd
  | .exit i => ∀ t, s.tasks[i]? = some t → t.live = true → ∀ fd ∈ t.fds, ∀ p readEnd, fd ≠ .pipe p readEnd
  | _ => True

variable {s s' : FdState} {t t' : FdTask} {fd old : Fd} {w : Fd → Nat} {c : Counter} {i k p v : Nat}

lemma Fd.weight_le_refs (c : Counter) (p : Nat) (fd : Fd) : fd.weight c p ≤ fd.weight .refs p := by
  unfold weight
  cases fd with
  | pipe q readEnd =>
    simp only
    split
    · cases c with
      | refs => exact Nat.le_refl 1
      | reads | writes => cases readEnd <;> simp
    · exact Nat.le_refl 0
  | _ => exact Nat.le_refl 0

lemma Fd.weight_refs_le_one (p : Nat) (fd : Fd) : fd.weight .refs p ≤ 1 := by
  unfold weight
  cases fd with
  | pipe q readEnd =>
    simp only
    split <;> decide
  | _ => exact Nat.zero_le 1

lemma Fd.weight_eq_zero (h : ∀ p readEnd, fd ≠ .pipe p readEnd) : fd.weight c p = 0 := by
  cases fd with
  | pipe q readEnd => exact absurd rfl (h q readEnd)
  | _ => rfl

namespace FdState

lemma count_setTask (h : s.tasks[i]? = some t) (t' : FdTask) :
    (s.setTask i t').count w + t.count w = s.count w + t'.count w :=
  tally_set h t'

lemma count_eq_of_tasks (h : s'.tasks = s.tasks) (w : Fd → Nat) : s'.count w = s.count w := by rw [count, count, h]

lemma count_setFd (hTask : s.tasks[i]? = some t) (hLive : t.live = true) (hFd : t.fds[k]? = some old)
    (fd : Fd) : (s.setTask i (t.setFd k fd)).count w + w old = s.count w + w fd := by
  have outer := count_setTask (w := w) hTask (t.setFd k fd)
  have inner := tally_set (f := w) hFd fd
  have before : t.count w = tally w t.fds := if_pos hLive
  have after : (t.setFd k fd).count w = tally w (t.fds.set k fd) := if_pos hLive
  omega

lemma count_mono {w' : Fd → Nat} (s : FdState) (h : ∀ fd, w fd ≤ w' fd) : s.count w ≤ s.count w' := by
  apply tally_mono
  intro t _
  unfold FdTask.count
  split
  · exact tally_mono fun fd _ => h fd
  · exact Nat.le_refl 0

lemma le_count (hTask : s.tasks[i]? = some t) (hLive : t.live = true) (hFd : fd ∈ t.fds) : w fd ≤ s.count w := by
  have inner : w fd ≤ tally w t.fds := le_tally hFd
  have outer : t.count w ≤ s.count w := le_tally (mem_of_getElem? hTask)
  rw [FdTask.count, if_pos hLive] at outer
  omega

section

variable (s : FdState) (fd : Fd)

@[simp] lemma share_nextPipe : (s.share fd).nextPipe = s.nextPipe := by
  cases fd <;> rfl

@[simp] lemma vnodeUnref_pipe (v : Nat) : (s.vnodeUnref v).pipe = s.pipe := by
  unfold vnodeUnref
  split <;> rfl

@[simp] lemma vnodeUnref_nextPipe (v : Nat) : (s.vnodeUnref v).nextPipe = s.nextPipe := by
  unfold vnodeUnref
  split <;> rfl

@[simp] lemma release_nextPipe : (s.release fd).nextPipe = s.nextPipe := by
  cases fd with
  | node v => exact vnodeUnref_nextPipe s v
  | _ => rfl

lemma share_counter (c : Counter) (p : Nat) :
    ((s.share fd).pipe p).counter c = (s.pipe p).counter c + fd.weight c p := by
  cases fd with
  | pipe q readEnd =>
    by_cases hq : q = p
    · subst hq
      simp only [share, setPipe, update_self, weight, if_true]
      cases c <;> cases readEnd <;> simp [Pipe.counter]
    · simp [share, setPipe, update_of_ne (Ne.symm hq), weight, hq]
  | _ => simp [share, vnodeRef, setVnode, weight]

lemma share_freed (p : Nat) : ((s.share fd).pipe p).freed = (s.pipe p).freed := by
  cases fd with
  | pipe q readEnd =>
    by_cases hq : q = p
    · subst hq
      simp [share, setPipe]
    · simp [share, setPipe, update_of_ne (Ne.symm hq)]
  | _ => rfl

end

lemma release_counter (h : (fd.weight c p : Int) ≤ (s.pipe p).counter c) :
    ((s.release fd).pipe p).counter c = (s.pipe p).counter c - fd.weight c p := by
  cases fd with
  | pipe q readEnd =>
    by_cases hq : q = p
    · subst hq
      simp only [weight, if_true] at h ⊢
      simp only [release, setPipe, update_self]
      cases c <;> cases readEnd <;> simp [Pipe.counter] at h ⊢ <;> omega
    · simp [release, setPipe, update_of_ne (Ne.symm hq), weight, hq]
  | _ => simp [release, weight]

variable (l : List Fd) (s : FdState)

lemma release_freed (fd : Fd) (p : Nat) : ((s.release fd).pipe p).freed =
      ((s.pipe p).freed || (decide (0 < fd.weight .refs p) && decide ((s.pipe p).refs - 1 ≤ 0))) := by
  cases fd with
  | pipe q readEnd =>
    by_cases hq : q = p
    · subst hq
      simp [release, setPipe, weight]
    · simp [release, setPipe, update_of_ne (Ne.symm hq), weight, hq]
  | _ => simp [release, weight]

lemma foldl_share_nextPipe : (l.foldl share s).nextPipe = s.nextPipe := by
  induction l generalizing s with
  | nil => rfl
  | cons fd l ih => rw [foldl_cons, ih, share_nextPipe]

lemma foldl_share_freed (p : Nat) : ((l.foldl share s).pipe p).freed = (s.pipe p).freed := by
  induction l generalizing s with
  | nil => rfl
  | cons fd l ih => rw [foldl_cons, ih, share_freed]

lemma foldl_share_counter (c : Counter) (p : Nat) :
    ((l.foldl share s).pipe p).counter c = (s.pipe p).counter c + tally (weight c p) l := by
  induction l generalizing s with
  | nil => simp
  | cons fd l ih =>
    rw [foldl_cons, ih, share_counter, tally_cons]
    omega

end FdState

/-- Pipes that do not exist yet are named by no descriptor. -/
def PipesKnown (s : FdState) : Prop := ∀ p, s.nextPipe ≤ p → s.count (weight .refs p) = 0

lemma PipesCounted.of_counters (counter : ∀ p < s.nextPipe, ∀ c, (s.pipe p).counter c = s.count (weight c p))
    (freed : ∀ p < s.nextPipe, ((s.pipe p).freed = true ↔ s.count (weight .refs p) = 0)) : PipesCounted s := by
  refine ⟨counter, freed, fun p hp => ?_⟩
  have writes : (s.pipe p).writeEnds = s.count (weight .writes p) := counter p hp .writes
  unfold Pipe.readEmpty
  split <;> simp <;> omega

/-- A step that keeps the counting of pipes. -/
structure KeepsPipes (s s' : FdState) : Prop where
  known : PipesKnown s → PipesKnown s'
  counted : PipesKnown s → PipesCounted s → PipesCounted s'

lemma KeepsPipes.refl (s : FdState) : KeepsPipes s s := ⟨id, fun _ => id⟩

lemma KeepsPipes.trans {s'' : FdState} (first : KeepsPipes s s') (second : KeepsPipes s' s'') : KeepsPipes s s'' :=
  ⟨second.known ∘ first.known, fun known ok => second.counted (first.known known) (first.counted known ok)⟩

lemma KeepsPipes.of_eq (hPipe : s'.pipe = s.pipe) (hNext : s'.nextPipe = s.nextPipe)
    (hCount : ∀ c p, s'.count (weight c p) = s.count (weight c p)) : KeepsPipes s s' := by
  constructor
  · intro known
    simp only [PipesKnown, hNext, hCount]
    exact known
  · intro _ ok
    refine ⟨?_, ?_, ?_⟩ <;> simp [hPipe, hNext, hCount]
    · exact ok.counter
    · exact ok.freed
    · exact ok.eof

section Steps

variable (hTask : s.tasks[i]? = some t) (hLive : t.live = true)

include hTask hLive

lemma count_copyFd (hFree : t.fds[k]? = some .free) (fd : Fd) (w : Fd → Nat) (hw : w .free = 0) :
    (s.copyFd i t k fd).count w = s.count w + w fd := by
  have := count_setFd (s := s.share fd) (w := w) (by simpa using hTask) hLive hFree fd
  rw [hw, count_eq_of_tasks (share_tasks s fd)] at this
  exact this

lemma KeepsPipes.copyFd (hFree : t.fds[k]? = some .free)
    (hNamed : ∀ p, fd.weight .refs p ≤ s.count (weight .refs p)) : KeepsPipes s (s.copyFd i t k fd) := by
  have hNext : (s.copyFd i t k fd).nextPipe = s.nextPipe := share_nextPipe s fd
  have count := fun c p => count_copyFd hTask hLive hFree fd (weight c p) rfl
  constructor
  · intro known p hp
    rw [hNext] at hp
    have := hNamed p
    have := known p hp
    rw [count]
    omega
  intro _ ok
  apply PipesCounted.of_counters
  · intro p hp c
    rw [hNext] at hp
    have counter := share_counter s fd c p
    rw [ok.counter p hp c] at counter
    rw [count]
    exact counter
  · intro p hp
    rw [hNext] at hp
    have same : ((s.copyFd i t k fd).pipe p).freed = (s.pipe p).freed := share_freed s fd p
    rw [same, ok.freed p hp, count]
    have := hNamed p
    omega

lemma count_sysClose (hFd : t.fdGet k = some fd) (w : Fd → Nat) (hw : w .free = 0) :
    (s.sysClose i t k).count w + w fd = s.count w := by
  rw [sysClose_of_fdGet hFd]
  have := count_setFd (s := s.release fd) (w := w) (by simpa using hTask) hLive (fds_of_fdGet hFd) .free
  rw [hw, count_eq_of_tasks (release_tasks s fd)] at this
  exact this

lemma KeepsPipes.sysClose : KeepsPipes s (s.sysClose i t k) := by
  cases hFd : t.fdGet k with
  | none =>
    rw [sysClose_of_fdGet_none hFd]
    exact .refl s
  | some fd =>
    have hNext : (s.sysClose i t k).nextPipe = s.nextPipe := by
      rw [sysClose_of_fdGet hFd]
      exact release_nextPipe s fd
    have hPipe : (s.sysClose i t k).pipe = (s.release fd).pipe := by
      rw [sysClose_of_fdGet hFd]
      rfl
    have held : ∀ c p, fd.weight c p ≤ s.count (weight c p) := fun c p =>
      le_count hTask hLive (mem_of_getElem? (fds_of_fdGet hFd))
    have count := fun c p => count_sysClose hTask hLive hFd (weight c p) rfl
    constructor
    · intro known p hp
      rw [hNext] at hp
      have := count .refs p
      have := known p hp
      omega
    intro _ ok
    apply PipesCounted.of_counters
    · intro p hp c
      rw [hNext] at hp
      have counter := ok.counter p hp c
      have := count c p
      rw [hPipe, release_counter (by rw [counter]; exact_mod_cast held c p), counter]
      omega
    intro p hp
    rw [hNext] at hp
    have refs : (s.pipe p).refs = s.count (weight .refs p) := ok.counter p hp .refs
    have := count .refs p
    have := fd.weight_refs_le_one p
    rw [hPipe, release_freed, Bool.or_eq_true, ok.freed p hp, Bool.and_eq_true,
      decide_eq_true_eq, decide_eq_true_eq, refs]
    omega

lemma KeepsPipes.sysDup2 (old new : Nat) : KeepsPipes s (s.sysDup2 i t old new) := by
  obtain same | ⟨fd, eq, closed, free, named⟩ := sysDup2_cases hTask old new
  · rw [same]
    exact .refl s
  · rw [eq]
    exact (KeepsPipes.sysClose hTask hLive).trans
      (KeepsPipes.copyFd closed hLive free fun p => le_count closed hLive named)

lemma KeepsPipes.linuxFcntlDupfd (old : Nat) (start : Int) : KeepsPipes s (s.linuxFcntlDupfd i t old start) := by
  unfold FdState.linuxFcntlDupfd
  split
  · next fd k hFd hk =>
    exact KeepsPipes.copyFd hTask hLive (fds_of_allocFdFrom hk) fun p =>
      FdState.le_count hTask hLive (mem_of_getElem? (fds_of_fdGet hFd))
  · exact .refl s

lemma KeepsPipes.sysOpen (hFd : ∀ p, fd.weight .refs p = 0) : KeepsPipes s (s.sysOpen i t fd) := by
  unfold FdState.sysOpen
  split
  · exact .refl s
  · next k hk =>
    refine KeepsPipes.copyFd hTask hLive (fds_of_allocFdFrom hk) fun p => ?_
    rw [hFd p]
    exact Nat.zero_le _

lemma count_sysPipe {r u : Nat} (hr : t.allocFd = some r) (hu : (t.setFd r .device).allocFd = some u)
    (w : Fd → Nat) (hw : w .free = 0) :
    (s.setTask i ((t.setFd r (.pipe p true)).setFd u (.pipe p false))).count w =
      s.count w + w (.pipe p true) + w (.pipe p false) := by
  have whole := count_setTask (w := w) hTask ((t.setFd r (.pipe p true)).setFd u (.pipe p false))
  have before : t.count w = tally w t.fds := if_pos hLive
  have after : ((t.setFd r (.pipe p true)).setFd u (.pipe p false)).count w =
      tally w ((t.setFd r (.pipe p true)).setFd u (.pipe p false)).fds := if_pos hLive
  have := tally_setFd_setFd hr hu (.pipe p true) (.pipe p false) hw
  omega

lemma KeepsPipes.sysPipe : KeepsPipes s (s.sysPipe i t) := by
  unfold FdState.sysPipe
  cases hr : t.allocFd with
  | none => exact .refl s
  | some r =>
    simp only
    cases hu : (t.setFd r .device).allocFd with
    | none => exact .refl s
    | some u =>
      -- Only the counters of the new pipe differ, and only the new descriptors name it.
      have count := fun c p => count_sysPipe (s := s.pipeNew) (p := s.nextPipe) hTask hLive hr hu (weight c p) rfl
      have hTasks : s.pipeNew.tasks = s.tasks := rfl
      simp only [count_eq_of_tasks hTasks] at count
      have other : ∀ c p, p ≠ s.nextPipe → (pipe s.nextPipe true).weight c p = 0 ∧
          (pipe s.nextPipe false).weight c p = 0 := fun c p hp =>
        ⟨if_neg (Ne.symm hp), if_neg (Ne.symm hp)⟩
      constructor
      · intro known p hp
        have hp : s.nextPipe + 1 ≤ p := hp
        have := known p (by omega)
        obtain ⟨hRead, hWrite⟩ := other .refs p (by omega)
        rw [count, hRead, hWrite, this]
      intro known ok
      have none : ∀ c, s.count (weight c s.nextPipe) = 0 := fun c => by
        have := count_mono s (weight_le_refs c s.nextPipe)
        have := known s.nextPipe (Nat.le_refl _)
        omega
      apply PipesCounted.of_counters
      · intro p hp c
        have hp : p < s.nextPipe + 1 := hp
        rw [count]
        by_cases hNew : p = s.nextPipe
        · subst hNew
          rw [none c]
          cases c <;> simp [setTask, pipeNew, weight, Pipe.counter]
        · obtain ⟨hRead, hWrite⟩ := other c p hNew
          rw [hRead, hWrite, Nat.add_zero, ← ok.counter p (by omega) c]
          simp [FdState.setTask, FdState.pipeNew, update_of_ne hNew]
      · intro p hp
        have hp : p < s.nextPipe + 1 := hp
        rw [count]
        by_cases hNew : p = s.nextPipe
        · subst hNew
          simp [FdState.setTask, FdState.pipeNew, weight]
        · obtain ⟨hRead, hWrite⟩ := other .refs p hNew
          rw [hRead, hWrite, Nat.add_zero, ← ok.freed p (by omega)]
          simp [FdState.setTask, FdState.pipeNew, update_of_ne hNew]

omit hTask in
lemma count_copyTask (w : Fd → Nat) :
    (s.copyTask i t).count w = s.count w + tally w (t.fds.take 3) + tally w (t.fds.drop 3) := by
  have tasks : (s.copyTask i t).tasks = s.tasks ++ [{ t with ppid := i + 1 }] :=
    congrArg (· ++ _) (FdState.foldl_share_tasks (t.fds.drop 3) s)
  have new : count w { t with ppid := i + 1 } = tally w t.fds := if_pos hLive
  rw [FdState.count, tasks, tally_append, tally_cons, tally_nil, new, Nat.add_assoc (s.count w),
    ← tally_append, take_append_drop]
  rfl

lemma tally_fds_le_count (w : Fd → Nat) : tally w (t.fds.take 3) + tally w (t.fds.drop 3) ≤ s.count w := by
  have : t.count w ≤ s.count w := le_tally (mem_of_getElem? hTask)
  rwa [FdTask.count, if_pos hLive, ← take_append_drop 3 t.fds, tally_append] at this

lemma PipesKnown.copyTask (known : PipesKnown s) : PipesKnown (s.copyTask i t) := by
  intro p hp
  have hp : s.nextPipe ≤ p := (foldl_share_nextPipe (t.fds.drop 3) s).symm.trans_le hp
  have held := tally_fds_le_count hTask hLive (weight .refs p)
  have := known p hp
  rw [count_copyTask hLive]
  omega

/-- The loop misses exactly descriptors 0, 1 and 2. -/
lemma pipesCounted_copyTask_iff (known : PipesKnown s) (ok : PipesCounted s) :
    PipesCounted (s.copyTask i t) ↔ ∀ fd ∈ t.fds.take 3, ∀ p readEnd, fd ≠ .pipe p readEnd := by
  have hNext : (s.copyTask i t).nextPipe = s.nextPipe := foldl_share_nextPipe (t.fds.drop 3) s
  have counter : ∀ p < s.nextPipe, ∀ c, ((s.copyTask i t).pipe p).counter c =
      s.count (weight c p) + tally (weight c p) (t.fds.drop 3) := fun p hp c => by
    rw [← ok.counter p hp c]
    exact foldl_share_counter (t.fds.drop 3) s c p
  constructor
  · rintro copied fd hFd p readEnd rfl
    have one : 1 ≤ tally (weight .refs p) (t.fds.take 3) := by
      have := le_tally (f := weight .refs p) hFd
      rwa [weight, if_pos rfl] at this
    have held := tally_fds_le_count hTask hLive (weight .refs p)
    have hp : p < s.nextPipe := by
      by_contra hp
      have := known p (by omega)
      omega
    have := copied.counter p (hNext.symm ▸ hp) .refs
    rw [counter p hp, count_copyTask hLive] at this
    omega
  · intro noPipe
    have missed : ∀ c p, tally (weight c p) (t.fds.take 3) = 0 := fun c p =>
      tally_eq_zero_iff.mpr fun fd hFd => weight_eq_zero (noPipe fd hFd)
    apply PipesCounted.of_counters
    · intro p hp c
      rw [hNext] at hp
      rw [counter p hp, count_copyTask hLive, missed]
      omega
    intro p hp
    rw [hNext] at hp
    have same : ((s.copyTask i t).pipe p).freed = (s.pipe p).freed := foldl_share_freed (t.fds.drop 3) s p
    have held := tally_fds_le_count hTask hLive (weight .refs p)
    rw [same, ok.freed p hp, count_copyTask hLive]
    omega

lemma count_exit (w : Fd → Nat) : (s.exit i t).count w + tally w t.fds = s.count w := by
  have := count_setTask (w := w) hTask { t with live := false }
  have dead : FdTask.count w { t with live := false } = 0 := if_neg Bool.false_ne_true
  rw [dead, FdTask.count, if_pos hLive] at this
  exact this

lemma PipesKnown.exit (known : PipesKnown s) : PipesKnown (s.exit i t) := by
  intro p hp
  have := count_exit hTask hLive (weight .refs p)
  have := known p hp
  omega

/-- The counters stay as they are. -/
lemma pipesCounted_exit_iff (known : PipesKnown s) (ok : PipesCounted s) :
    PipesCounted (s.exit i t) ↔ ∀ fd ∈ t.fds, ∀ p readEnd, fd ≠ .pipe p readEnd := by
  constructor
  · rintro ended fd hFd p readEnd rfl
    have one : 1 ≤ tally (weight .refs p) t.fds := by
      have := le_tally (f := weight .refs p) hFd
      rwa [weight, if_pos rfl] at this
    have change := count_exit hTask hLive (weight .refs p)
    have hp : p < s.nextPipe := by
      by_contra hp
      have := known p (by omega)
      omega
    have before : (s.pipe p).counter .refs = _ := ok.counter p hp .refs
    have after : (s.pipe p).counter .refs = _ := ended.counter p hp .refs
    omega
  · intro noPipe
    have missed : ∀ c p, (s.exit i t).count (weight c p) = s.count (weight c p) := fun c p => by
      rw [← count_exit hTask hLive, tally_eq_zero_iff.mpr fun fd hFd =>
        weight_eq_zero (noPipe fd hFd), Nat.add_zero]
    have same : KeepsPipes s (s.exit i t) := .of_eq rfl rfl missed
    exact same.counted known ok

end Steps

lemma KeepsPipes.schedCreateUser (s : FdState) : KeepsPipes s s.schedCreateUser := by
  refine .of_eq rfl rfl fun c p => ?_
  have none : tally (weight c p) FdTask.fds0 = 0 := by simp [FdTask.fds0, tally, weight]
  rw [FdState.count, FdState.schedCreateUser, tally_append, tally_cons, tally_nil, FdTask.count, if_pos rfl, none]
  rfl

lemma KeepsPipes.vfsUnlink (s : FdState) (v : Nat) : KeepsPipes s (s.vfsUnlink v) := by
  unfold FdState.vfsUnlink
  split
  · exact .refl s
  · refine .of_eq ?_ ?_ fun c p => FdState.count_eq_of_tasks ?_ _ <;> simp [FdState.setVnode]

lemma KeepsPipes.sysChdir (hTask : s.tasks[i]? = some t) (v : Nat) : KeepsPipes s (s.sysChdir i t v) := by
  refine .of_eq ?_ ?_ fun c p => ?_
  · exact vnodeUnref_pipe _ _
  · exact vnodeUnref_nextPipe _ _
  · have := count_setTask (s := (s.vnodeRef v).vnodeUnref t.cwd) (w := weight c p)
      (by rw [vnodeUnref_tasks]; exact hTask) { t with cwd := v }
    rw [count_eq_of_tasks (vnodeUnref_tasks _ _)] at this
    exact Nat.add_right_cancel this

lemma KeepsPipes.linuxFchdir (hTask : s.tasks[i]? = some t) (k : Nat) : KeepsPipes s (s.linuxFchdir i t k) := by
  unfold FdState.linuxFchdir
  split
  · next v _ =>
    exact .of_eq rfl rfl fun c p =>
      Nat.add_right_cancel (FdState.count_setTask hTask { t with cwd := v })
  · exact .refl s

/-- Calls that do not copy or end a task keep the counting. -/
lemma KeepsPipes.call (hTask : s.tasks[i]? = some t) (hLive : t.live = true) (event : FdEvent)
    (hCopy : ∀ j, event ≠ .fork j ∧ event ≠ .clone j ∧ event ≠ .exit j) : KeepsPipes s (s.call i t event) := by
  cases event with
  | createUser => exact .schedCreateUser s
  | fork j => exact absurd rfl (hCopy j).1
  | clone j => exact absurd rfl (hCopy j).2.1
  | exit j => exact absurd rfl (hCopy j).2.2
  | pipe j => exact .sysPipe hTask hLive
  | dup2 j old new => exact .sysDup2 hTask hLive old new
  | dup j old => exact .linuxFcntlDupfd hTask hLive old 0
  | dupfd j old start => exact .linuxFcntlDupfd hTask hLive old start
  | close j k => exact .sysClose hTask hLive
  | openDevice j => exact .sysOpen hTask hLive fun _ => rfl
  | openNode j v =>
    simp only [FdState.call]
    split
    · exact .sysOpen hTask hLive fun _ => rfl
    · exact .refl s
  | create j parent =>
    simp only [FdState.call]
    split
    · exact .of_eq rfl rfl fun _ _ => rfl
    · exact .refl s
  | unlink j v =>
    simp only [FdState.call]
    split
    · exact .vfsUnlink s v
    · exact .refl s
  | chdir j v =>
    simp only [FdState.call]
    split
    · exact .sysChdir hTask v
    · exact .refl s
  | fchdir j k => exact .linuxFchdir hTask k

/-- A call keeps the counting exactly when it is safe. -/
lemma pipesCounted_call_iff {event : FdEvent} (hEvent : event.task = some i)
    (hTask : s.tasks[i]? = some t) (hLive : t.live = true) (known : PipesKnown s)
    (ok : PipesCounted s) : PipesCounted (s.call i t event) ↔ PipeSafe s event := by
  have only : ∀ (P : FdTask → Prop), (∀ t', s.tasks[i]? = some t' → t'.live = true → P t') ↔ P t :=
    fun P => ⟨fun h => h t hTask hLive, fun h t' hTask' _ => by
      rw [hTask, some_inj] at hTask'
      exact hTask' ▸ h⟩
  cases event with
  | fork j | clone j =>
    obtain rfl : j = i := some_inj.mp hEvent
    exact (pipesCounted_copyTask_iff hTask hLive known ok).trans
      (only fun t => ∀ fd ∈ t.fds.take 3, ∀ p readEnd, fd ≠ .pipe p readEnd).symm
  | exit j =>
    obtain rfl : j = i := some_inj.mp hEvent
    exact (pipesCounted_exit_iff hTask hLive known ok).trans
      (only fun t => ∀ fd ∈ t.fds, ∀ p readEnd, fd ≠ .pipe p readEnd).symm
  | _ => exact iff_of_true ((KeepsPipes.call hTask hLive _ (by simp)).counted known ok) trivial

lemma PipesKnown.apply (event : FdEvent) (known : PipesKnown s) : PipesKnown (s.apply event) := by
  obtain ⟨-, h⟩ | ⟨i, -, -, h⟩ | ⟨i, t, -, hTask, hLive, h⟩ := s.apply_cases event <;> rw [h]
  · exact (KeepsPipes.schedCreateUser s).known known
  · exact known
  · cases event with
    | fork j | clone j => exact known.copyTask hTask hLive
    | exit j => exact known.exit hTask hLive
    | _ => exact (KeepsPipes.call hTask hLive _ (by simp)).known known

lemma pipesCounted_apply_iff (event : FdEvent) (known : PipesKnown s) (ok : PipesCounted s) :
    PipesCounted (s.apply event) ↔ PipeSafe s event := by
  obtain ⟨rfl, h⟩ | ⟨i, hEvent, dead, h⟩ | ⟨i, t, hEvent, hTask, hLive, h⟩ := s.apply_cases event <;>
    rw [h]
  · exact iff_of_true ((KeepsPipes.schedCreateUser s).counted known ok) trivial
  · refine iff_of_true ok ?_
    cases event with
    | fork j | clone j | exit j =>
      obtain rfl : j = i := some_inj.mp hEvent
      intro t hTask hLive
      exact absurd hLive (by simp [dead t hTask])
    | _ => trivial
  · exact pipesCounted_call_iff hEvent hTask hLive known ok

/-- The counters are right after every call iff no task was copied with a pipe in 0, 1 or 2, and
none ended with a pipe. -/
theorem pipes_counted_iff (events : List FdEvent) : Along apply (fun _ _ s' => PipesCounted s') {} events ↔
      Along apply (fun s event _ => PipeSafe s event) {} events := by
  have known : PipesKnown {} := fun _ _ => rfl
  have ok : PipesCounted {} := by constructor <;> exact fun p hp => absurd hp (Nat.not_lt_zero p)
  exact Along.iff_safe (fun s event => PipesKnown.apply event)
    (fun s event => pipesCounted_apply_iff event) known ok events

/-- A pipe's write end is put on descriptor 1 before a fork: one of its four descriptors is not
counted, and the pipe is freed while the child has it. -/
theorem fork_with_piped_stdout_not_counted : ¬ Along apply (fun _ _ s' => PipesCounted s') {}
      [.createUser, .pipe 0, .dup2 0 4 1, .fork 0] := by
  intro h
  have counter := h.2.2.2.1.counter 0 (by decide) .writes
  revert counter
  decide

end YartOS.Sched
