import YartOS.Sched.Descriptors

/-! The references of vnodes: the tree, the descriptors and the working directories. -/
namespace YartOS.Sched

open Runs Tally Function List FdState Option

def Fd.nodeWeight (v : Nat) (fd : Fd) : Nat := if fd = .node v then 1 else 0

/-- The references of a task; the working directory counts for copied tasks only. -/
def FdTask.held (v : Nat) (t : FdTask) : Nat := tally (Fd.nodeWeight v) t.fds + if t.ppid ≠ 0 ∧ t.cwd = v then 1 else 0

namespace FdState

def held (s : FdState) (v : Nat) : Nat := tally (FdTask.held v) s.tasks

def linked (s : FdState) (v : Nat) : Nat :=
  (if v = rootVnode then 1 else 0) + if (s.vnode v).parent ≠ none then 1 else 0

end FdState

/-- Freed vnodes are off the tree, and no descriptor or working directory names them. -/
def VnodesAlive (s : FdState) : Prop :=
  ∀ v, (s.vnode v).freed = true → v ≠ rootVnode ∧ (s.vnode v).parent = none ∧ ∀ t ∈ s.tasks, t.cwd ≠ v ∧ .node v ∉ t.fds

/-- Copied tasks have no vnode in 0, 1 and 2; `chdir` is made by copied tasks, `fchdir` to their
directory; new nodes go into the tree; no counter is near its end. -/
def VnodeSafe (s : FdState) (event : FdEvent) : Prop :=
  (∀ v < s.nextVnode, (s.vnode v).refs + maxFd < 2 ^ 32) ∧
  match event with
  | .fork i | .clone i => ∀ t, s.tasks[i]? = some t → ∀ fd ∈ t.fds.take 3, ∀ v, fd ≠ .node v
  | .create _ parent => parent = rootVnode ∨ (s.vnode parent).parent ≠ none
  | .chdir i _ => ∀ t, s.tasks[i]? = some t → t.ppid ≠ 0
  | .fchdir i k => ∀ t, s.tasks[i]? = some t → ∀ v, t.fdGet k = some (.node v) → v = t.cwd
  | _ => True

/-- The counters are at least what refers to the vnodes. -/
structure VnodesCounted (s : FdState) : Prop where
  counted : ∀ v, s.linked v + s.held v ≤ (s.vnode v).refs
  freed : ∀ v, (s.vnode v).freed = true → (s.vnode v).refs = 0
  created : ∀ t ∈ s.tasks, t.ppid = 0 → t.cwd = rootVnode
  parents : ∀ u p, (s.vnode u).parent = some p → 0 < s.linked p
  fresh : ∀ v, s.nextVnode ≤ v → (s.vnode v).refs = 0

variable {s s' : FdState} {t t' : FdTask} {fd old : Fd} {i k u v p : Nat}

lemma Fd.nodeWeight_of_ne (h : fd ≠ .node v) : fd.nodeWeight v = 0 := if_neg h

lemma Fd.nodeWeight_le_one (v : Nat) (fd : Fd) : fd.nodeWeight v ≤ 1 := by
  unfold nodeWeight
  split <;> decide

lemma FdState.linked_pos (h : v = rootVnode ∨ (s.vnode v).parent ≠ none) : 0 < s.linked v := by
  unfold linked
  obtain h | h := h <;> rw [if_pos h] <;> omega

namespace VnodesCounted

variable (ok : VnodesCounted s)
include ok

lemma vnodesAlive : VnodesAlive s := by
  intro v hFreed
  have zero := ok.counted v
  rw [ok.freed v hFreed, Nat.le_zero, Nat.add_eq_zero_iff, linked, held, Nat.add_eq_zero_iff, tally_eq_zero_iff] at zero
  obtain ⟨⟨hRoot, hParent⟩, hHeld⟩ := zero
  have hRoot : v ≠ rootVnode := fun h => by simp [h] at hRoot
  refine ⟨hRoot, ?_, fun t ht => ?_⟩
  · by_contra h
    simp [h] at hParent
  have := hHeld t ht
  rw [FdTask.held, Nat.add_eq_zero_iff, tally_eq_zero_iff] at this
  obtain ⟨hFds, hCwd⟩ := this
  constructor
  · rintro rfl
    have hPpid : t.ppid = 0 := by
      by_contra h
      simp [h] at hCwd
    exact hRoot (ok.created t ht hPpid)
  · intro hFd
    have := hFds _ hFd
    rw [Fd.nodeWeight, if_pos rfl] at this
    cases this

lemma refs_pos_of_linked (h : 0 < s.linked v) : 0 < (s.vnode v).refs := by
  have := ok.counted v
  omega

lemma refs_pos_of_held (ht : t ∈ s.tasks) (h : 0 < t.held v) : 0 < (s.vnode v).refs := by
  have inTask : t.held v ≤ s.held v := le_tally ht
  have := ok.counted v
  omega

lemma refs_pos_of_fd (ht : t ∈ s.tasks) (h : .node v ∈ t.fds) : 0 < (s.vnode v).refs := by
  apply ok.refs_pos_of_held ht
  have := le_tally (f := Fd.nodeWeight v) h
  rw [Fd.nodeWeight, if_pos rfl] at this
  unfold FdTask.held
  omega

lemma refs_pos_of_cwd (ht : t ∈ s.tasks) : 0 < (s.vnode t.cwd).refs := by
  by_cases hPpid : t.ppid = 0
  · exact ok.refs_pos_of_linked (linked_pos (.inl (ok.created t ht hPpid)))
  · apply ok.refs_pos_of_held ht
    rw [FdTask.held, if_pos ⟨hPpid, rfl⟩]
    omega

/-- A path lookup never leads to a freed vnode. -/
lemma refs_pos_of_canFind (ht : t ∈ s.tasks) (h : s.CanFind t v) : 0 < (s.vnode v).refs := by
  obtain rfl | rfl | hParent | ⟨u, -, hChild⟩ := h
  · exact ok.refs_pos_of_linked (linked_pos (.inl rfl))
  · exact ok.refs_pos_of_cwd ht
  · exact ok.refs_pos_of_linked (linked_pos (.inr hParent))
  · exact ok.refs_pos_of_linked (ok.parents u v hChild)

lemma lt_nextVnode (h : 0 < (s.vnode v).refs) : v < s.nextVnode := by
  by_contra hv
  have := ok.fresh v (by omega)
  omega

end VnodesCounted

/-- What taking and dropping references of vnodes in use does to one of them. -/
structure Vn.Adjusts (n n' : Vn) : Prop where
  parent : n'.parent = n.parent
  zero : n.refs = 0 → n'.refs = 0
  freed : (n.freed = true → n.refs = 0) → n'.freed = true → n'.refs = 0

lemma Vn.Adjusts.refl (n : Vn) : n.Adjusts n := ⟨rfl, id, id⟩

lemma Vn.Adjusts.trans {n n' n'' : Vn} (first : n.Adjusts n') (second : n'.Adjusts n'') : n.Adjusts n'' :=
  ⟨second.parent.trans first.parent, second.zero ∘ first.zero, second.freed ∘ first.freed⟩

/-- A step that keeps the tree, and counts at least the references it adds. -/
lemma VnodesCounted.of_adjusts (ok : VnodesCounted s) (hNext : s'.nextVnode = s.nextVnode)
    (hAdjusts : ∀ v, (s.vnode v).Adjusts (s'.vnode v))
    (hHeld : ∀ v, s'.held v + (s.vnode v).refs ≤ s.held v + (s'.vnode v).refs)
    (hCreated : ∀ t ∈ s'.tasks, t.ppid = 0 → t.cwd = rootVnode) : VnodesCounted s' := by
  have hLinked : ∀ v, s'.linked v = s.linked v := fun v => by rw [linked, linked, (hAdjusts v).parent]
  refine ⟨fun v => ?_, fun v => (hAdjusts v).freed (ok.freed v), hCreated, fun u p h => ?_, fun v h => ?_⟩
  · have := ok.counted v
    have := hHeld v
    rw [hLinked]
    omega
  · rw [hLinked]
    exact ok.parents u p ((hAdjusts u).parent.symm.trans h)
  · exact (hAdjusts v).zero (ok.fresh v (hNext ▸ h))

namespace FdState

lemma setVnode_vnode_of_ne (h : v ≠ u) (n : Vn) : (s.setVnode u n).vnode v = s.vnode v := by
  simp [setVnode, ne_eq, h, not_false_eq_true, update_of_ne]

lemma vnodeRef_refs (hBound : (s.vnode u).refs + 1 < 2 ^ 32) (v : Nat) :
    ((s.vnodeRef u).vnode v).refs = (s.vnode v).refs + if u = v then 1 else 0 := by
  by_cases h : u = v
  · subst h
    simp only [vnodeRef, setVnode, update_self, if_true, Nat.mod_eq_of_lt hBound]
  · simp [vnodeRef, setVnode, update_of_ne (Ne.symm h), h]

lemma vnodeRef_adjusts (hUsed : 0 < (s.vnode u).refs) (hBound : (s.vnode u).refs + 1 < 2 ^ 32)
    (v : Nat) : (s.vnode v).Adjusts ((s.vnodeRef u).vnode v) := by
  by_cases h : u = v
  · subst h
    refine ⟨by simp [vnodeRef, setVnode], fun h => by omega, fun before after => ?_⟩
    have : (s.vnode u).freed = true := by simpa [vnodeRef, setVnode] using after
    have := before this
    omega
  · rw [vnodeRef, setVnode_vnode_of_ne (Ne.symm h)]
    exact .refl _

lemma vnodeUnref_refs (hUsed : 0 < (s.vnode u).refs) (v : Nat) :
    ((s.vnodeUnref u).vnode v).refs + (if u = v then 1 else 0) = (s.vnode v).refs := by
  unfold vnodeUnref
  rw [if_neg (by omega)]
  by_cases h : u = v
  · subst h
    simp [setVnode]
    omega
  · simp [setVnode, update_of_ne (Ne.symm h), h]

lemma vnodeUnref_adjusts (s : FdState) (u v : Nat) : (s.vnode v).Adjusts ((s.vnodeUnref u).vnode v) := by
  unfold vnodeUnref
  split
  · exact .refl _
  next hUsed =>
  by_cases h : u = v
  · subst h
    refine ⟨by simp [setVnode], fun h => absurd h hUsed, fun before after => ?_⟩
    simp [setVnode] at after ⊢
    obtain after | after := after
    · have := before after
      omega
    · omega
  · rw [setVnode_vnode_of_ne (Ne.symm h)]
    exact .refl _

lemma share_refs (hBound : ∀ v, (s.vnode v).refs + 1 < 2 ^ 32) (fd : Fd) (v : Nat) :
    ((s.share fd).vnode v).refs = (s.vnode v).refs + fd.nodeWeight v := by
  cases fd with
  | node u => simpa [share, Fd.nodeWeight] using vnodeRef_refs (hBound u) v
  | _ => rfl

lemma share_adjusts (hBound : ∀ v, (s.vnode v).refs + 1 < 2 ^ 32) (hUsed : ∀ u, fd = .node u → 0 < (s.vnode u).refs)
    (v : Nat) : (s.vnode v).Adjusts ((s.share fd).vnode v) := by
  cases fd with
  | node u => exact vnodeRef_adjusts (hUsed u rfl) (hBound u) v
  | _ => exact .refl _

lemma share_nextVnode (s : FdState) (fd : Fd) : (s.share fd).nextVnode = s.nextVnode := by
  cases fd <;> rfl

/-- The loop over the descriptors in the functions that copy a task. -/
lemma foldl_share_refs {l : List Fd} (hBound : ∀ v, (s.vnode v).refs + l.length < 2 ^ 32)
    (hUsed : ∀ u, .node u ∈ l → 0 < (s.vnode u).refs) (v : Nat) :
    ((l.foldl share s).vnode v).refs = (s.vnode v).refs + tally (Fd.nodeWeight v) l ∧
      (s.vnode v).Adjusts ((l.foldl share s).vnode v) := by
  induction l generalizing s with
  | nil => exact ⟨rfl, .refl _⟩
  | cons fd l ih =>
    have bound : ∀ v, (s.vnode v).refs + 1 < 2 ^ 32 := fun v => by
      have := hBound v
      rw [length_cons] at this
      omega
    have refs := share_refs bound fd
    have rest := ih (s := s.share fd) (fun v => by
        have := hBound v
        have := fd.nodeWeight_le_one v
        rw [length_cons] at *
        rw [refs]
        omega) fun u hu => by
      have := hUsed u (mem_cons_of_mem fd hu)
      rw [refs]
      omega
    rw [foldl_cons, tally_cons, rest.1, refs]
    exact ⟨by omega, (share_adjusts bound (fun u hu => hUsed u (by simp [hu])) v).trans rest.2⟩

lemma foldl_share_nextVnode (l : List Fd) (s : FdState) : (l.foldl share s).nextVnode = s.nextVnode := by
  induction l generalizing s with
  | nil => rfl
  | cons fd l ih => rw [foldl_cons, ih, share_nextVnode]

lemma release_refs (hUsed : ∀ u, fd = .node u → 0 < (s.vnode u).refs) (v : Nat) :
    ((s.release fd).vnode v).refs + fd.nodeWeight v = (s.vnode v).refs := by
  cases fd with
  | node u => simpa [release, Fd.nodeWeight] using vnodeUnref_refs (hUsed u rfl) v
  | _ => rfl

lemma vnodeUnref_nextVnode (s : FdState) (u : Nat) : (s.vnodeUnref u).nextVnode = s.nextVnode := by
  unfold vnodeUnref
  split <;> rfl

lemma setTask_vnode (s : FdState) (i : Nat) (t : FdTask) : (s.setTask i t).vnode = s.vnode := rfl

lemma held_setTask (h : s.tasks[i]? = some t) (t' : FdTask) (v : Nat) :
    (s.setTask i t').held v + t.held v = s.held v + t'.held v :=
  tally_set h t'

lemma held_eq_of_tasks (h : s'.tasks = s.tasks) (v : Nat) : s'.held v = s.held v := by rw [held, held, h]

lemma held_setFd (hTask : s.tasks[i]? = some t) (hFd : t.fds[k]? = some old) (fd : Fd) (v : Nat) :
    (s.setTask i (t.setFd k fd)).held v + old.nodeWeight v = s.held v + fd.nodeWeight v := by
  have outer := held_setTask hTask (t.setFd k fd) v
  have inner := tally_set (f := Fd.nodeWeight v) hFd fd
  have after : (t.setFd k fd).held v =
      tally (Fd.nodeWeight v) (t.fds.set k fd) + if t.ppid ≠ 0 ∧ t.cwd = v then 1 else 0 := rfl
  unfold FdTask.held at outer after
  omega

end FdState

lemma created_setTask {P : FdTask → Prop} (h : ∀ t ∈ s.tasks, P t) (ht : P t') :
    ∀ t ∈ (s.setTask i t').tasks, P t := fun t hMem =>
  (mem_or_eq_of_mem_set hMem).elim (h t) fun h => h ▸ ht

/-- No counter can wrap during one call. -/
def RoomInCounters (s : FdState) : Prop := ∀ v, (s.vnode v).refs + maxFd < 2 ^ 32

namespace VnodesCounted

section Calls

variable (ok : VnodesCounted s) (room : RoomInCounters s) (hTask : s.tasks[i]? = some t)

include ok hTask

lemma created_setFd (fd : Fd) : ∀ t' ∈ (s.setTask i (t.setFd k fd)).tasks, t'.ppid = 0 → t'.cwd = rootVnode :=
  created_setTask ok.created (ok.created t (mem_of_getElem? hTask))

include room in
lemma copyFd (hFree : t.fds[k]? = some .free) (hUsed : ∀ u, fd = .node u → 0 < (s.vnode u).refs) :
    VnodesCounted (s.copyFd i t k fd) := by
  have bound : ∀ v, (s.vnode v).refs + 1 < 2 ^ 32 := fun v => by
    have := room v
    unfold maxFd at this
    omega
  refine ok.of_adjusts (FdState.share_nextVnode s fd) (FdState.share_adjusts bound hUsed) (fun v => ?_) ?_
  · have count := FdState.held_setFd (s := s.share fd) (by simpa using hTask) hFree fd v
    have refs := FdState.share_refs bound fd v
    rw [FdState.held_eq_of_tasks (FdState.share_tasks s fd), Fd.nodeWeight_of_ne (by simp)] at count
    simp only [FdState.copyFd, FdState.setTask_vnode]
    omega
  · have := ok.created_setFd (k := k) hTask fd
    simpa [FdState.copyFd, FdState.setTask] using this

lemma release_refs (hMem : t.fds[k]? = some fd) (v : Nat) :
    ((s.release fd).vnode v).refs + fd.nodeWeight v = (s.vnode v).refs :=
  FdState.release_refs (fun _ hu => ok.refs_pos_of_fd (mem_of_getElem? hTask) (mem_of_getElem? (hu ▸ hMem))) v

lemma sysClose : VnodesCounted (s.sysClose i t k) := by
  cases hFd : t.fdGet k with
  | none =>
    rw [sysClose_of_fdGet_none hFd]
    exact ok
  | some fd =>
    have hMem := FdTask.fds_of_fdGet hFd
    rw [sysClose_of_fdGet hFd]
    refine ok.of_adjusts (by cases fd <;> first | rfl | exact vnodeUnref_nextVnode s _)
      (fun v => by cases fd <;> first | exact .refl _ | exact vnodeUnref_adjusts s _ v) (fun v => ?_) ?_
    · have count := held_setFd (s := s.release fd) (by simpa using hTask) hMem .free v
      have refs := ok.release_refs hTask hMem v
      rw [held_eq_of_tasks (release_tasks s fd), @Fd.nodeWeight_of_ne .free _ (by simp)] at count
      rw [setTask_vnode]
      omega
    · have := ok.created_setFd (k := k) hTask .free
      simpa [setTask] using this

lemma roomInCounters_sysClose (room : RoomInCounters s) : RoomInCounters (s.sysClose i t k) := by
  intro v
  cases hFd : t.fdGet k with
  | none =>
    rw [sysClose_of_fdGet_none hFd]
    exact room v
  | some fd =>
    have refs := ok.release_refs hTask (FdTask.fds_of_fdGet hFd) v
    have := room v
    rw [sysClose_of_fdGet hFd]
    simp only [setTask_vnode]
    omega

include room

lemma sysDup2 (old new : Nat) : VnodesCounted (s.sysDup2 i t old new) := by
  obtain same | ⟨fd, eq, closed, free, named⟩ := sysDup2_cases hTask old new
  · rw [same]
    exact ok
  · have ok' := ok.sysClose (k := new) hTask
    rw [eq]
    exact ok'.copyFd (ok.roomInCounters_sysClose hTask room) closed free fun u hu =>
      ok'.refs_pos_of_fd (mem_of_getElem? closed) (hu ▸ named)

lemma linuxFcntlDupfd (old : Nat) (start : Int) : VnodesCounted (s.linuxFcntlDupfd i t old start) := by
  unfold FdState.linuxFcntlDupfd
  split
  · next fd k hFd hk =>
    exact ok.copyFd room hTask (FdTask.fds_of_allocFdFrom hk) fun u hu => ok.refs_pos_of_fd
      (mem_of_getElem? hTask) (mem_of_getElem? (hu ▸ FdTask.fds_of_fdGet hFd))
  · exact ok

lemma sysOpen (hUsed : ∀ u, fd = .node u → 0 < (s.vnode u).refs) : VnodesCounted (s.sysOpen i t fd) := by
  unfold FdState.sysOpen
  split
  · exact ok
  · next k hk => exact ok.copyFd room hTask (FdTask.fds_of_allocFdFrom hk) hUsed

omit room in
lemma sysPipe : VnodesCounted (s.sysPipe i t) := by
  unfold FdState.sysPipe
  cases hr : t.allocFd with
  | none => exact ok
  | some r =>
    simp only
    cases hw : (t.setFd r .device).allocFd with
    | none => exact ok
    | some w =>
      refine ok.of_adjusts rfl (fun v => .refl _) (fun v => ?_) ?_
      · have count := held_setTask (s := s.pipeNew) hTask
          ((t.setFd r (.pipe s.nextPipe true)).setFd w (.pipe s.nextPipe false)) v
        have fds := FdTask.tally_setFd_setFd hr hw (.pipe s.nextPipe true) (.pipe s.nextPipe false)
          (@Fd.nodeWeight_of_ne .free v (by simp))
        have same : FdTask.held v ((t.setFd r (.pipe s.nextPipe true)).setFd w
            (.pipe s.nextPipe false)) = t.held v := congrArg (· + _) fds
        rw [same] at count
        exact Nat.le_of_eq (congrArg (· + _) (Nat.add_right_cancel count))
      · exact created_setTask (s := s.pipeNew) ok.created (ok.created t (mem_of_getElem? hTask))

/-- The child has references for its directory and descriptors from 3 on. -/
lemma copyTask (hLow : ∀ fd ∈ t.fds.take 3, ∀ v, fd ≠ .node v) : VnodesCounted (s.copyTask i t) := by
  have ht := mem_of_getElem? hTask
  have few : (t.fds.drop 3).length + 3 = maxFd := by
    rw [length_drop, t.size]
    rfl
  have shared := foldl_share_refs (s := s) (l := t.fds.drop 3) (fun v => by
    have := room v
    omega) (fun u hu => ok.refs_pos_of_fd ht (mem_of_mem_drop hu))
  generalize hs' : (t.fds.drop 3).foldl share s = s' at shared
  have cwdUsed : 0 < (s'.vnode t.cwd).refs := by
    have := ok.refs_pos_of_cwd ht
    have := (shared t.cwd).1
    omega
  have cwdRoom : (s'.vnode t.cwd).refs + 1 < 2 ^ 32 := by
    have := (shared t.cwd).1
    have := tally_le_length (l := t.fds.drop 3) fun fd _ => Fd.nodeWeight_le_one t.cwd fd
    have := room t.cwd
    omega
  have tasks : (s.copyTask i t).tasks = s.tasks ++ [{ t with ppid := i + 1 }] :=
    congrArg (· ++ _) (foldl_share_tasks (t.fds.drop 3) s)
  have vnode : (s.copyTask i t).vnode = (s'.vnodeRef t.cwd).vnode := by rw [← hs']; rfl
  refine ok.of_adjusts ?_ (fun v => ?_) (fun v => ?_) ?_
  · exact foldl_share_nextVnode (t.fds.drop 3) s
  · rw [vnode]
    exact (shared v).2.trans (vnodeRef_adjusts cwdUsed cwdRoom v)
  · have low : tally (Fd.nodeWeight v) (t.fds.take 3) = 0 :=
      tally_eq_zero_iff.mpr fun fd hFd => Fd.nodeWeight_of_ne (hLow fd hFd v)
    have all : tally (Fd.nodeWeight v) t.fds = tally (Fd.nodeWeight v) (t.fds.drop 3) := by
      conv_lhs => rw [← take_append_drop 3 t.fds]
      rw [tally_append, low, Nat.zero_add]
    have child : FdTask.held v { t with ppid := i + 1 } =
        tally (Fd.nodeWeight v) t.fds + if t.cwd = v then 1 else 0 := by
      simp [FdTask.held]
    have held : (s.copyTask i t).held v = s.held v + FdTask.held v { t with ppid := i + 1 } := by
      rw [held, tasks, tally_append, tally_cons, tally_nil, Nat.add_zero]
      rfl
    rw [vnode, vnodeRef_refs cwdRoom, held, child, all, (shared v).1]
    omega
  · rw [tasks]
    intro t' ht'
    rcases mem_append.mp ht' with ht' | ht'
    · exact ok.created t' ht'
    · obtain rfl := mem_singleton.mp ht'
      simp

omit room

lemma exit : VnodesCounted (s.exit i t) := by
  refine ok.of_adjusts rfl (fun v => .refl _) (fun v => ?_) ?_
  · have := held_setTask hTask { t with live := false } v
    have same : FdTask.held v { t with live := false } = t.held v := rfl
    unfold FdState.exit
    rw [FdState.setTask_vnode]
    omega
  · exact created_setTask ok.created (ok.created t (mem_of_getElem? hTask))

/-- `fchdir` to the present working directory changes nothing. -/
lemma linuxFchdir (hSame : ∀ v, t.fdGet k = some (.node v) → v = t.cwd) : VnodesCounted (s.linuxFchdir i t k) := by
  unfold FdState.linuxFchdir
  split
  · next v hFd =>
    obtain rfl := hSame v hFd
    refine ok.of_adjusts rfl (fun v => .refl _) (fun v => ?_) ?_
    · have := FdState.held_setTask hTask t v
      exact Nat.le_of_eq (congrArg (· + _) (Nat.add_right_cancel this))
    · exact created_setTask ok.created (ok.created t (mem_of_getElem? hTask))
  · exact ok

include room in
lemma sysChdir (hPpid : t.ppid ≠ 0) (hFind : s.CanFind t v) : VnodesCounted (s.sysChdir i t v) := by
  have ht := mem_of_getElem? hTask
  have used := ok.refs_pos_of_canFind ht hFind
  have bound : (s.vnode v).refs + 1 < 2 ^ 32 := by
    have := room v
    unfold maxFd at this
    omega
  have taken := vnodeRef_refs bound
  have cwdUsed : 0 < ((s.vnodeRef v).vnode t.cwd).refs := by
    have := ok.refs_pos_of_cwd ht
    have := taken t.cwd
    omega
  have dropped := vnodeUnref_refs cwdUsed
  refine ok.of_adjusts ?_ (fun u => ?_) (fun u => ?_) ?_
  · exact vnodeUnref_nextVnode _ _
  · exact (vnodeRef_adjusts used bound u).trans (vnodeUnref_adjusts _ _ u)
  · have hTask' : ((s.vnodeRef v).vnodeUnref t.cwd).tasks[i]? = some t := by
      rw [vnodeUnref_tasks]
      exact hTask
    have held := held_setTask hTask' { t with cwd := v } u
    have before : t.held u = tally (Fd.nodeWeight u) t.fds + if t.cwd = u then 1 else 0 := by simp [FdTask.held, hPpid]
    have after : FdTask.held u { t with cwd := v } = tally (Fd.nodeWeight u) t.fds + if v = u then 1 else 0 := by
      simp [FdTask.held, hPpid]
    have same : ((s.vnodeRef v).vnodeUnref t.cwd).held u = s.held u := held_eq_of_tasks (vnodeUnref_tasks _ _) u
    have := taken u
    have := dropped u
    unfold FdState.sysChdir
    rw [FdState.setTask_vnode]
    omega
  · refine created_setTask ?_ (fun h => absurd h hPpid)
    rw [FdState.vnodeUnref_tasks]
    exact ok.created

end Calls

lemma schedCreateUser (ok : VnodesCounted s) : VnodesCounted s.schedCreateUser := by
  refine ok.of_adjusts rfl (fun v => .refl _) (fun v => ?_) ?_
  · have none : FdTask.held v { fds := FdTask.fds0, size := rfl, cwd := rootVnode } = 0 := by
      simp [FdTask.held, FdTask.fds0, tally, Fd.nodeWeight]
    have : s.schedCreateUser.held v = s.held v := by
      rw [FdState.held, FdState.schedCreateUser, tally_append, tally_cons, tally_nil, none]
      rfl
    rw [this]
    exact Nat.le_refl _
  · intro t ht
    rcases mem_append.mp ht with ht | ht
    · exact ok.created t ht
    · obtain rfl := mem_singleton.mp ht
      exact fun _ => rfl

/-- The new node has the reference of the tree. -/
lemma vfsCreate (ok : VnodesCounted s) (hParent : 0 < s.linked p) : VnodesCounted (s.vfsCreate p) := by
  have new : (s.vfsCreate p).vnode s.nextVnode = { refs := 1, parent := some p } := by
    simp [FdState.vfsCreate, FdState.setVnode]
  have other : ∀ v, v ≠ s.nextVnode → (s.vfsCreate p).vnode v = s.vnode v := fun v hv =>
    FdState.setVnode_vnode_of_ne hv _
  have unused := ok.counted s.nextVnode
  rw [ok.fresh _ (Nat.le_refl _)] at unused
  have hRoot : s.nextVnode ≠ rootVnode := by
    intro h
    rw [FdState.linked, if_pos h] at unused
    omega
  have hLinked : ∀ v, 0 < s.linked v → 0 < (s.vfsCreate p).linked v := fun v hv => by
    have : v ≠ s.nextVnode := by
      rintro rfl
      omega
    rw [linked, other v this]
    exact hv
  refine ⟨fun v => ?_, fun v hv => ?_, ok.created, fun u q h => hLinked q ?_, fun v hv => ?_⟩
  · by_cases hNew : v = s.nextVnode
    · subst hNew
      have : (s.vfsCreate p).held s.nextVnode = s.held s.nextVnode := rfl
      rw [this, linked, new, if_neg hRoot, if_pos (some_ne_none p)]
      simp only
      omega
    · rw [linked, other v hNew]
      exact ok.counted v
  · by_cases hNew : v = s.nextVnode
    · rw [hNew, new] at hv
      cases hv
    · rw [other v hNew] at hv ⊢
      exact ok.freed v hv
  · by_cases hNew : u = s.nextVnode
    · rw [hNew, new, some_inj] at h
      exact h ▸ hParent
    · rw [other u hNew] at h
      exact ok.parents u q h
  · have hv : s.nextVnode + 1 ≤ v := hv
    rw [other v (by omega)]
    exact ok.fresh v (by omega)

/-- Only a node without children is taken out of the tree. -/
lemma vfsUnlink (ok : VnodesCounted s) (v : Nat) : VnodesCounted (s.vfsUnlink v) := by
  unfold FdState.vfsUnlink
  split
  · exact ok
  next h =>
  obtain ⟨hParent, hChildren⟩ := not_or.mp h
  have linked : s.linked v = (if v = rootVnode then 1 else 0) + 1 := by rw [FdState.linked, if_pos hParent]
  have used := ok.refs_pos_of_linked (v := v) (by omega)
  generalize hs' : s.setVnode v { s.vnode v with parent := none } = s'
  have detached : s'.vnode v = { s.vnode v with parent := none } := by simp [← hs', setVnode]
  have other : ∀ u, u ≠ v → s'.vnode u = s.vnode u := fun u hu => by rw [← hs', setVnode_vnode_of_ne hu]
  have refs' : ∀ u, (s'.vnode u).refs = (s.vnode u).refs := fun u => by
    by_cases hu : u = v
    · rw [hu, detached]
    · rw [other u hu]
  have freed' : ∀ u, (s'.vnode u).freed = (s.vnode u).freed := fun u => by
    by_cases hu : u = v
    · rw [hu, detached]
    · rw [other u hu]
  have held' : ∀ u, (s'.vnodeUnref v).held u = s.held u := held_eq_of_tasks (by rw [vnodeUnref_tasks, ← hs']; rfl)
  have adjusts := vnodeUnref_adjusts s' v
  have refs := vnodeUnref_refs (s := s') (u := v) (by rw [refs']; exact used)
  have linked' : ∀ u, u ≠ v → (s'.vnodeUnref v).linked u = s.linked u := fun u hu => by
    rw [FdState.linked, FdState.linked, (adjusts u).parent, other u hu]
  refine ⟨fun u => ?_, fun u => ?_, ?_, fun u q hChild => ?_, fun u hu => ?_⟩
  · have count := ok.counted u
    have := refs u
    rw [refs'] at this
    rw [held']
    by_cases hu : u = v
    · subst hu
      have : (s'.vnodeUnref u).linked u = if u = rootVnode then 1 else 0 := by
        rw [FdState.linked, (adjusts u).parent, detached]
        simp
      rw [if_pos rfl] at *
      omega
    · rw [linked' u hu]
      rw [if_neg (Ne.symm hu)] at this
      omega
  · refine (adjusts u).freed ?_
    rw [freed', refs']
    exact ok.freed u
  · rw [vnodeUnref_tasks, ← hs']
    exact ok.created
  · -- the parent of a node that is still in the tree is not the removed node
    rw [(adjusts u).parent] at hChild
    have hu : u ≠ v := by
      rintro rfl
      simp [detached] at hChild
    rw [other u hu] at hChild
    have hLinked : 0 < s.linked u := linked_pos (.inr (by rw [hChild]; exact some_ne_none q))
    have hq : q ≠ v := by
      rintro rfl
      exact hChildren ⟨u, ok.lt_nextVnode (ok.refs_pos_of_linked hLinked), hChild⟩
    rw [linked' q hq]
    exact ok.parents u q hChild
  · refine (adjusts u).zero ?_
    rw [refs']
    refine ok.fresh u ?_
    rw [vnodeUnref_nextVnode, ← hs'] at hu
    exact hu

end VnodesCounted

lemma VnodesCounted.call {event : FdEvent} (ok : VnodesCounted s) (hEvent : event.task = some i)
    (hTask : s.tasks[i]? = some t) (safe : VnodeSafe s event) : VnodesCounted (s.call i t event) := by
  have room : RoomInCounters s := fun v => by
    by_cases hv : v < s.nextVnode
    · exact safe.1 v hv
    · rw [ok.fresh v (by omega)]
      decide
  have safe := safe.2
  have ht := mem_of_getElem? hTask
  cases event with
  | createUser => exact ok.schedCreateUser
  | fork j | clone j =>
    obtain rfl : j = i := some_inj.mp hEvent
    exact ok.copyTask room hTask (safe t hTask)
  | exit j => exact ok.exit hTask
  | pipe j => exact ok.sysPipe hTask
  | dup2 j old new => exact ok.sysDup2 room hTask old new
  | dup j old => exact ok.linuxFcntlDupfd room hTask old 0
  | dupfd j old start => exact ok.linuxFcntlDupfd room hTask old start
  | close j k => exact ok.sysClose hTask
  | openDevice j => exact ok.sysOpen room hTask (by simp)
  | openNode j v =>
    simp only [FdState.call]
    split
    · next hFind =>
      refine ok.sysOpen room hTask fun u hu => ?_
      cases hu
      exact ok.refs_pos_of_canFind ht hFind
    · exact ok
  | create j parent =>
    simp only [FdState.call]
    split
    · exact ok.vfsCreate (FdState.linked_pos safe)
    · exact ok
  | unlink j v =>
    simp only [FdState.call]
    split
    · exact ok.vfsUnlink v
    · exact ok
  | chdir j v =>
    obtain rfl : j = i := some_inj.mp hEvent
    simp only [FdState.call]
    split
    · next hFind => exact ok.sysChdir room hTask (safe t hTask) hFind
    · exact ok
  | fchdir j k =>
    obtain rfl : j = i := some_inj.mp hEvent
    exact ok.linuxFchdir hTask (safe t hTask)

lemma VnodesCounted.apply (event : FdEvent) (ok : VnodesCounted s) (safe : VnodeSafe s event) :
    VnodesCounted (s.apply event) := by
  obtain ⟨rfl, h⟩ | ⟨i, hEvent, dead, h⟩ | ⟨i, t, hEvent, hTask, hLive, h⟩ := s.apply_cases event <;>
    rw [h]
  · exact ok.schedCreateUser
  · exact ok
  · exact ok.call hEvent hTask safe

lemma vnodesCounted_empty : VnodesCounted {} := by
  have root : ({} : FdState).vnode rootVnode = { refs := 1 } := rfl
  have other : ∀ v, v ≠ rootVnode → ({} : FdState).vnode v = {} := fun v hv => by
    simp only [rootVnode] at hv
    simp [update_of_ne hv]
  have parent : ∀ v, (({} : FdState).vnode v).parent = none := fun v => by
    by_cases h : v = rootVnode
    · rw [h, root]
    · rw [other v h]
  refine ⟨fun v => ?_, fun v hv => ?_, by simp, fun u p hp => ?_, fun v hv => ?_⟩
  · rw [linked, parent]
    by_cases h : v = rootVnode
    · rw [h, root]
      exact Nat.le_refl 1
    · rw [if_neg h]
      exact Nat.zero_le _
  · by_cases h : v = rootVnode
    · rw [h, root] at hv
      cases hv
    · rw [other v h]
  · rw [parent u] at hp
    cases hp
  · have hv : 1 ≤ v := hv
    rw [other v (by unfold rootVnode; omega)]

/-- In a run of safe calls no vnode is freed that something still refers to. -/
theorem vnodesAlive_of_safe_run (events : List FdEvent)
    (safe : Along apply (fun s event _ => VnodeSafe s event) {} events) :
    Along apply (fun _ _ s' => VnodesAlive s') {} events :=
  (Along.of_safe (fun _ event => VnodesCounted.apply event) vnodesCounted_empty safe).mono
    fun _ _ _ ok => ok.vnodesAlive

/-- A child moves to a new directory, removes it and leaves it. -/
theorem vnodesAlive_after_leaving_removed : Along apply (fun _ _ s' => VnodesAlive s') {}
      [.createUser, .fork 0, .create 1 0, .chdir 1 1, .unlink 1 1, .chdir 1 0] := by
  refine vnodesAlive_of_safe_run _ ⟨⟨by decide, trivial⟩, ⟨by decide, ?_⟩, ⟨by decide, .inl rfl⟩,
    ⟨by decide, ?_⟩, ⟨by decide, trivial⟩, ⟨by decide, ?_⟩, trivial⟩
  · rintro t ⟨⟩ fd hFd v rfl
    revert hFd
    simp [FdTask.fds0]
  all_goals
    rintro t ⟨⟩
    decide

/-- The first task moves from the root to a new directory: the root is freed. -/
theorem chdir_frees_root : ¬ Along apply (fun _ _ s' => VnodesAlive s') {}
      [.createUser, .create 0 0, .chdir 0 1] := by
  intro h
  exact (h.2.2.1 rootVnode (by decide)).1 rfl

end YartOS.Sched
