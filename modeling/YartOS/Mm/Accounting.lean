import YartOS.Lib.Runs
import YartOS.Mm.Fork
import YartOS.Mm.Loading

/-! The counts of frames over all processes of the machine. -/
namespace YartOS.Mm

open Programs Tally Runs Option

inductive MemoryCall where
  | reserve (i va npages : Nat) (flags : PteFlags) (eager : Bool)
  | fault (i va : Nat) (write : Bool)
  | fork (i : Nat)
  /-- `sched_clone_thread` without `CLONE_VM`. -/
  | clone (i : Nat)
  | exec (i : Nat) (prog : Program)
  | mmap (i : Nat) (files : Nat → Option (List Nat)) (args : MmapArgs)
  | release (i va : Nat)
  | exit (i : Nat)
  | reap (i : Nat)

namespace Machine

/-- `none` where a frame cannot be allocated, or there is no such process. -/
def call (s : Machine) : MemoryCall → Option Machine
  | .reserve i va npages flags eager => (s.runOn i (vmmUserReserve va npages flags eager)).map (·.2)
  | .fault i va write => (s.runOn i (vmmResolveUserFault va write)).map (·.2)
  | .fork i => s.spawn i schedFork
  | .clone i => s.spawn i vmmClonePml4
  | .exec i prog => (s.runOn i (userExec prog)).map (·.2)
  | .mmap i files args => (s.runOn i (linuxMmap files args)).map (·.2)
  | .release i va => (s.runOn i (vmmUserRelease va)).map (·.2)
  | .exit i => (s.runOn i (modify vmmUserTeardownAll)).map (·.2)
  | .reap i => s.reap i

def refs (s : Machine) (f : Nat) : Nat := tally (fun o => o.elim 0 (Proc.refs · f)) s.procs

/-- Counts are numbers of references; unreserved frames are in use iff they are referenced. -/
structure FramesAccounted (reserved : Nat → Prop) (s : Machine) : Prop where
  refs_eq : ∀ f, s.pmm.refs f = s.kernelRefs f + s.refs f
  noLeak : ∀ f, s.pmm.used f → reserved f ∨ s.kernelRefs f + s.refs f ≠ 0
  noDangling : ∀ f, s.refs f ≠ 0 → s.pmm.used f

structure Exact (reserved : Nat → Prop) (s : Machine) : Prop where
  counted : s.pmm.Counted reserved
  refs_eq : ∀ f, s.pmm.refs f = s.kernelRefs f + s.refs f
  sound : ∀ i p, s.proc i = some p → p.Sound

def others (s : Machine) (p : Proc) (f : Nat) : Nat := s.kernelRefs f + (s.refs f - p.refs f)

/-- The condition under which a call keeps the counts. -/
def Safe (s : Machine) : MemoryCall → Prop
  | .reserve i va npages flags eager =>
    eager → ∀ p, s.proc i = some p → ∀ n ∈ (newRegion va npages flags).pages, p.leaves.lookup n = none
  | .fork i => ∀ p, s.proc i = some p → ForkRoom (s.mem p)
  | .clone i => ∀ p, s.proc i = some p → ∀ f, p.leafRefs f = 0
  | .exec _ prog => prog.WritesInside ∧ ¬ prog.MapsTrampoline
  | .mmap i _ args => ∀ p, s.proc i = some p → args.len ≠ 0 → args.NoFallback (s.mem p)
  | _ => True

variable {reserved : Nat → Prop} {s s' : Machine} {i : Nat} {p child : Proc} {m : Mem}
  {extra : Nat → Nat}

lemma Exact.framesAccounted (h : s.Exact reserved) : s.FramesAccounted reserved where
  refs_eq := h.refs_eq
  noLeak f used := by
    rw [← h.refs_eq f]
    exact ((h.counted.used_iff f).mp used).symm
  noDangling f hf := (h.counted.used_iff f).mpr (.inl (by have := h.refs_eq f; omega))

lemma refs_le (hp : s.proc i = some p) (f : Nat) : p.refs f ≤ s.refs f :=
  le_tally (f := fun o : Option Proc => o.elim 0 (Proc.refs · f)) (List.mem_of_getElem? (getElem?_of_proc hp))

lemma refs_set (hp : s.proc i = some p) (o : Option Proc) (f : Nat) :
    tally (fun o => o.elim 0 (Proc.refs · f)) (s.procs.set i o) + p.refs f = s.refs f + o.elim 0 (Proc.refs · f) :=
  tally_set (f := fun o : Option Proc => o.elim 0 (Proc.refs · f)) (getElem?_of_proc hp) o

lemma Exact.mem (h : s.Exact reserved) (hp : s.proc i = some p) : Mm.Exact reserved (s.others p) (s.mem p) := by
  refine ⟨⟨h.counted, fun f => ?_⟩, h.sound i p hp⟩
  have := h.refs_eq f
  have := refs_le hp f
  change s.pmm.refs f + 0 = s.kernelRefs f + (s.refs f - p.refs f) + p.refs f
  omega

/-- Process `i` has run, and `extra` references are not those of a process yet. -/
lemma refs_put (hp : s.proc i = some p) (kept : Mm.Exact reserved (fun f => s.others p f + extra f) m)
    (f : Nat) : m.pmm.refs f = s.kernelRefs f + (s.put i m).refs f + extra f := by
  have balanced := kept.balanced.refs_eq f
  have := refs_le hp f
  have trade := refs_set hp (some m.proc) f
  change (s.put i m).refs f + p.refs f = s.refs f + m.proc.refs f at trade
  change m.pmm.refs f + 0 = s.kernelRefs f + (s.refs f - p.refs f) + extra f + m.proc.refs f at balanced
  omega

section

variable (h : s.Exact reserved)

include h

lemma Exact.put (hp : s.proc i = some p)
    (kept : Mm.Exact reserved (s.others p) m) : (s.put i m).Exact reserved where
  counted := kept.balanced.counted
  refs_eq f := @refs_put _ _ _ _ _ (fun _ => 0) hp kept f
  sound j q hq := by
    obtain hq | hq := proc_set _ hq
    · cases hq
      exact kept.sound
    · exact h.sound j q hq

lemma Exact.runOn {α : Type} {x : Prog Mem α}
    (kept : ∀ p a m, s.proc i = some p → Mm.Exact reserved (s.others p) (s.mem p) →
      x (s.mem p) = some (a, m) → Mm.Exact reserved (s.others p) m)
    (run : (s.runOn i x).map (·.2) = some s') : s'.Exact reserved := by
  obtain ⟨p, a, m, hp, hx, rfl⟩ := map_runOn_eq_some run
  exact h.put hp (kept p a m hp (h.mem hp) hx)

lemma Exact.spawn {x : Prog Mem Proc}
    (kept : ∀ p child m, s.proc i = some p → Mm.Exact reserved (s.others p) (s.mem p) → x (s.mem p) = some (child, m) →
      Mm.Exact reserved (fun f => s.others p f + child.refs f) m ∧ child.Sound)
    (run : s.spawn i x = some s') : s'.Exact reserved := by
  obtain ⟨p, child, m, hp, hx, rfl⟩ := spawn_eq_some run
  obtain ⟨parent, sound⟩ := kept p child m hp (h.mem hp) hx
  refine ⟨parent.balanced.counted, fun f => ?_, fun j q hq => ?_⟩
  · have := refs_put hp parent f
    change m.pmm.refs f = s.kernelRefs f + tally _ ((s.put i m).procs ++ [some child])
    rw [tally_append, tally_cons, tally_nil]
    change m.pmm.refs f = s.kernelRefs f + ((s.put i m).refs f + (child.refs f + 0))
    omega
  · obtain hq | rfl := proc_append hq
    · obtain hq | hq := proc_set _ hq
      · cases hq
        exact parent.sound
      · exact h.sound j q hq
    · exact sound

/-- A process that is reaped drops all of its references. -/
lemma Exact.reap (run : s.reap i = some s') : s'.Exact reserved := by
  obtain ⟨p, hp, done⟩ := bind_eq_some_iff.mp run
  cases done
  have sound := h.sound i p hp
  obtain ⟨counted, refs⟩ := counted_vmmFreePml4 (m := s.mem p) h.counted sound.tidy.lt_userHalf
    sound.tidy.tables fun f => by
      have := h.refs_eq f
      have := refs_le hp f
      change p.refs f ≤ s.pmm.refs f
      omega
  refine ⟨counted, fun f => ?_, fun j q hq => ?_⟩
  · have dropped : _ + p.refs f = s.pmm.refs f := refs f
    have := h.refs_eq f
    have trade : tally _ _ + p.refs f = s.refs f + 0 := refs_set hp none f
    change (vmmFreePml4 p (s.mem p)).pmm.refs f = s.kernelRefs f + tally _ (s.procs.set i none)
    omega
  · obtain hq | hq := proc_set _ hq
    · cases hq
    · exact h.sound j q hq

lemma Exact.call {op : MemoryCall} (safe : s.Safe op) (run : s.call op = some s') : s'.Exact reserved := by
  cases op with
  | reserve i va npages flags eager =>
    exact h.runOn (fun p _ _ hp held ran => held.vmmUserReserve (fun he => safe he p hp) ran) run
  | fault i va write => exact h.runOn (fun _ _ _ _ held ran => held.fault (vmmResolveUserFault_fault ran)) run
  | fork i =>
    refine h.spawn (fun p child m hp held ran => ?_) run
    have forked := forked_of_schedFork held (safe p hp) ran
    exact ⟨forked.parent, forked.childSound⟩
  | clone i =>
    refine h.spawn (fun p child m hp held ran => ?_) run
    have cloned := vmmClonePml4_cloned ran
    refine ⟨⟨⟨(cloned.balanced held.balanced).counted, fun f => ?_⟩, ?_⟩, ?_⟩
    · have := (cloned.balanced held.balanced).refs_eq f
      have none : child.leafRefs f = 0 := by
        unfold Proc.leafRefs
        rw [cloned.leaves]
        exact safe p hp f
      omega
    · rw [cloned.proc]
      exact held.sound
    · refine ⟨cloned.regions ▸ held.sound.laid, ?_, cloned.tables⟩
      rw [cloned.leaves, cloned.regions]
      exact held.sound.tidy.leaves
  | exec i prog =>
    refine h.runOn (fun p _ _ hp held ran => ?_) run
    obtain ⟨orphan, hOrphan, kept⟩ := exact_of_userExec held safe.1 ran
    cases orphan with
    | none => exact kept
    | some f => exact absurd (hOrphan.mp rfl) safe.2
  | mmap i files args => exact h.runOn (fun p _ _ hp held ran => held.linuxMmap (safe p hp) ran) run
  | release i va => exact h.runOn (fun _ _ _ _ held ran => held.vmmUserRelease ran) run
  | exit i =>
    refine h.runOn (fun _ _ _ _ held ran => ?_) run
    obtain rfl := of_modify ran
    exact held.vmmUserTeardownAll
  | reap i => exact h.reap run

/-- The frame that the trampoline leaves behind is in no page table. -/
lemma Exact.not_framesAccounted_of_exec {prog : Program} (inside : prog.WritesInside) (maps : prog.MapsTrampoline)
    (run : s.call (.exec i prog) = some s') : ¬ s'.FramesAccounted reserved := by
  obtain ⟨p, a, m, hp, hx, rfl⟩ := map_runOn_eq_some run
  obtain ⟨orphan, hOrphan, kept⟩ := exact_of_userExec (h.mem hp) inside hx
  obtain ⟨f, rfl⟩ := isSome_iff_exists.mp (hOrphan.mpr maps)
  intro accounted
  have left := refs_put hp kept f
  have claimed : m.pmm.refs f = s.kernelRefs f + (s.put i m).refs f := accounted.refs_eq f
  simp only [elim_some, unit_self] at left
  omega

end

/-- After any run of safe calls no frame is leaked, dangling or miscounted. -/
theorem framesAccounted_of_reaches (start : s.Exact reserved)
    (run : Reaches (Guarded Safe fun s op s' => s.call op = some s') s s') : s'.FramesAccounted reserved :=
  (run.invariant start fun _ _ _ h step => h.call step.1 step.2).framesAccounted

lemma exact_oneProcess : oneProcess.Exact (· = 0) where
  counted := by
    refine ⟨fun p => ?_, fun p hp => ?_, fun p hp => ?_, by decide⟩
    · simp only [oneProcess, decide_eq_true_eq]
      split <;> omega
    · simp [oneProcess, hp]
    · simp only [oneProcess] at hp ⊢
      split at hp <;> omega
  refs_eq f := by
    change (if f = 1 then 1 else 0) = 0 + (0 + (0 + if 1 = f then 1 else 0) + 0)
    split <;> split <;> omega
  sound i p hp := by
    obtain ⟨rfl, rfl⟩ : i = 0 ∧ p = { root := 1 } := by
      cases i with
      | zero => exact ⟨rfl, by cases hp; rfl⟩
      | succ i => cases hp
    exact ⟨Laid.nil, nofun, nofun⟩

def childRun : List MemoryCall :=
  [.fork 0, .reserve 1 userMmapBase 1 { rw := true } false, .fault 1 userMmapBase true, .exit 1, .reap 1]

theorem framesAccounted_of_childRun : ∃ s', childRun.foldlM call oneProcess = some s' ∧ s'.FramesAccounted (· = 0) := by
  have runs : (childRun.foldlM call oneProcess).isSome := by decide +kernel
  obtain ⟨s', run⟩ := isSome_iff_exists.mp runs
  refine ⟨s', run, framesAccounted_of_reaches exact_oneProcess ?_⟩
  simp only [childRun, List.foldlM_cons, List.foldlM_nil, bind, bind_eq_some_iff, pure, some.injEq] at run
  obtain ⟨s₁, fork, s₂, reserve, s₃, fault, s₄, exit, s₅, reap, rfl⟩ := run
  refine .tail _ (.tail _ (.tail _ (.tail _ (.tail _ .refl ⟨?_, fork⟩) ⟨?_, reserve⟩)
    ⟨?_, fault⟩) ⟨?_, exit⟩) ⟨?_, reap⟩
  case refine_2 => exact nofun
  case refine_3 | refine_4 | refine_5 => trivial
  -- no page of the process is mapped when it forks
  rintro p hp f hf
  cases hp
  exact absurd rfl hf

def tinyProgram : Program where
  main := some { first := 0x400000, pages := [(false, true, zeroPage)], aligned := by decide, fits := by decide }
  top := 0x7FFF0000

theorem exec_leaves_frame : ∃ s', oneProcess.call (.exec 0 tinyProgram) = some s' ∧ ¬ s'.FramesAccounted (· = 0) := by
  have runs : (oneProcess.call (.exec 0 tinyProgram)).isSome := by decide +kernel
  obtain ⟨s', run⟩ := isSome_iff_exists.mp runs
  refine ⟨s', run, exact_oneProcess.not_framesAccounted_of_exec ?_ ?_ run⟩
  · intro img hImg _
    cases hImg
    exact ⟨nofun, nofun, nofun⟩
  · exact ⟨_, rfl, by decide, by decide⟩

end Machine

end YartOS.Mm
