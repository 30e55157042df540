import YartOS.Mm.Accounting

/-! The protection of a page after a fork, in the parent and in the child. -/
namespace YartOS.Mm

open Programs Runs List Option

variable {va n p : Nat} {write r : Bool} {flags : PteFlags} {m m' : Mem}

/-- A fault changes no entry but that of its page. -/
lemma Fault.leaf_of_ne (step : Fault va write m r m') (hn : n ≠ vpn va) : m'.leaf n = m.leaf n := by
  have mapped : ∀ {t t' : Mem} {q : Nat} {fl : PteFlags}, vmmMap (vpn va) q fl t = some ((), t') →
      t'.leaf n = t.leaf n := by
    intro t t' q fl map
    obtain ⟨s, -, ⟨pmm', tables', rfl⟩, rfl⟩ := vmmMap_eq_some map
    rw [leaf_setLeaf, if_neg hn]
    rfl
  cases step with
  | refused => rfl
  | demand absent found cap map =>
    have same := mapFresh_leaf_ne map hn
    exact same
  | upgrade => rw [leaf_setLeaf, if_neg hn]
  | copy leaf writes cow ro shared alloc map | swapIn leaf alloc works map =>
    obtain ⟨-, rfl⟩ := pmmAllocPage_eq_some alloc
    have same := mapped map
    exact same
  | swapFailed leaf alloc fails =>
    obtain ⟨-, rfl⟩ := pmmAllocPage_eq_some alloc
    rfl

def PteFlags.armed (flags : PteFlags) : Bool := flags.cow && !flags.rw

lemma Fault.leaf_of_not_armed (step : Fault va write m r m') (leaf : m.leaf n = some (.present p flags))
    (h : n = vpn va → write = true → flags.armed = false) : m'.leaf n = some (.present p flags) := by
  by_cases hn : n = vpn va
  · subst hn
    have quiet : ∀ {q fl}, m.leaf (vpn va) = some (.present q fl) → write = true → fl.cow = true →
        fl.rw = false → False := by
      intro q fl hLeaf hWrite hCow hRo
      cases leaf.symm.trans hLeaf
      have := h rfl hWrite
      simp [PteFlags.armed, hCow, hRo] at this
    cases step with
    | refused => exact leaf
    | demand absent => cases leaf.symm.trans absent
    | upgrade hLeaf writes cow ro => exact (quiet hLeaf writes cow ro).elim
    | copy hLeaf writes cow ro => exact (quiet hLeaf writes cow ro).elim
    | swapFailed hLeaf => cases leaf.symm.trans hLeaf
    | swapIn hLeaf => cases leaf.symm.trans hLeaf
  · rw [step.leaf_of_ne hn, leaf]

lemma writable_of_write_fault (leaf : m.leaf (vpn va) = some (.present p flags)) (h : flags.armed)
    (run : vmmResolveUserFault va true m = some (r, m')) :
    ∃ q flags', m'.leaf (vpn va) = some (.present q flags') ∧ flags'.rw = true := by
  simp only [PteFlags.armed, Bool.and_eq_true, Bool.not_eq_true'] at h
  replace run := of_get_bind run
  simp only [leaf, h.1, h.2, Bool.and_self, Bool.not_false, if_true] at run
  obtain ⟨_, fault, -⟩ := of_bind_pure run
  replace fault := of_get_bind fault
  by_cases hLast : m.pmm.refs p = 1
  · simp only [hLast, if_true] at fault
    obtain rfl := of_modify fault
    exact ⟨p, _, by rw [leaf_setLeaf, if_pos rfl], rfl⟩
  · simp only [hLast, if_false] at fault
    obtain ⟨q, t₁, alloc, fault⟩ := of_bind fault
    obtain ⟨_, t₂, copied, map⟩ := of_bind fault
    obtain ⟨s, -, -, rfl⟩ := vmmMap_eq_some map
    exact ⟨q, _, by rw [leaf_setLeaf, if_pos rfl], rfl⟩

namespace MemoryCall

def forksOrFaults : MemoryCall → Bool
  | .fork _ | .fault _ _ _ => true
  | _ => false

def writes (i n : Nat) : MemoryCall → Prop
  | .fault j va write => j = i ∧ vpn va = n ∧ write = true
  | _ => False

end MemoryCall

namespace Machine

variable {s s' : Machine} {i j : Nat} {op : MemoryCall}

def MappedWith (n : Nat) (flags : PteFlags) (s : Machine) (i : Nat) : Prop := ∃ p, s.leaf i n = some (.present p flags)

section

variable (h : s.MappedWith n flags i)

include h

lemma MappedWith.fork (hFlags : flags.forked = flags) (run : s.call (.fork j) = some s') : s'.MappedWith n flags i := by
  obtain ⟨p, hLeaf⟩ := h
  obtain ⟨q, child, m, hq, hx, rfl⟩ := spawn_eq_some run
  have hj := lt_length_of_proc hq
  have hi : i ≠ (s.put j m).procs.length := by simpa [put] using ne_of_lt (lt_length_of_leaf hLeaf)
  refine ⟨p, ?_⟩
  rw [leaf_append, if_neg hi, leaf_put hj]
  split_ifs with hi
  · subst hi
    have hMem : (s.mem q).leaf n = some (.present p flags) := by
      rw [leaf, hq] at hLeaf
      exact hLeaf
    rw [(schedFork_leaves hx).1, shared, hMem]
    split
    · rw [map_some, share_present, hFlags]
    · rfl
  · exact hLeaf

lemma MappedWith.fault {va : Nat} {write : Bool} (quiet : j = i → n = vpn va → write = true → flags.armed = false)
    (run : s.call (.fault j va write) = some s') : s'.MappedWith n flags i := by
  obtain ⟨p, hLeaf⟩ := h
  obtain ⟨q, r, m, hq, hx, rfl⟩ := map_runOn_eq_some run
  have hj := lt_length_of_proc hq
  refine ⟨p, ?_⟩
  rw [leaf_put hj]
  split_ifs with hi
  · subst hi
    rw [leaf, hq] at hLeaf
    exact (vmmResolveUserFault_fault hx).leaf_of_not_armed hLeaf (quiet rfl)
  · exact hLeaf

/-- The entry stays through forks and all faults but a write to a shared page. -/
lemma MappedWith.call (hFlags : flags.forked = flags) (kind : op.forksOrFaults)
    (quiet : op.writes i n → flags.armed = false) (run : s.call op = some s') : s'.MappedWith n flags i := by
  cases op with
  | fork j => exact h.fork hFlags run
  | fault j va write => exact h.fault (fun hj hn hw => quiet ⟨hj, hn.symm, hw⟩) run
  | _ => cases kind

lemma MappedWith.writable (hArmed : flags.armed) (hOp : op.writes i n)
    (run : s.call op = some s') : ∃ p flags', s'.leaf i n = some (.present p flags') ∧ flags'.rw = true := by
  cases op with
  | fault j va write =>
    obtain ⟨rfl, rfl, rfl⟩ := hOp
    obtain ⟨p, hLeaf⟩ := h
    obtain ⟨q, r, m, hq, hx, rfl⟩ := map_runOn_eq_some run
    have hj := lt_length_of_proc hq
    rw [leaf, hq] at hLeaf
    obtain ⟨p', flags', written, hRw⟩ := writable_of_write_fault (m := s.mem q) hLeaf hArmed hx
    exact ⟨p', flags', by rw [leaf_put hj, if_pos rfl, written], hRw⟩
  | _ => exact hOp.elim

end

/-- In the processes `js` the page has no more rights than `flags` give. -/
def Protected (flags : PteFlags) (n : Nat) (js : List Nat) (s : Machine) : Prop :=
  ∀ j ∈ js, ∀ p flags', s.leaf j n = some (.present p flags') →
    (flags.rw = false → flags'.rw = false) ∧ (flags.nx = true → flags'.nx = true)

/-- A page mapped with `flags` keeps its protection: no-execute only unshared, and read-only shared
pages are not written. -/
def KeepsProtection (flags : PteFlags) (n : Nat) (js : List Nat) (calls : List MemoryCall) : Prop :=
  (flags.nx = true → flags.noshr = true) ∧
    (flags.rw = false → flags.forked.cow = true → ∀ call ∈ calls, ∀ j ∈ js, ¬ call.writes j n)

variable {js : List Nat} {proc : Proc} {calls : List MemoryCall}

lemma protected_of_mappedWith (hNx : flags.nx = true → flags.noshr = true)
    (h : ∀ j ∈ js, s.MappedWith n flags.forked j) : s.Protected flags n js := by
  intro j hj p flags' hLeaf
  obtain ⟨q, hq⟩ := h j hj
  cases hLeaf.symm.trans hq
  unfold PteFlags.forked
  cases hShr : flags.noshr with
  | true => exact ⟨id, id⟩
  | false => exact ⟨fun _ => rfl, fun nx => absurd (hNx nx) (by simp [hShr])⟩

/-- Both processes have the page with the flags of the fork. -/
lemma mappedWith_of_fork {p : Nat} (hp : s.proc i = some proc)
    (hn : n ∈ regionPages proc.regions) (hLeaf : proc.leaves.lookup n = some (.present p flags))
    (run : s.call (.fork i) = some s') : ∀ j ∈ [i, s.procs.length], s'.MappedWith n flags.forked j := by
  obtain ⟨q, child, m, hq, hx, rfl⟩ := spawn_eq_some run
  cases hp.symm.trans hq
  have hi := lt_length_of_proc hp
  obtain ⟨parent, childLeaf⟩ := schedFork_leaves hx
  have hShared : shared (s.mem proc).leaf (regionPages (s.mem proc).proc.regions) n =
      some (.present p flags.forked) := by
    rw [shared, if_pos (by exact hn)]
    change (proc.leaves.lookup n).map Pte.share = _
    rw [hLeaf, map_some, share_present]
  have hLength : (s.put i m).procs.length = s.procs.length := by simp [put]
  intro j hj
  refine ⟨p, ?_⟩
  rw [leaf_append, hLength]
  rcases mem_cons.mp hj with rfl | hj
  · rw [if_neg (ne_of_lt hi), leaf_put hi, if_pos rfl, parent, hShared]
  · rw [if_pos (mem_singleton.mp hj), childLeaf, hShared]

/-- A read-only or unshared page keeps its flags while nobody writes to it shared. -/
lemma quiet_of_keepsProtection (h : KeepsProtection flags n js calls) (right : flags.rw = false ∨ flags.nx = true)
    (hArmed : flags.forked.armed = true) : ∀ call ∈ calls, ∀ j ∈ js, ¬ call.writes j n := by
  simp only [PteFlags.armed, Bool.and_eq_true, Bool.not_eq_true'] at hArmed
  refine h.2 (right.elim id fun hNx => ?_) hArmed.1
  have hForked : flags.forked = flags := by rw [PteFlags.forked, if_pos (h.1 hNx)]
  rw [← hForked, hArmed.2]

lemma armed_forked (hRo : flags.rw = false) (hCow : flags.forked.cow = true) : flags.forked.armed = true := by
  have hRw : flags.forked.rw = false := by
    unfold PteFlags.forked
    split
    · exact hRo
    · rfl
  simp [PteFlags.armed, hCow, hRw]

/-- Through forks and faults a page keeps its protection exactly under `KeepsProtection`. -/
theorem protected_throughout_iff {s s₁ : Machine} {i n p : Nat} {flags : PteFlags}
    (hp : s.proc i = some proc) (hn : n ∈ regionPages proc.regions)
    (hLeaf : proc.leaves.lookup n = some (.present p flags)) (fork : s.call (.fork i) = some s₁)
    (kind : ∀ call ∈ calls, call.forksOrFaults) (run : (calls.foldlM call s₁).isSome) :
    Throughout call (Protected flags n [i, s.procs.length]) s₁ calls ↔
      KeepsProtection flags n [i, s.procs.length] calls := by
  have first := mappedWith_of_fork hp hn hLeaf fork
  have hi : i ∈ [i, s.procs.length] := by simp
  generalize [i, s.procs.length] = js at *
  -- the entries stay as the fork left them until a process writes to the shared page
  have step : ∀ (s : Machine) (op : MemoryCall) s', (∀ j ∈ js, s.MappedWith n flags.forked j) →
      op.forksOrFaults → (flags.forked.armed = true → ∀ j ∈ js, ¬ op.writes j n) →
      s.call op = some s' → ∀ j ∈ js, s'.MappedWith n flags.forked j := by
    intro s op s' h hKind quiet run j hj
    have hForked : flags.forked.forked = flags.forked := by
      unfold PteFlags.forked
      cases h : flags.noshr <;> simp [h, cowFlags]
    refine (h j hj).call hForked hKind (fun hWrites => ?_) run
    by_contra hArmed
    exact quiet (by simpa using hArmed) j hj hWrites
  constructor
  · intro h
    constructor
    · intro hNx
      obtain ⟨q, hq⟩ := first i hi
      have kept := (h.first i hi q _ hq).2 hNx
      unfold PteFlags.forked at kept
      split at kept
      · assumption
      · cases kept
    · intro hRo hCow
      have hArmed := armed_forked hRo hCow
      refine Throughout.safe (fun s op s' inv hKind quiet => step s op s' inv hKind fun _ => quiet)
        (fun s op s' inv _ hWrites run hProt => ?_) first kind h run
      simp only [not_forall, not_not] at hWrites
      obtain ⟨j, hj, hWrites⟩ := hWrites
      obtain ⟨q, flags', hLeaf, hRw⟩ := (inv j hj).writable hArmed hWrites run
      have := (hProt j hj q flags' hLeaf).1 hRo
      simp [hRw] at this
  · intro h
    by_cases right : flags.rw = false ∨ flags.nx = true
    · have safe : ∀ op ∈ calls, op.forksOrFaults = true ∧ (flags.forked.armed = true → ∀ j ∈ js, ¬ op.writes j n) :=
        fun op hOp => ⟨kind op hOp, fun hArmed => quiet_of_keepsProtection h right hArmed op hOp⟩
      exact Throughout.of_safe (fun s op s' inv hSafe => step s op s' inv hSafe.1 hSafe.2)
        (fun s inv => protected_of_mappedWith h.1 inv) first safe
    · -- a writable page that may be executed has every right already
      rw [not_or] at right
      exact Throughout.of_forall fun s j _ p flags' _ =>
        ⟨fun hRo => absurd hRo right.1, fun hNx => absurd hNx right.2⟩

def textPage : Nat := vpn 0x400000

/-- A process that executes `tinyProgram` and then forks. -/
structure TinyFork (s : Machine) (proc : Proc) (s₁ : Machine) : Prop where
  exec : oneProcess.call (.exec 0 tinyProgram) = some s
  runs : s.proc 0 = some proc
  child : s.procs.length = 1
  region : textPage ∈ regionPages proc.regions
  leaf : proc.leaves.lookup textPage = some (.present 3 { us := true })
  fork : s.call (.fork 0) = some s₁

lemma exists_tinyFork : ∃ s proc s₁, TinyFork s proc s₁ ∧ (s₁.call (.fault 1 0x400000 false)).isSome ∧
    ∃ s₂, s₁.call (.fault 1 0x400000 true) = some s₂ ∧
      s₂.leaf 1 textPage = some (.present 50 { rw := true, us := true }) := by
  have runs : (oneProcess.call (.exec 0 tinyProgram)).any fun s => (s.proc 0).any fun proc =>
      s.procs.length = 1 && textPage ∈ regionPages proc.regions &&
      proc.leaves.lookup textPage = some (.present 3 { us := true }) && (s.call (.fork 0)).any fun s₁ =>
        (s₁.call (.fault 1 0x400000 false)).isSome && (s₁.call (.fault 1 0x400000 true)).any fun s₂ =>
          s₂.leaf 1 textPage = some (.present 50 { rw := true, us := true }) := by
    decide +kernel
  simp only [Option.any_eq_true, Bool.and_eq_true, decide_eq_true_eq] at runs
  obtain ⟨s, exec, proc, hp, ⟨⟨child, region⟩, leaf⟩, s₁, fork, read, s₂, write, written⟩ := runs
  exact ⟨s, proc, s₁, ⟨exec, hp, child, region, leaf, fork⟩, read, s₂, write, written⟩

theorem protected_tinyFork_read : ∃ s proc s₁, TinyFork s proc s₁ ∧
    Throughout call (Protected { us := true } textPage [0, 1]) s₁ [.fault 1 0x400000 false] := by
  obtain ⟨s, proc, s₁, h, read, -⟩ := exists_tinyFork
  refine ⟨s, proc, s₁, h, ?_⟩
  have kind : ∀ call ∈ [MemoryCall.fault 1 0x400000 false], call.forksOrFaults := by decide
  have kept := protected_throughout_iff h.runs h.region h.leaf h.fork kind (by simpa using read)
  rw [h.child] at kept
  exact kept.mpr ⟨nofun, by simp [MemoryCall.writes]⟩

/-- The child writes to the text page. -/
theorem tinyFork_write_not_protected : ∃ s proc s₁ s₂, TinyFork s proc s₁ ∧
    s₁.call (.fault 1 0x400000 true) = some s₂ ∧ ¬ s₂.Protected { us := true } textPage [0, 1] := by
  obtain ⟨s, proc, s₁, h, -, s₂, write, written⟩ := exists_tinyFork
  refine ⟨s, proc, s₁, s₂, h, write, fun hProt => ?_⟩
  have := (hProt 1 (by simp) 50 _ written).1 rfl
  cases this

end Machine

end YartOS.Mm
