import YartOS.Heap.Alloc
import YartOS.Lib.Runs

/-! Runs of `kmalloc` and `kfree` calls, and what they do to the memory the heap
hands out. -/
namespace YartOS.Heap

open Linked Rows Runs List Option

/-- A heap with the allocations held: payload address and size. -/
structure Session where
  heap : State
  live : List Range := []

/-- `run` is the page run that the frame allocator would hand out. -/
inductive Call where
  | kmalloc (n run : Nat)
  | kfree (p : Nat)

variable (s : Session)

/-- A freed pointer is live, and a run handed out is apart from the others. -/
def Allowed : Call → Prop
  | .kmalloc n run =>
    n ≠ 0 → ((allocFromClass s.heap (roundRequest n)).map (·.1) = some 0 → Placed s.heap (roundRequest n) run)
  | .kfree p => p ∈ s.live.map (·.base)

instance (s : Session) : (call : Call) → Decidable (Allowed s call)
  | .kmalloc _ _ => inferInstanceAs (Decidable (_ → _ → _))
  | .kfree _ => inferInstanceAs (Decidable (_ ∈ _))

def call : Call → Option Session
  | .kmalloc n run => (kmalloc s.heap n run).map fun (p, h) =>
    { heap := h, live := if p = 0 then s.live else ⟨p, n⟩ :: s.live }
  | .kfree p => (kfree s.heap p).map fun h =>
    { heap := h, live := s.live.filter (·.base ≠ p) }

def Step (c : Call) (s' : Session) : Prop := Allowed s c ∧ call s c = some s'

def OnList (h : State) (b : Nat) : Prop := Visited (nextOf h) 0 h.head b

def extent (h : State) (b : Nat) : Range := ⟨b, sizeofBlock + (h.mem b).size + canaryBytes⟩

/-- Blocks and allocations are pairwise disjoint, each inside one page run. -/
structure Safe (s : Session) : Prop where
  blocksApart : ∀ b c, OnList s.heap b → OnList s.heap c → b ≠ c → (extent s.heap b).Apart (extent s.heap c)
  blocksOwned : ∀ b, OnList s.heap b → ∃ r ∈ s.heap.runs, (extent s.heap b).Inside r
  liveApart : s.live.Pairwise Range.Apart
  liveOwned : ∀ a ∈ s.live, ∃ r ∈ s.heap.runs, a.Inside r

/-- No addition wraps, and no free coalesces across page runs. -/
def Sound : Call → Prop
  | .kmalloc n _ => Fits n
  | .kfree p => Coalescible s.heap p

instance (s : Session) : (call : Call) → Decidable (Sound s call)
  | .kmalloc n _ => inferInstanceAs (Decidable (Fits n))
  | .kfree p => inferInstanceAs (Decidable (Coalescible s.heap p))

def Backs (h : State) (blocks : List Nat) (a : Range) (b : Nat) : Prop :=
  a.base = b + sizeofBlock ∧ b ∈ blocks ∧ (h.mem b).free = false ∧ a.len ≤ (h.mem b).size + canaryBytes

/-- The heap invariant, with a block for every live allocation. -/
structure Owns (s : Session) (blocks : List Nat) (bucket : Nat → List Nat) : Prop where
  inv : Inv s.heap blocks bucket ∅
  backed : ∀ a ∈ s.live, ∃ b, Backs s.heap blocks a b
  distinct : s.live.Pairwise fun a c => a.base ≠ c.base

variable {s s' : Session} {blocks blocks' : List Nat} {bucket : Nat → List Nat} {h' : State}
  {a : Range} {b gone : Nat}

lemma Backs.keeps (backs : Backs s.heap blocks a b) (keeps : Keeps gone s.heap blocks h' blocks')
    (hne : b ≠ gone) : Backs h' blocks' a b := by
  obtain ⟨hBase, hb, hHeld, hBytes⟩ := backs
  obtain ⟨hb', hHeld', hSize, -⟩ := (keeps b _ _ hne).mpr ⟨hb, hHeld, rfl, rfl⟩
  exact ⟨hBase, hb', hHeld', by rwa [hSize]⟩

lemma extent_finish (h : State) (b : Nat) : (extent h b).finish = finish h b := by
  unfold Range.finish extent finish
  simp only
  omega

lemma Backs.inside (backs : Backs s.heap blocks a b) : a.Inside (extent s.heap b) := by
  obtain ⟨hBase, -, -, hBytes⟩ := backs
  unfold Range.Inside
  rw [extent_finish]
  unfold finish extent Range.finish
  simp only
  omega

lemma Owns.safe (owns : Owns s blocks bucket) : Safe s := by
  have onList : ∀ {b}, OnList s.heap b ↔ b ∈ blocks := owns.inv.linked.forward.visited_iff owns.inv.linked.nonnull
  have apart : ∀ b ∈ blocks, ∀ c ∈ blocks, b ≠ c → (extent s.heap b).Apart (extent s.heap c) := by
    intro b hb c hc hne
    unfold Range.Apart
    rw [extent_finish, extent_finish]
    exact owns.inv.disjoint hb hc hne
  have owned : ∀ b ∈ blocks, ∃ r ∈ s.heap.runs, (extent s.heap b).Inside r := by
    intro b hb
    obtain ⟨r, hr, bounds⟩ := owns.inv.inside hb
    exact ⟨r, hr, bounds.1, by rw [extent_finish]; exact bounds.2⟩
  refine ⟨fun b c hb hc => apart b (onList.mp hb) c (onList.mp hc),
    fun b hb => owned b (onList.mp hb), ?_, fun a ha => ?_⟩
  · refine owns.distinct.imp_of_mem fun {a c} ha hc hne => ?_
    obtain ⟨b, backsA⟩ := owns.backed a ha
    obtain ⟨d, backsC⟩ := owns.backed c hc
    have hbd : b ≠ d := by
      rintro rfl
      exact hne (backsA.1.trans backsC.1.symm)
    exact (apart b backsA.2.1 d backsC.2.1 hbd).mono backsA.inside backsC.inside
  · obtain ⟨b, backs⟩ := owns.backed a ha
    obtain ⟨r, hr, hIn⟩ := owned b backs.2.1
    exact ⟨r, hr, hIn.1.trans backs.inside.1, backs.inside.2.trans hIn.2⟩

/-- A sound call returns, and the new state owns its live allocations again. -/
lemma Owns.call (owns : Owns s blocks bucket) {c : Call} (allowed : Allowed s c)
    (sound : Sound s c) : ∃ s' blocks' bucket', call s c = some s' ∧ Owns s' blocks' bucket' ∧
      Change s.heap blocks s'.heap blocks' := by
  cases c with
  | kmalloc n run =>
    by_cases hn : n = 0
    · exact ⟨s, blocks, bucket, by simp [Heap.call, kmalloc, hn], owns, .none (fun _ _ _ => Iff.rfl) rfl⟩
    obtain ⟨b, size, h', blocks', bucket', hCall, inv', keeps, held, hBytes, hOld, hCur⟩ :=
      kmalloc_spec owns.inv hn sound fun unserved => allowed hn (not_not.mp unserved)
    have hne : b + sizeofBlock ≠ 0 := by unfold sizeofBlock; omega
    -- the new block was not allocated before, so no live pointer names it
    have hFresh : ∀ {a d}, Backs s.heap blocks a d → d ≠ b := by
      rintro a d ⟨-, hdBlock, hdHeld, -⟩ rfl
      simp [hOld hdBlock] at hdHeld
    refine ⟨_, blocks', bucket', by rw [Heap.call, hCall, map_some], ⟨inv', ?_, ?_⟩,
      .takes keeps (fun size req old => ?_) held hBytes hCur⟩
    · simp only [if_neg hne, forall_mem_cons]
      refine ⟨⟨b, rfl, held.1, held.2.1, ?_⟩, fun a ha => ?_⟩
      · rw [held.2.2.1]
        exact (Fits.le_roundRequest sound).trans hBytes
      · obtain ⟨d, backs⟩ := owns.backed a ha
        exact ⟨d, backs.keeps keeps (hFresh backs)⟩
    · refine pairwise_cons.mpr ⟨fun a ha hBase => ?_, owns.distinct⟩
      obtain ⟨d, backs⟩ := owns.backed a ha
      exact hFresh backs (add_right_cancel (hBase.trans backs.1)).symm
    · exact Bool.false_ne_true (old.2.1.symm.trans (hOld old.1))
  | kfree p =>
    obtain ⟨a, ha, rfl⟩ := mem_map.mp allowed
    obtain ⟨b, backs⟩ := owns.backed a ha
    obtain ⟨h', blocks', bucket', hCall, inv', keeps, change⟩ :=
      kfree_spec owns.inv backs.2.1 backs.2.2.1 (backs.1 ▸ sound)
    refine ⟨_, blocks', bucket', by rw [Heap.call, backs.1, hCall, map_some],
      ⟨inv', fun c hc => ?_, owns.distinct.filter _⟩, change⟩
    obtain ⟨hc, hBase⟩ := mem_filter.mp hc
    obtain ⟨d, backsC⟩ := owns.backed c hc
    refine ⟨d, backsC.keeps keeps ?_⟩
    rintro rfl
    simp [backsC.1] at hBase

variable {mem : Nat → Block} {hhdm p : Nat} {h : State}

lemma Owns.start (placed : Placed { mem := mem, hhdm := hhdm } (1024 * 1024) p)
    (init : heapInit mem hhdm p = some h) : ∃ blocks bucket, Owns { heap := h } blocks bucket ∧
      (∀ x size req, ¬ Held h blocks x size req) ∧ h.stats.curBytes = 0 := by
  obtain ⟨h', blocks, bucket, e, inv, hFree, hCur⟩ := heapInit_spec placed
  obtain rfl : h' = h := some.inj (e.symm.trans init)
  exact ⟨blocks, bucket, ⟨inv, by simp, List.Pairwise.nil⟩, hFree, hCur⟩

lemma Owns.step (owns : Owns s blocks bucket) {c : Call} (last : Guarded Sound Step s c s') :
    ∃ blocks' bucket', Owns s' blocks' bucket' ∧ Change s.heap blocks s'.heap blocks' := by
  obtain ⟨sound, allowed, hCall⟩ := last
  obtain ⟨s'', blocks', bucket', e, next⟩ := owns.call allowed sound
  obtain rfl : s'' = s' := some.inj (e.symm.trans hCall)
  exact ⟨blocks', bucket', next⟩

/-- In a run of sound calls every state is safe, and every further sound call returns. -/
theorem safe_of_sound_run (placed : Placed { mem := mem, hhdm := hhdm } (1024 * 1024) p)
    (init : heapInit mem hhdm p = some h) (run : Reaches (Guarded Sound Step) { heap := h } s) :
    Safe s ∧ ∀ c, Allowed s c → Sound s c → (call s c).isSome := by
  obtain ⟨blocks, bucket, owns⟩ : ∃ blocks bucket, Owns s blocks bucket :=
    run.invariant (P := fun s => ∃ blocks bucket, Owns s blocks bucket)
      (let ⟨_, _, owns, _⟩ := Owns.start placed init; ⟨_, _, owns⟩) fun _ _ _ ⟨_, _, owns⟩ last =>
      let ⟨_, _, owns', _⟩ := owns.step last; ⟨_, _, owns'⟩
  refine ⟨owns.safe, fun c allowed sound => ?_⟩
  obtain ⟨s', _, _, e, -⟩ := owns.call allowed sound
  rw [e]
  rfl

theorem safe_after_kmalloc_kfree : ∃ h s, heapInit (fun _ => {}) 0 0x100000 = some h ∧ s.heap.stats.freeCount = 1 ∧
      Reaches (Guarded Sound Step) { heap := h } s ∧ Safe s := by
  have trace : ((heapInit (fun _ => {}) 0 0x100000).bind fun h =>
      let s₀ : Session := { heap := h }
      let first := Call.kmalloc 100 0x1000000
      let second := Call.kfree 0x100030
      (call s₀ first).bind fun s₁ => (call s₁ second).map fun s₂ =>
        decide (Allowed s₀ first ∧ Sound s₀ first ∧ Allowed s₁ second ∧ Sound s₁ second ∧
          s₂.heap.stats.freeCount = 1)) = some true := by
    decide +kernel
  simp only [bind_eq_some_iff, map_eq_some_iff, decide_eq_true_eq] at trace
  obtain ⟨h, init, s₁, hFirst, s₂, hSecond, allowed₁, sound₁, allowed₂, sound₂, hCount⟩ := trace
  have run : Reaches (Guarded Sound Step) { heap := h } s₂ :=
    (Reaches.refl.tail _ ⟨sound₁, allowed₁, hFirst⟩).tail _ ⟨sound₂, allowed₂, hSecond⟩
  exact ⟨h, s₂, init, hCount, run, (safe_of_sound_run (by decide) init run).1⟩

/-- A 2 MiB request gets a run at `0x1000000`; freeing it extends the first block over memory of no
run. -/
theorem kfree_leaves_its_run : ∃ h s, Placed { mem := fun _ => {} } (1024 * 1024) 0x100000 ∧
      heapInit (fun _ => {}) 0 0x100000 = some h ∧ Reaches Step { heap := h } s ∧ ¬ Safe s := by
  have trace : ((heapInit (fun _ => {}) 0 0x100000).bind fun h =>
      let s₀ : Session := { heap := h }
      let first := Call.kmalloc 0x200000 0x1000000
      let second := Call.kfree 0x1000030
      (call s₀ first).bind fun s₁ => (call s₁ second).map fun s₂ =>
        decide (Allowed s₀ first ∧ Allowed s₁ second ∧ s₂.heap.head ≠ 0 ∧
          ∀ r ∈ s₂.heap.runs, ¬ (extent s₂.heap s₂.heap.head).Inside r)) = some true := by
    decide +kernel
  simp only [bind_eq_some_iff, map_eq_some_iff, decide_eq_true_eq] at trace
  obtain ⟨h, init, s₁, hFirst, s₂, hSecond, allowed₁, allowed₂, hne, hOut⟩ := trace
  refine ⟨h, s₂, by decide, init, (Reaches.refl.tail _ ⟨allowed₁, hFirst⟩).tail _ ⟨allowed₂, hSecond⟩, fun safe => ?_⟩
  obtain ⟨r, hr, hIn⟩ := safe.blocksOwned s₂.heap.head (Visited.start hne)
  exact hOut r hr hIn

end YartOS.Heap
