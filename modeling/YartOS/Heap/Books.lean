import YartOS.Heap.Disjoint
import Mathlib.Algebra.Order.BigOperators.Group.Finset
import Mathlib.Tactic.Ring

/-! The free lists and counters of the heap, and whether a second free is noticed. -/
namespace YartOS.Heap

open Linked Rows Runs List Option

variable {h h' : State} {blocks blocks' : List Nat} {bucket : Nat → List Nat} {b p size req : Nat}

/-! The requests of the allocated blocks. -/

def allocated (h : State) (blocks : List Nat) : List Nat := blocks.filter fun x => !(h.mem x).free

def requests (h : State) (blocks : List Nat) : Nat := ((allocated h blocks).map fun x => (h.mem x).req).sum

lemma mem_allocated {x : Nat} : x ∈ allocated h blocks ↔ ∃ size req, Held h blocks x size req := by
  simp [allocated, Held]

/-- The sum is over the allocated blocks in any order. -/
lemma requests_eq {l : List Nat} (distinct : blocks.Nodup) (once : l.Nodup)
    (mem : ∀ x, x ∈ l ↔ ∃ size req, Held h blocks x size req) :
    requests h blocks = (l.map fun x => (h.mem x).req).sum := by
  have hPerm : (allocated h blocks).Perm l :=
    (perm_ext_iff_of_nodup (distinct.filter _) once).mpr fun x => mem_allocated.trans (mem x).symm
  exact (hPerm.map _).sum_eq

lemma requests_none (distinct : blocks.Nodup) (distinct' : blocks'.Nodup)
    (same : ∀ x size req, Held h' blocks' x size req ↔ Held h blocks x size req) :
    requests h' blocks' = requests h blocks := by
  rw [requests_eq (l := allocated h blocks) distinct' (distinct.filter _) fun x => ?_]
  · refine congrArg sum (map_congr_left fun x hx => ?_)
    obtain ⟨size, req, held⟩ := mem_allocated.mp hx
    exact ((same x _ _).mpr held).2.2.2.trans held.2.2.2.symm
  · simp [same, mem_allocated]

/-- One block more is allocated. -/
lemma requests_takes (distinct : blocks.Nodup) (distinct' : blocks'.Nodup)
    (keeps : Keeps b h blocks h' blocks') (fresh : ∀ size req, ¬ Held h blocks b size req)
    (held : Held h' blocks' b size req) : requests h' blocks' = req + requests h blocks := by
  have hOld : b ∉ allocated h blocks := fun hb =>
    let ⟨_, _, old⟩ := mem_allocated.mp hb
    fresh _ _ old
  rw [requests_eq (l := b :: allocated h blocks) distinct'
    (nodup_cons.mpr ⟨hOld, distinct.filter _⟩) fun x => ?_, map_cons, sum_cons, held.2.2.2]
  · refine congrArg (req + sum ·) (map_congr_left fun x hx => ?_)
    obtain ⟨size, req, old⟩ := mem_allocated.mp hx
    exact ((keeps x _ _ fun e => hOld (e ▸ hx)).mpr old).2.2.2.trans old.2.2.2.symm
  · by_cases hx : x = b
    · exact iff_of_true (hx ▸ mem_cons_self) (hx ▸ ⟨_, _, held⟩)
    · simp [mem_cons, hx, false_or, mem_allocated, keeps x _ _ hx]

/-- Disjoint blocks do not hold more bytes than there are. -/
lemma requests_lt (inv : Inv h blocks bucket ∅)
    (room : ∀ x size req, Held h blocks x size req → req ≤ size + canaryBytes) : requests h blocks < wordSize := by
  have distinct : (allocated h blocks).Nodup := inv.nodup.filter _
  have hBlock : ∀ {x}, x ∈ (allocated h blocks).toFinset → x ∈ blocks := fun hx =>
    mem_of_mem_filter (mem_toFinset.mp hx)
  have hSum : requests h blocks ≤ ∑ x ∈ (allocated h blocks).toFinset, (finish h x - x) := by
    unfold requests
    rw [← sum_toFinset _ distinct]
    refine Finset.sum_le_sum fun x hx => ?_
    obtain ⟨size, req, held⟩ := mem_allocated.mp (mem_toFinset.mp hx)
    have := room x _ _ held
    obtain ⟨-, -, rfl, rfl⟩ := held
    unfold finish
    omega
  have hCard := Finset.card_biUnion (s := (allocated h blocks).toFinset)
    (t := fun x => Finset.Ico x (finish h x)) fun x hx y hy hne => by
      refine Finset.disjoint_left.mpr fun z hz hz' => ?_
      have := inv.disjoint (hBlock hx) (hBlock hy) hne
      simp only [Finset.mem_Ico] at hz hz'
      omega
  have hInside : (allocated h blocks).toFinset.biUnion (fun x => Finset.Ico x (finish h x)) ⊆
      Finset.Ico 1 wordSize := by
    intro z hz
    obtain ⟨x, hx, hz⟩ := Finset.mem_biUnion.mp hz
    have := inv.ne_zero (hBlock hx)
    have := inv.finish_le (hBlock hx)
    simp only [Finset.mem_Ico] at hz ⊢
    omega
  have hLe := Finset.card_le_card hInside
  simp only [hCard, Nat.card_Ico] at hLe
  have : 0 < wordSize := by decide
  omega

structure Booked (h : State) (blocks : List Nat) : Prop where
  room : ∀ x size req, Held h blocks x size req → req ≤ size + canaryBytes
  cur : h.stats.curBytes = requests h blocks

lemma Booked.change (booked : Booked h blocks) (inv : Inv h blocks bucket ∅) {bucket' : Nat → List Nat}
    (inv' : Inv h' blocks' bucket' ∅) (change : Change h blocks h' blocks') : Booked h' blocks' := by
  cases change with
  | none same cur =>
    exact ⟨fun x size req held => booked.room x size req ((same x size req).mp held),
      by rw [cur, booked.cur, requests_none inv.nodup inv'.nodup same]⟩
  | @takes b size req keeps fresh held room cur =>
    have room' : ∀ x size req, Held h' blocks' x size req → req ≤ size + canaryBytes := by
      intro x size' req' held'
      by_cases hx : x = b
      · subst hx
        rwa [← held'.2.2.1, ← held'.2.2.2, held.2.2.1, held.2.2.2]
      · exact booked.room x _ _ ((keeps x _ _ hx).mp held')
    have hSum := requests_takes inv.nodup inv'.nodup keeps fresh held
    have hLt := requests_lt inv' room'
    exact ⟨room', by rw [cur, booked.cur, wadd_eq (by omega), hSum, add_comm]⟩
  | @gives b size req keeps held gone cur =>
    have hSum := requests_takes inv'.nodup inv.nodup (fun x size req hx => (keeps x size req hx).symm)
      gone held
    refine ⟨fun x size' req' held' => ?_, ?_⟩
    · have hx : x ≠ b := fun e => gone _ _ (e ▸ held')
      exact booked.room x _ _ ((keeps x _ _ hx).mp held')
    · rw [cur, booked.cur, hSum]
      split_ifs <;> omega

/-- What block list, buckets and byte counter say of each other. -/
structure FreeLists (h : State) : Prop where
  next : ∀ b, OnList h b → nextOf h b ≠ 0 → OnList h (nextOf h b) ∧ prevOf h (nextOf h b) = b
  prev : ∀ b, OnList h b → prevOf h b ≠ 0 → OnList h (prevOf h b) ∧ nextOf h (prevOf h b) = b
  buckets : ∀ i < numBuckets, ∃ l : List Nat, Seg (bfreeNext h) (h.buckets i) l 0 ∧ l.Nodup ∧
    ∀ b, b ∈ l ↔ OnList h b ∧ (h.mem b).free = true ∧ classFor (h.mem b).size = i
  curBytes : ∃ l : List Nat, l.Nodup ∧ (∀ b, b ∈ l ↔ OnList h b ∧ (h.mem b).free = false) ∧
    h.stats.curBytes = (l.map fun b => (h.mem b).req).sum

lemma Booked.freeLists (booked : Booked h blocks) (inv : Inv h blocks bucket ∅) : FreeLists h := by
  have onList : ∀ {b}, OnList h b ↔ b ∈ blocks := inv.linked.forward.visited_iff inv.linked.nonnull
  refine ⟨fun b hb hne => ?_, fun b hb hne => ?_, fun i hi => ?_,
    allocated h blocks, inv.nodup.filter _, fun b => ?_, booked.cur⟩
  · obtain ⟨left, right, rfl⟩ := append_of_mem (onList.mp hb)
    rw [onList]
    exact inv.linked.prev_next hne
  · obtain ⟨left, right, rfl⟩ := append_of_mem (onList.mp hb)
    rw [onList]
    exact inv.linked.next_prev hne
  · refine ⟨bucket i, inv.chains i hi, inv.bucket_nodup hi, fun b => ?_⟩
    rw [onList]
    refine ⟨inv.pooled i hi b, fun ⟨hb, hf, hClass⟩ => ?_⟩
    obtain ⟨j, hj, hMem⟩ := (inv.complete b hb hf).resolve_left (Set.notMem_empty b)
    rwa [← hClass, (inv.pooled j hj b hMem).2.2]
  · rw [mem_allocated, onList]
    simp [Held]

variable {mem : Nat → Block} {hhdm : Nat} {s s' : Session}

/-- In a run of sound calls block list, buckets and counter agree. -/
theorem freeLists_of_sound_run (placed : Placed { mem := mem, hhdm := hhdm } (1024 * 1024) p)
    (init : heapInit mem hhdm p = some h) (run : Reaches (Guarded Sound Step) { heap := h } s) : FreeLists s.heap := by
  obtain ⟨blocks, bucket, owns, booked⟩ : ∃ blocks bucket, Owns s blocks bucket ∧ Booked s.heap blocks := by
    refine run.invariant (P := fun s => ∃ blocks bucket, Owns s blocks bucket ∧ Booked s.heap blocks)
      ?_ fun s c s' ⟨blocks, bucket, owns, booked⟩ last => ?_
    · obtain ⟨blocks, bucket, owns, none, cur⟩ := Owns.start placed init
      refine ⟨blocks, bucket, owns, fun x size req held => absurd held (none x size req), ?_⟩
      rw [cur, requests_eq (l := []) owns.inv.nodup nodup_nil (by simp [none])]
      rfl
    · obtain ⟨blocks', bucket', owns', change⟩ := owns.step last
      exact ⟨blocks', bucket', owns', booked.change owns.inv owns'.inv change⟩
  exact booked.freeLists owns.inv

theorem freeLists_after_kmalloc : ∃ h s, heapInit (fun _ => {}) 0 0x100000 = some h ∧ s.heap.stats.curBytes = 112 ∧
      Reaches (Guarded Sound Step) { heap := h } s ∧ FreeLists s.heap := by
  have trace : ((heapInit (fun _ => {}) 0 0x100000).bind fun h =>
      let s₀ : Session := { heap := h }
      (call s₀ (.kmalloc 100 0x1000000)).map fun s₁ =>
        decide (Allowed s₀ (.kmalloc 100 0x1000000) ∧ Sound s₀ (.kmalloc 100 0x1000000) ∧
          s₁.heap.stats.curBytes = 112)) = some true := by
    decide +kernel
  simp only [bind_eq_some_iff, map_eq_some_iff, decide_eq_true_eq] at trace
  obtain ⟨h, init, s, hCall, allowed, sound, hCur⟩ := trace
  have run : Reaches (Guarded Sound Step) { heap := h } s := .tail _ .refl ⟨sound, allowed, hCall⟩
  exact ⟨h, s, init, hCur, run, freeLists_of_sound_run (by decide) init run⟩

/-- For 2⁶⁴ - 64 bytes the page count wraps, and the block is handed out from within its bucket. -/
theorem kmalloc_keeps_block_in_bucket : ∃ h s, Placed { mem := fun _ => {} } (1024 * 1024) 0x100000 ∧
      heapInit (fun _ => {}) 0 0x100000 = some h ∧ Reaches Step { heap := h } s ∧
      ¬ FreeLists s.heap := by
  have trace : ((heapInit (fun _ => {}) 0 0x100000).bind fun h =>
      let s₀ : Session := { heap := h }
      (call s₀ (.kmalloc (2 ^ 64 - 64) 0x1000000)).map fun s₁ =>
        decide (Allowed s₀ (.kmalloc (2 ^ 64 - 64) 0x1000000) ∧
          s₁.heap.buckets hugeClass = 0x1000000 ∧ (s₁.heap.mem 0x1000000).free = false)) =
      some true := by
    decide +kernel
  simp only [bind_eq_some_iff, map_eq_some_iff, decide_eq_true_eq] at trace
  obtain ⟨h, init, s, hCall, allowed, hHead, hHeld⟩ := trace
  refine ⟨h, s, by decide, init, .tail _ .refl ⟨allowed, hCall⟩, fun lists => ?_⟩
  obtain ⟨l, chain, -, members⟩ := lists.buckets hugeClass (by decide)
  rw [hHead] at chain
  cases l with
  | nil => cases chain
  | cons x l =>
    have hx : x ∈ x :: l := mem_cons_self
    obtain ⟨-, hFree, -⟩ := (members x).mp hx
    rw [← chain.1, hHeld] at hFree
    cases hFree

/-! Freeing a pointer twice. -/

/-- Freeing the pointer counts a bad free and does nothing else. -/
def Detected (h : State) (p : Nat) : Prop := kfree h p = some { h with badFrees := wadd h.badFrees 1 }

/-- A second free is noticed iff the first found no free block in front: a block taken over keeps
its marks. -/
theorem detected_iff (hp : p ≠ 0) (hMagic : (h.mem (wsub p sizeofBlock)).magic = heapMagic)
    (hHeld : (h.mem (wsub p sizeofBlock)).free = false) (freed : kfree h p = some h') :
    Detected h' p ↔ ∀ h₁, mergeNext (counted h (wsub p sizeofBlock)) (wsub p sizeofBlock) = some h₁ →
      ¬ FreeInFront h₁ (wsub p sizeofBlock) := by
  rw [kfree_eq_release hp hMagic hHeld] at freed
  obtain ⟨h₁, c, hNext, front, hMarked, hOther, -, -⟩ := of_release freed
  rcases front with ⟨hFront, hc⟩ | ⟨hFront, hc⟩
  · -- the block that is marked is not the one that was freed
    have hne : wsub p sizeofBlock ≠ c := by
      intro e
      have hFree := ((Unmarked.mergeNext hNext).mem c).1
      rw [hc, hFront.2, ← hc, ← e, counted_mem, hHeld] at hFree
      cases hFree
    refine iff_of_false (fun detected => ?_) fun none => none h₁ hNext hFront
    obtain ⟨hFree, hMagic'⟩ := hOther _ hne
    unfold Detected at detected
    rw [kfree_eq_release hp (hMagic'.trans hMagic) (hFree.trans hHeld)] at detected
    obtain ⟨-, -, -, -, -, -, -, hCount⟩ := of_release detected
    change wadd h'.badFrees 1 = h'.badFrees at hCount
    unfold wadd wordSize at hCount
    omega
  · rw [hc] at hMarked
    refine iff_of_true ?_ fun h₂ hNext' => ?_
    · unfold Detected kfree
      simp [if_neg hp, hMarked, ite_self]
    · cases hNext.symm.trans hNext'
      exact hFront

theorem second_free_detected : ∃ h h' p, kfree h p = some h' ∧ Detected h' p := by
  have trace : ((heapInit (fun _ => {}) 0 0x100000).bind fun h => (kmalloc h 100 0x1000000).bind
      fun r => (mergeNext (counted r.2 (wsub r.1 sizeofBlock)) (wsub r.1 sizeofBlock)).bind fun h₁ =>
        (kfree r.2 r.1).map fun _ => decide (r.1 ≠ 0 ∧ (r.2.mem (wsub r.1 sizeofBlock)).magic = heapMagic ∧
          (r.2.mem (wsub r.1 sizeofBlock)).free = false ∧ (h₁.mem (wsub r.1 sizeofBlock)).prev = 0)) =
      some true := by
    decide +kernel
  simp only [bind_eq_some_iff, map_eq_some_iff, decide_eq_true_eq] at trace
  obtain ⟨-, -, ⟨p, h⟩, -, h₁, hNext, h', freed, hp, hMagic, hHeld, hFirst⟩ := trace
  refine ⟨h, h', p, freed, (detected_iff hp hMagic hHeld freed).mpr fun h₂ hNext' hFront => ?_⟩
  cases hNext.symm.trans hNext'
  exact hFront.1 hFirst

/-- Two neighbours are freed in address order, the second one twice. -/
theorem second_free_not_detected : ∃ h s s' p, Placed { mem := fun _ => {} } (1024 * 1024) 0x100000 ∧
      heapInit (fun _ => {}) 0 0x100000 = some h ∧ Reaches Step { heap := h } s ∧
      Step s (.kfree p) s' ∧ ¬ Detected s'.heap p := by
  have trace : ((heapInit (fun _ => {}) 0 0x100000).bind fun h =>
      let s₀ : Session := { heap := h }
      let malloc := Call.kmalloc 16 0x1000000
      (call s₀ malloc).bind fun s₁ => (call s₁ malloc).bind fun s₂ =>
        (call s₂ (.kfree 0x100030)).bind fun s₃ => (call s₃ (.kfree 0x100080)).map fun s₄ =>
          decide (Allowed s₀ malloc ∧ Allowed s₁ malloc ∧ Allowed s₂ (.kfree 0x100030) ∧
            Allowed s₃ (.kfree 0x100080) ∧ s₄.heap.badFrees = 0 ∧
            (kfree s₄.heap 0x100080).map (·.badFrees) = some 0)) = some true := by
    decide +kernel
  simp only [bind_eq_some_iff, map_eq_some_iff, decide_eq_true_eq] at trace
  obtain ⟨h, init, s₁, first, s₂, second, s₃, third, s₄, fourth, allowed₁, allowed₂, allowed₃,
    allowed₄, hBefore, h', hCall, hAfter⟩ := trace
  refine ⟨h, s₃, s₄, 0x100080, by decide, init, .tail _ (.tail _ (.tail _ .refl ⟨allowed₁, first⟩)
    ⟨allowed₂, second⟩) ⟨allowed₃, third⟩, ⟨allowed₄, fourth⟩, fun detected => ?_⟩
  cases hCall.symm.trans detected
  rw [hBefore] at hAfter
  change wadd 0 1 = 0 at hAfter
  exact absurd hAfter (by decide)

end YartOS.Heap
