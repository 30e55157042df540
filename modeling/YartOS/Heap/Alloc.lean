import YartOS.Heap.Calls

/-! `kmalloc` and `kfree` return on every heap that satisfies the invariant. -/
namespace YartOS.Heap

open Linked Rows List Option

variable {h h' : State} {blocks left right : List Nat}
  {bucket : Nat → List Nat} {loose : Set Nat} {b n p x y : Nat}

lemma Rebucketed.placed (same : Rebucketed h h') (placed : Placed h n p) : Placed h' n p := by
  rw [same.rest]
  exact placed

/-- The sizes for which no addition inside `kmalloc` wraps. -/
def Fits (n : Nat) : Prop := n + 15 < wordSize ∧ roundRequest n + 4143 < wordSize

instance (n : Nat) : Decidable (Fits n) := inferInstanceAs (Decidable (_ ∧ _))

lemma Fits.le_roundRequest (fits : Fits n) : n ≤ roundRequest n := by
  obtain ⟨hn, -⟩ := fits
  unfold roundRequest
  rw [wadd_eq hn]
  omega

def Served (h : State) (r : Nat) : Prop := (allocFromClass h r).map (·.1) ≠ some 0

/-- The block that `kmalloc` takes: one of the free lists, or a new run. -/
inductive Acquired (h : State) (r : Nat) : Nat → State → Prop where
  | found {b : Nat} {h' : State} (served : Served h r) (room : r ≤ (h'.mem b).size)
      (runs : h'.runs = h.runs) : Acquired h r b h'
  | grown {b : Nat} {h' : State} (unserved : ¬ Served h r)
      (size : (h'.mem b).size = growPages r * pageSize - sizeofBlock - canaryBytes)
      (runs : h'.runs = h.runs ++ [⟨b, growPages r * pageSize⟩]) : Acquired h r b h'

lemma Rebucketed.runs (same : Rebucketed h h') : h'.runs = h.runs := by rw [same.rest]

lemma Rebucketed.stats (same : Rebucketed h h') : h'.stats = h.stats := by rw [same.rest]

lemma Acquired.le_size (acquired : Acquired h n b h') (hWrap : n + 4143 < wordSize) :
    n ≤ (h'.mem b).size + canaryBytes := by
  cases acquired with
  | found _ room _ => exact room.trans (Nat.le_add_right _ _)
  | grown _ size _ =>
    have hPages := le_growPages hWrap
    omega

lemma kmalloc_returns (hn : n ≠ 0) (inv : Inv h' blocks bucket {b})
    (hTaken : ((allocFromClass h (roundRequest n)).bind fun (b, h) =>
      if b = 0 then grow h (roundRequest n) p else some (b, h)) = some (b, h')) :
    kmalloc h n p = some (b + sizeofBlock, handOut (trim h' b (roundRequest n)) b (roundRequest n)) := by
  have hPayload : payload b = b + sizeofBlock := by
    have := inv.finish_le (inv.looseFree b rfl).1
    unfold finish canaryBytes at this
    exact wadd_eq (by omega)
  unfold kmalloc
  simp [if_neg hn, hTaken, map_some, hPayload]

lemma kmalloc_acquired (inv : Inv h blocks bucket ∅) (hn : n ≠ 0)
    (placed : ¬ Served h (roundRequest n) → Placed h (roundRequest n) p) :
    ∃ b h' blocks' bucket', Acquired h (roundRequest n) b h' ∧ Inv h' blocks' bucket' {b} ∧
      (∀ g, Keeps g h blocks h' blocks') ∧ (b ∈ blocks → (h.mem b).free = true) ∧
      h'.stats.curBytes = h.stats.curBytes ∧ kmalloc h n p =
        some (b + sizeofBlock, handOut (trim h' b (roundRequest n)) b (roundRequest n)) := by
  obtain ⟨⟨b, h₁⟩, hSearch, same, found⟩ := allocFromClass_spec inv (roundRequest n)
  have hCur := congrArg Stats.curBytes same.stats
  rcases found with ⟨hb, bucket₁, inv₁⟩ | ⟨hb, hSize, hFree, bucket₁, inv₁⟩
  · obtain rfl : b = 0 := hb
    have unserved : ¬ Served h (roundRequest n) := by
      unfold Served
      rw [hSearch]
      exact not_not.mpr rfl
    have placed₁ := same.placed (placed unserved)
    obtain ⟨h₂, hGrow, inv₂, hSize, keeps, runs, hCur₂⟩ := grow_spec inv₁ placed₁
    rw [insert_empty_eq] at inv₂
    rw [same.runs] at runs
    exact ⟨_, h₂, _, _, .grown unserved hSize runs, inv₂, fun g => same.keeps.trans (keeps g),
      fun hmem => absurd hmem (placed₁.notMem inv₁), hCur₂.trans hCur,
      kmalloc_returns hn inv₂ (by rw [hSearch]; exact hGrow)⟩
  · have hne : b ≠ 0 := inv.ne_zero hb
    have served : Served h (roundRequest n) := by
      unfold Served
      rw [hSearch]
      exact fun h => hne (some.inj h)
    rw [insert_empty_eq] at inv₁
    refine ⟨b, h₁, blocks, bucket₁, .found served ?_ same.runs, inv₁, fun _ => same.keeps, fun _ => hFree,
      hCur, kmalloc_returns hn inv₁ ?_⟩
    · rw [same.size]
      exact hSize
    · simp [hSearch, bind_some, if_neg hne]

lemma handOut_mem (h : State) (b n x : Nat) : ∃ m, (handOut h b n).mem x =
    { (if x = b then { h.mem x with free := false, req := n } else h.mem x) with magic := m } := by
  have hMark : (h.modify b fun x => { x with free := false, req := n }).mem x =
      if x = b then { h.mem x with free := false, req := n } else h.mem x := by
    by_cases hx : x = b
    · rw [hx, modify_mem_self, if_pos rfl]
    · rw [modify_mem_of_ne _ _ _ _ hx, if_neg hx]
  rw [← hMark]
  exact plantCanary_mem _ b x

lemma handOut_spec (inv : Inv h blocks bucket {b}) :
    Inv (handOut h b n) blocks bucket ∅ ∧ Keeps b h blocks (handOut h b n) blocks ∧
      Held (handOut h b n) blocks b (h.mem b).size n := by
  obtain ⟨hb, -, hOut⟩ := inv.looseFree b rfl
  have marked := (inv.remark hb hOut false n).plantCanary (b := b)
  simp only [Bool.false_eq_true, if_false, sdiff_self, Set.bot_eq_empty] at marked
  refine ⟨marked.of_same_links rfl rfl rfl fun x => ⟨_, rfl⟩, fun x size req hne => ?_, ?_⟩
  · obtain ⟨m, e⟩ := handOut_mem h b n x
    rw [Held, e, if_neg hne]
    exact Iff.rfl
  · obtain ⟨m, e⟩ := handOut_mem h b n b
    rw [Held, e, if_pos rfl]
    exact ⟨hb, rfl, rfl, rfl⟩

lemma trim_stats (h : State) (b want : Nat) : (trim h b want).stats = h.stats := by
  unfold trim split State.setPrev
  dsimp only
  split_ifs <;> rfl

lemma kmalloc_spec (inv : Inv h blocks bucket ∅) (hn : n ≠ 0) (fits : Fits n)
    (placed : ¬ Served h (roundRequest n) → Placed h (roundRequest n) p) :
    ∃ b size h' blocks' bucket', kmalloc h n p = some (b + sizeofBlock, h') ∧
      Inv h' blocks' bucket' ∅ ∧ Keeps b h blocks h' blocks' ∧
      Held h' blocks' b size (roundRequest n) ∧ roundRequest n ≤ size + canaryBytes ∧
      (b ∈ blocks → (h.mem b).free = true) ∧
      h'.stats.curBytes = wadd h.stats.curBytes (roundRequest n) := by
  obtain ⟨b, h₁, blocks₁, bucket₁, acquired, inv₁, keeps₁, hOld, hCur, hCall⟩ := kmalloc_acquired inv hn placed
  have hSize₁ := acquired.le_size fits.2
  obtain ⟨blocks₂, bucket₂, inv₂, keeps₂, hSize₂⟩ := trim_spec inv₁ (roundRequest n) (by have := fits.2; omega)
  obtain ⟨inv₃, keeps₃, held⟩ := @handOut_spec _ _ _ _ (roundRequest n) inv₂
  refine ⟨b, _, _, blocks₂, bucket₂, hCall, inv₃, ((keeps₁ b).trans keeps₂).trans keeps₃, held, by omega, hOld, ?_⟩
  change wadd (trim h₁ b (roundRequest n)).stats.curBytes _ = _
  rw [trim_stats, hCur]

lemma heapInit_spec {mem : Nat → Block} {hhdm : Nat} (placed : Placed { mem := mem, hhdm := hhdm } (1024 * 1024) p) :
    ∃ h blocks bucket, heapInit mem hhdm p = some h ∧ Inv h blocks bucket ∅ ∧
      (∀ x size req, ¬ Held h blocks x size req) ∧ h.stats.curBytes = 0 := by
  have empty : Inv { mem := mem, hhdm := hhdm } [] (fun _ => []) ∅ :=
    ⟨⟨rfl, trivial, by simp⟩, .nil, List.Pairwise.nil, by simp, fun _ _ => rfl, by simp,
      fun _ _ _ _ _ => disjoint_nil_left _, by simp, by simp⟩
  obtain ⟨h, hGrow, inv, -, keeps, -, hCur⟩ := grow_spec empty placed
  have pushed := inv.bucketPush (Set.mem_insert _ _)
  rw [insert_empty_eq, sdiff_self, Set.bot_eq_empty] at pushed
  have same := Rebucketed.bucketPush (inv.looseFree _ (Set.mem_insert _ _)).2.1
    (classFor (h.mem (physToVirt hhdm p)).size)
  refine ⟨_, _, _, by rw [heapInit, hGrow]; rfl, pushed, fun x size req held => ?_, hCur⟩
  have hNew := (@Rebucketed.keeps _ _ _ (x + 1) same x size req x.lt_succ_self.ne).mp held
  exact not_mem_nil ((keeps (x + 1) x size req x.lt_succ_self.ne).mp hNew).1

/-- Unlinking and coalescing change neither marks nor counters. -/
structure Unmarked (h h' : State) : Prop where
  mem : ∀ x, (h'.mem x).free = (h.mem x).free ∧ (h'.mem x).magic = (h.mem x).magic
  stats : h'.stats = h.stats
  badFrees : h'.badFrees = h.badFrees

namespace Unmarked

lemma refl (h : State) : Unmarked h h := ⟨fun _ => ⟨rfl, rfl⟩, rfl, rfl⟩

lemma trans {h'' : State} (first : Unmarked h h') (second : Unmarked h' h'') : Unmarked h h'' where
  mem x := ⟨(second.mem x).1.trans (first.mem x).1, (second.mem x).2.trans (first.mem x).2⟩
  stats := second.stats.trans first.stats
  badFrees := second.badFrees.trans first.badFrees

lemma modify {f : Block → Block} (same : Unmarked h h')
    (marks : ∀ x, (f x).free = x.free ∧ (f x).magic = x.magic) : Unmarked h (h'.modify b f) := by
  refine same.trans ⟨fun x => ?_, rfl, rfl⟩
  by_cases hx : x = b
  · rw [hx, modify_mem_self]
    exact marks _
  · rw [modify_mem_of_ne _ _ _ _ hx]
    exact ⟨rfl, rfl⟩

lemma absorb : Unmarked h (absorb h x y) := by
  unfold Heap.absorb State.setPrev
  dsimp only
  have linked := fun n after : Nat => (((refl h).modify (b := x) (f := fun blk => { blk with size := n })
    fun _ => ⟨rfl, rfl⟩).modify (b := x) (f := fun blk => { blk with next := after }) fun _ => ⟨rfl, rfl⟩)
  split
  · exact linked _ _
  · exact (linked _ _).modify fun _ => ⟨rfl, rfl⟩

lemma bucketPush (h : State) (b i : Nat) : Unmarked h (bucketPush h b i) := by
  have linked : Unmarked h (bfreeSetNext h b (h.buckets i)) := (refl h).modify fun _ => ⟨rfl, rfl⟩
  exact ⟨linked.mem, linked.stats, linked.badFrees⟩

lemma bucketRemoveFrom {l : List Nat} (e : bucketRemoveFrom h b l = some h') : Unmarked h h' := by
  induction l with
  | nil =>
    cases e
    exact .refl h
  | cons i l ih =>
    unfold Heap.bucketRemoveFrom at e
    split_ifs at e
    · cases e
      exact ⟨fun _ => ⟨rfl, rfl⟩, rfl, rfl⟩
    split at e
    · cases e
    split_ifs at e
    · exact ih e
    · cases e
      exact (refl h).modify fun _ => ⟨rfl, rfl⟩

lemma mergeNext (e : mergeNext h b = some h') : Unmarked h h' := by
  unfold Heap.mergeNext at e
  dsimp only at e
  split_ifs at e
  · obtain ⟨h₁, hRemove, rfl⟩ := map_eq_some_iff.mp e
    exact (bucketRemoveFrom hRemove).trans .absorb
  · cases e
    exact .refl h

end Unmarked

def FreeInFront (h : State) (b : Nat) : Prop := (h.mem b).prev ≠ 0 ∧ (h.mem (h.mem b).prev).free = true

/-- Freeing marks one block: the one in front, if that is free. -/
lemma of_release (e : release h b = some h') : ∃ h₁ c, mergeNext h b = some h₁ ∧
      (FreeInFront h₁ b ∧ c = (h₁.mem b).prev ∨ ¬ FreeInFront h₁ b ∧ c = b) ∧ (h'.mem c).free = true ∧
      (∀ x ≠ c, (h'.mem x).free = (h.mem x).free ∧ (h'.mem x).magic = (h.mem x).magic) ∧
      h'.stats = h.stats ∧ h'.badFrees = h.badFrees := by
  obtain ⟨⟨c, h₂⟩, hMerged, rfl⟩ := map_eq_some_iff.mp e
  obtain ⟨h₁, hNext, hPrev⟩ := bind_eq_some_iff.mp hMerged
  have first := Unmarked.mergeNext hNext
  obtain ⟨second, hc⟩ : Unmarked h₁ h₂ ∧ (FreeInFront h₁ b ∧ c = (h₁.mem b).prev ∨ ¬ FreeInFront h₁ b ∧ c = b) := by
    unfold mergePrev at hPrev
    dsimp only at hPrev
    split_ifs at hPrev with hFront
    · obtain ⟨h₃, hRemove, hEq⟩ := map_eq_some_iff.mp hPrev
      cases hEq
      exact ⟨(Unmarked.bucketRemoveFrom hRemove).trans .absorb, .inl ⟨hFront, rfl⟩⟩
    · cases hPrev
      exact ⟨.refl _, .inr ⟨hFront, rfl⟩⟩
  have same := first.trans second
  set h₃ := h₂.modify c fun x => { x with free := true, req := 0 } with hMark
  have last := Unmarked.bucketPush h₃ c (classFor (h₃.mem c).size)
  refine ⟨h₁, c, hNext, hc, ?_, fun x hx => ?_, last.stats.trans same.stats, last.badFrees.trans same.badFrees⟩
  · rw [(last.mem c).1, hMark, modify_mem_self]
  · rw [(last.mem x).1, (last.mem x).2, hMark, modify_mem_of_ne _ _ _ _ hx]
    exact same.mem x

def SameRun (h : State) (x y : Nat) : Prop := ∃ r ∈ h.runs, (r.base ≤ x ∧ x < r.finish) ∧ (r.base ≤ y ∧ y < r.finish)

instance (h : State) (x y : Nat) : Decidable (SameRun h x y) := inferInstanceAs (Decidable (∃ r ∈ h.runs, _))

lemma SameRun.of_runs (same : SameRun h x y) (runs : h'.runs = h.runs) : SameRun h' x y := by
  unfold SameRun
  rwa [runs]

lemma absorb_spec (inv : Inv h (left ++ x :: y :: right) bucket loose)
    (outX : ∀ i < numBuckets, x ∉ bucket i) (outY : ∀ i < numBuckets, y ∉ bucket i)
    (sameRun : SameRun h x y) : Inv (absorb h x y) (left ++ x :: right) bucket (loose \ {y}) ∧
      (absorb h x y).runs = h.runs ∧ ((absorb h x y).mem x).prev = (h.mem x).prev ∧
      ((absorb h x y).mem x).free = (h.mem x).free ∧
      ∀ z ∈ left ++ x :: y :: right, z ≠ x → SameBody h (absorb h x y) z := by
  obtain ⟨r, hr, hx, hy⟩ := sameRun
  have hxBlock : x ∈ left ++ x :: y :: right := by simp
  have hyBlock : y ∈ left ++ x :: y :: right := by simp
  have hxy : x ≠ y := by
    have := inv.notMem_of_middle.2
    simp only [mem_cons, not_or] at this
    exact this.1
  have shifted : Inv h ((left ++ [x]) ++ y :: right) bucket loose := by simpa using inv
  have hxNext : x ≠ (h.mem y).next := fun e => shifted.linked.next_notMem (by
    change (h.mem y).next ∈ _
    simp [← e])
  -- both blocks lie below the end of the run, so their joint size is a word
  have hGrown : wadd (h.mem x).size (wadd (wadd sizeofBlock canaryBytes) (h.mem y).size) =
      (h.mem x).size + (sizeofBlock + canaryBytes + (h.mem y).size) := by
    have touch := (inv.tiled.merge inv.apart (fun z _ => lt_finish h z) hr hx hy).1
    have := inv.finish_le hyBlock
    unfold finish sizeofBlock canaryBytes at *
    simp (disch := omega) only [wadd_eq]
  unfold absorb
  simp only [hGrown, modify_mem_of_ne _ _ _ _ hxy.symm]
  set grown := (h.mem x).size + (sizeofBlock + canaryBytes + (h.mem y).size)
  set h' := State.setPrev _ _ x with hDef
  have memX : h'.mem x = { h.mem x with next := (h.mem y).next, size := grown } := by
    rw [hDef, setPrev_mem _ _ _ _ (inv.ne_zero hxBlock), if_neg hxNext, modify_mem_self, modify_mem_self]
  have memOther : ∀ z ∈ left ++ x :: y :: right, z ≠ x →
      h'.mem z = if z = (h.mem y).next then { h.mem z with prev := x } else h.mem z := by
    intro z hz hzx
    rw [hDef, setPrev_mem _ _ _ _ (inv.ne_zero hz), modify_mem_of_ne _ _ _ _ hzx, modify_mem_of_ne _ _ _ _ hzx]
  refine ⟨inv.join outX outY hr hx hy (by simp [hDef]) (by simp [hDef]) (by simp [hDef]) memX
    memOther, by simp [hDef], by rw [memX], by rw [memX], fun z hz hzx => ?_⟩
  unfold SameBody
  rw [memOther z hz hzx]
  split_ifs <;> simp

/-- A free list neighbour of an allocated block can be taken out of its bucket. -/
lemma takeOut_spec (inv : Inv h blocks bucket ∅) (hy : y ∈ blocks)
    (hFree : (h.mem y).free = true) (hHeld : (h.mem b).free = false) :
    ∃ h' bucket', bucketRemove h y = some h' ∧ Rebucketed h h' ∧ Inv h' blocks bucket' {y} ∧
      (∀ i < numBuckets, y ∉ bucket' i) ∧ ∀ i < numBuckets, b ∉ bucket' i := by
  obtain ⟨h', bucket', hRemove, same, inv'⟩ := bucketRemove_spec inv hy hFree (by simp)
  rw [insert_empty_eq] at inv'
  exact ⟨h', bucket', hRemove, same, inv', (inv'.looseFree y rfl).2.2,
    fun i hi => inv'.not_pooled (by rw [same.free, hHeld]) hi⟩

lemma mergeNext_spec (inv : Inv h blocks bucket ∅) (hb : b ∈ blocks) (hHeld : (h.mem b).free = false)
    (sameRun : (h.mem b).next ≠ 0 → (h.mem (h.mem b).next).free = true → SameRun h b (h.mem b).next) :
    ∃ h' blocks' bucket', mergeNext h b = some h' ∧ Inv h' blocks' bucket' ∅ ∧ b ∈ blocks' ∧
      h'.runs = h.runs ∧ (h'.mem b).prev = (h.mem b).prev ∧
      (∀ z ∈ blocks, (h'.mem z).free = (h.mem z).free) ∧ Keeps b h blocks h' blocks' := by
  unfold mergeNext
  simp only
  split_ifs with hMerge
  · obtain ⟨hne, hFree⟩ := hMerge
    obtain ⟨left, right, rfl⟩ := append_of_mem hb
    obtain ⟨rest, rfl⟩ := inv.linked.eq_next_cons hne
    change Inv h (left ++ b :: (h.mem b).next :: rest) bucket ∅ at inv
    have hRun := sameRun hne hFree
    simp only [nextOf]
    generalize (h.mem b).next = nx at *
    obtain ⟨h₁, bucket₁, hRemove, same, inv₁, outY, outX⟩ := takeOut_spec inv (by simp) hFree hHeld
    obtain ⟨inv₂, hRuns, hPrev, hFreeB, hBody⟩ := absorb_spec inv₁ outX outY (hRun.of_runs same.runs)
    rw [sdiff_self, Set.bot_eq_empty] at inv₂
    have hFrees : ∀ z ∈ left ++ b :: nx :: rest, ((absorb h₁ b nx).mem z).free = (h.mem z).free := by
      intro z hz
      by_cases hzb : z = b
      · rw [hzb, hFreeB, same.free]
      · rw [(hBody z hz hzb).2.1, same.free]
    refine ⟨_, _, _, by rw [hRemove]; rfl, inv₂, by simp, hRuns.trans same.runs,
      hPrev.trans (same.prev b), hFrees, .of_sameBody (fun z hz hzHeld hzb => ⟨?_, ?_⟩)
      fun z hz hzHeld _ => ?_⟩
    · have hzn : z ≠ nx := by
        rintro rfl
        simp [hFree] at hzHeld
      simp only [mem_append, mem_cons] at hz ⊢
      tauto
    · rw [SameBody, ← same.held z hzHeld]
      exact hBody z hz hzb
    · have hz' : z ∈ left ++ b :: nx :: rest := by
        simp only [mem_append, mem_cons] at hz ⊢
        tauto
      exact ⟨hz', (hFrees z hz').symm.trans hzHeld⟩
  · exact ⟨h, blocks, bucket, rfl, inv, hb, rfl, rfl, fun _ _ => rfl, (Rebucketed.refl h).keeps⟩

/-- After the second merge the block `c` that now covers `b` is in no bucket. -/
lemma mergePrev_spec (inv : Inv h blocks bucket ∅) (hb : b ∈ blocks) (hHeld : (h.mem b).free = false)
    (sameRun : (h.mem b).prev ≠ 0 → (h.mem (h.mem b).prev).free = true → SameRun h (h.mem b).prev b) :
    ∃ c h' blocks' bucket' loose', mergePrev h b = some (c, h') ∧ Inv h' blocks' bucket' loose' ∧
      loose' ⊆ {c} ∧ c ∈ blocks' ∧ (∀ i < numBuckets, c ∉ bucket' i) ∧
      ((h'.mem c).free = true ∧ b ∉ blocks' ∨ c = b) ∧ Keeps b h blocks h' blocks' := by
  unfold mergePrev
  simp only
  split_ifs with hMerge
  · obtain ⟨hne, hFree⟩ := hMerge
    obtain ⟨left, right, rfl⟩ := append_of_mem hb
    obtain ⟨rest, rfl⟩ := inv.linked.eq_snoc_prev hne
    rw [append_assoc] at *
    change Inv h (rest ++ (h.mem b).prev :: b :: right) bucket ∅ at inv
    have hRun := sameRun hne hFree
    simp only [prevOf, cons_append, nil_append]
    generalize (h.mem b).prev = pv at *
    obtain ⟨h₁, bucket₁, hRemove, same, inv₁, outX, outY⟩ := takeOut_spec inv (by simp) hFree hHeld
    obtain ⟨inv₂, -, -, hFreeP, hBody⟩ := absorb_spec inv₁ outX outY (hRun.of_runs same.runs)
    have hSelf : ((absorb h₁ pv b).mem pv).free = true := by rw [hFreeP, same.free, hFree]
    have shifted : Inv h ((rest ++ [pv]) ++ b :: right) bucket ∅ := by simpa using inv
    have hLeft : b ∉ rest ++ pv :: right := by simpa [and_assoc] using shifted.notMem_of_middle
    refine ⟨pv, _, _, _, _, by rw [hRemove]; rfl, inv₂, Set.sdiff_subset, by simp, outX,
      .inl ⟨hSelf, hLeft⟩, .of_sameBody (fun z hz hzHeld hzb => ⟨?_, ?_⟩)
      fun z hz hzHeld _ => ?_⟩
    · simp only [mem_append, mem_cons] at hz ⊢
      tauto
    · have hzp : z ≠ pv := by
        rintro rfl
        simp [hFree] at hzHeld
      rw [SameBody, ← same.held z hzHeld]
      exact hBody z hz hzp
    have hzp : z ≠ pv := by
      rintro rfl
      simp [hSelf] at hzHeld
    have hz' : z ∈ rest ++ pv :: b :: right := by
      simp only [mem_append, mem_cons] at hz ⊢
      tauto
    exact ⟨hz', by rw [← same.free, ← (hBody z hz' hzp).2.1, hzHeld]⟩
  · exact ⟨b, h, blocks, bucket, ∅, rfl, inv, Set.empty_subset _, hb,
      fun i hi => inv.not_pooled hHeld hi, .inr rfl, (Rebucketed.refl h).keeps⟩

/-- Each free list neighbour of the block is in its page run. -/
def Coalescible (h : State) (p : Nat) : Prop :=
  let b := wsub p sizeofBlock
  ((h.mem b).next ≠ 0 → (h.mem (h.mem b).next).free = true → SameRun h b (h.mem b).next) ∧
    ((h.mem b).prev ≠ 0 → (h.mem (h.mem b).prev).free = true → SameRun h (h.mem b).prev b)

instance (h : State) (p : Nat) : Decidable (Coalescible h p) := inferInstanceAs (Decidable (_ ∧ _))

lemma wsub_payload (inv : Inv h blocks bucket loose) (hb : b ∈ blocks) : wsub (b + sizeofBlock) sizeofBlock = b := by
  have := inv.finish_le hb
  unfold finish canaryBytes at this
  rw [wsub_eq (Nat.le_add_left _ _) (by omega)]
  omega

lemma release_spec (inv : Inv h blocks bucket ∅) (hb : b ∈ blocks)
    (hHeld : (h.mem b).free = false) (ok : Coalescible h (b + sizeofBlock)) :
    ∃ h' blocks' bucket', release h b = some h' ∧ Inv h' blocks' bucket' ∅ ∧
      Keeps b h blocks h' blocks' ∧ ∀ size req, ¬ Held h' blocks' b size req := by
  rw [Coalescible, wsub_payload inv hb] at ok
  obtain ⟨h₁, blocks₁, bucket₁, hNext, inv₁, hb₁, hRuns, hPrev, hFrees, keeps₁⟩ := mergeNext_spec inv hb hHeld ok.1
  have hHeld₁ : (h₁.mem b).free = false := by rw [hFrees b hb, hHeld]
  obtain ⟨c, h₂, blocks₂, bucket₂, loose₂, hPrev', inv₂, hLoose, hc, hOut, hOwn, keeps₂⟩ :=
    mergePrev_spec inv₁ hb₁ hHeld₁ (by
      rw [hPrev]
      intro hne hFree
      obtain ⟨left, right, rfl⟩ := append_of_mem hb
      obtain ⟨rest, hRest⟩ := inv.linked.eq_snoc_prev hne
      refine (ok.2 hne ?_).of_runs hRuns
      rwa [← hFrees _ (by simp [hRest, prevOf])])
  have inv₃ := inv₂.remark hc hOut true 0
  rw [if_pos rfl] at inv₃
  have memC : (h₂.modify c fun x => { x with free := true, req := 0 }).mem c =
      { h₂.mem c with free := true, req := 0 } := modify_mem_self _ _ _
  have same := Rebucketed.bucketPush (congrArg Block.free memC)
    (classFor ((h₂.modify c fun x => { x with free := true, req := 0 }).mem c).size)
  have inv₄ := inv₃.bucketPush (Set.mem_insert c loose₂)
  have hNone : insert c loose₂ \ {c} = ∅ := Set.sdiff_eq_empty.mpr (Set.insert_subset (Set.mem_singleton c) hLoose)
  rw [hNone] at inv₄
  refine ⟨_, blocks₂, _, ?_, inv₄, ((keeps₁.trans keeps₂).trans (.of_sameBody (fun x hx hf hxb => ?_)
    fun x hx hf _ => ?_)).trans same.keeps, fun size req held => ?_⟩
  · unfold release
    rw [hNext, bind_some, hPrev', map_some]
  · have hxc : x ≠ c := by
      rintro rfl
      rcases hOwn with ⟨hOwn, -⟩ | hOwn
      · simp [hOwn] at hf
      · exact hxb hOwn
    rw [SameBody, modify_mem_of_ne _ _ _ _ hxc]
    exact ⟨hx, rfl, rfl, rfl⟩
  · have hxc : x ≠ c := by
      rintro rfl
      simp [memC] at hf
    rw [modify_mem_of_ne _ _ _ _ hxc] at hf
    exact ⟨hx, hf⟩
  · rcases hOwn with ⟨-, hGone⟩ | rfl
    · exact hGone held.1
    · have hf := held.2.1
      rw [same.free, memC] at hf
      cases hf

def counted (h : State) (b : Nat) : State :=
  { h with
    badCanaries := if (h.mem (canaryOf h b)).magic = heapCanary then h.badCanaries
      else wadd h.badCanaries 1
    stats := h.stats.free (h.mem b).req }

lemma counted_mem (h : State) (b : Nat) : (counted h b).mem = h.mem := rfl

lemma kfree_eq_release (hp : p ≠ 0) (hMagic : (h.mem (wsub p sizeofBlock)).magic = heapMagic)
    (hHeld : (h.mem (wsub p sizeofBlock)).free = false) :
    kfree h p = release (counted h (wsub p sizeofBlock)) (wsub p sizeofBlock) := by
  unfold kfree
  simp only [if_neg hp, if_neg (not_not_intro hMagic), hHeld, Bool.false_eq_true, if_false]
  rfl

/-- What a call does to allocated blocks and counted bytes. -/
inductive Change (h : State) (blocks : List Nat) (h' : State) (blocks' : List Nat) : Prop where
  | none (same : ∀ x size req, Held h' blocks' x size req ↔ Held h blocks x size req)
      (cur : h'.stats.curBytes = h.stats.curBytes) : Change h blocks h' blocks'
  | takes {b size req : Nat} (keeps : Keeps b h blocks h' blocks')
      (fresh : ∀ size req, ¬ Held h blocks b size req) (held : Held h' blocks' b size req)
      (room : req ≤ size + canaryBytes) (cur : h'.stats.curBytes = wadd h.stats.curBytes req) :
      Change h blocks h' blocks'
  | gives {b size req : Nat} (keeps : Keeps b h blocks h' blocks') (held : Held h blocks b size req)
      (gone : ∀ size req, ¬ Held h' blocks' b size req)
      (cur : h'.stats.curBytes = h.stats.curBytes - if req < h.stats.curBytes then req
        else h.stats.curBytes) : Change h blocks h' blocks'

/-- Freeing an allocated block; with a wrong magic word it is a counted no-op. -/
lemma kfree_spec (inv : Inv h blocks bucket ∅) (hb : b ∈ blocks)
    (hHeld : (h.mem b).free = false) (ok : Coalescible h (b + sizeofBlock)) :
    ∃ h' blocks' bucket', kfree h (b + sizeofBlock) = some h' ∧ Inv h' blocks' bucket' ∅ ∧
      Keeps b h blocks h' blocks' ∧ Change h blocks h' blocks' := by
  have hne : b + sizeofBlock ≠ 0 := by unfold sizeofBlock; omega
  have hBlock := wsub_payload inv hb
  by_cases hMagic : (h.mem b).magic = heapMagic
  · have inv₀ : Inv (counted h b) blocks bucket ∅ := inv.of_same_links rfl rfl rfl fun x => ⟨_, rfl⟩
    obtain ⟨h', blocks', bucket', hRelease, inv', keeps, gone⟩ := release_spec inv₀ hb hHeld ok
    obtain ⟨-, -, -, -, -, -, stats, -⟩ := of_release hRelease
    refine ⟨h', blocks', bucket', ?_, inv', keeps, .gives keeps ⟨hb, hHeld, rfl, rfl⟩ gone (by rw [stats]; rfl)⟩
    rw [← hBlock] at hMagic hHeld
    rw [kfree_eq_release hne hMagic hHeld, hBlock, hRelease]
  · unfold kfree
    simp only [if_neg hne, hBlock, if_pos hMagic]
    exact ⟨_, blocks, bucket, rfl, inv.of_same_links rfl rfl rfl fun x => ⟨_, rfl⟩,
      fun _ _ _ _ => Iff.rfl, .none (fun _ _ _ => Iff.rfl) rfl⟩

end YartOS.Heap
