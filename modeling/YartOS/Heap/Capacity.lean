import YartOS.Heap.Disjoint

/-! What a pointer of `kmalloc` is good for: the bytes asked for and the canary behind them. -/
namespace YartOS.Heap

open Linked Rows Option

variable {h h' : State} {blocks : List Nat} {bucket : Nat → List Nat} {b n p r ptr : Nat}

/-- A heap between two calls. Page runs start at a page other than page 0. -/
def Consistent (h : State) : Prop := (∃ blocks bucket, Inv h blocks bucket ∅) ∧ ∀ r ∈ h.runs, pageSize ≤ r.base

def Clear (h : State) (ptr last : Nat) : Prop :=
  (∃ r ∈ h.runs, r.base ≤ ptr ∧ last ≤ r.finish) ∧ ∀ c, OnList h c → ptr ≤ c → last ≤ c

def sizeofCanary : Nat := 4

def Capacity (h : State) (n p : Nat) : Prop :=
  ∀ ptr h', kmalloc h n p = some (ptr, h') → ptr ≠ 0 →
    Clear h' ptr (ptr + n) ∧ Clear h' ptr (ptr + roundRequest n + sizeofCanary)

/-- The rounding does not wrap, and header and request do not fill a new run. -/
def Room (h : State) (n : Nat) : Prop :=
  n + 15 < wordSize ∧ (Served h (roundRequest n) ∨ roundRequest n + 4143 < wordSize ∧
      growPages (roundRequest n) * pageSize ≠ roundRequest n + sizeofBlock)

lemma split_runs (h : State) (b r : Nat) : (split h b r).2.runs = h.runs := by
  unfold split
  split_ifs
  · rfl
  · exact setPrev_runs _ _ _

lemma trim_runs (h : State) (b r : Nat) : (trim h b r).runs = h.runs := by
  have cut := split_runs h b r
  unfold trim
  generalize split h b r = tail at *
  simp only
  split_ifs
  · exact cut
  · exact cut

lemma handOut_runs (h : State) (b r : Nat) : (handOut h b r).runs = h.runs := rfl

/-- A block large enough for the rounded request gives a clear payload. -/
lemma clear_of_size (inv : Inv h blocks bucket {b}) (room : r ≤ (h.mem b).size) (hWrap : r + 96 < wordSize) {last : Nat}
    (hLast : last ≤ b + sizeofBlock + r + canaryBytes) : Clear (handOut (trim h b r) b r) (b + sizeofBlock) last := by
  obtain ⟨blocks', bucket', inv', -, hSize⟩ := @trim_spec _ _ _ _ 0 inv r hWrap
  obtain ⟨inv'', -, -, -, hSame, -⟩ := @handOut_spec _ _ _ _ r inv'
  have hb := (inv'.looseFree b rfl).1
  have hEnd : last ≤ finish (handOut (trim h b r) b r) b := by
    unfold finish
    omega
  constructor
  · obtain ⟨run, hRun, hBase, hFinish⟩ := inv''.inside hb
    exact ⟨run, hRun, by omega, hEnd.trans hFinish⟩
  intro c hc hAfter
  have hMem := (inv''.linked.forward.visited_iff inv''.linked.nonnull).mp hc
  unfold sizeofBlock at hAfter
  have := lt_finish (handOut (trim h b r) b r) c
  rcases inv''.disjoint hb hMem (by omega) with hBefore | hBehind
  · exact hEnd.trans hBefore
  · omega

/-- In the new run nothing reaches behind its pages. -/
lemma last_le_of_grown (inv : Inv h' blocks bucket {b}) (runs : h'.runs = h.runs ++ [⟨b, growPages r * pageSize⟩])
    {last : Nat} (clear : Clear (handOut (trim h' b r) b r) (b + sizeofBlock) last) :
    last ≤ b + growPages r * pageSize := by
  obtain ⟨⟨run, hRun, hBase, hLast⟩, -⟩ := clear
  rw [handOut_runs, trim_runs] at hRun
  have apart := inv.apart
  rw [runs] at hRun apart
  rcases List.mem_append.mp hRun with hOld | hNew
  · have hApart := (List.pairwise_append.mp apart).2.2 run hOld ⟨b, growPages r * pageSize⟩ (by simp)
    have := growPages_ge r
    unfold Range.Apart Range.finish at hApart
    unfold Range.finish at hLast
    unfold sizeofBlock at *
    unfold pageSize at *
    simp only at hApart
    omega
  · rw [List.mem_singleton.mp hNew] at hLast
    exact hLast

lemma le_roundRequest (fits : n + 15 < wordSize) : n ≤ roundRequest n ∧ roundRequest n < n + 16 := by
  unfold roundRequest
  rw [wadd_eq fits]
  omega

/-- A page count that wraps ends up at the smallest run. -/
lemma growPages_wraps (hr : r % 16 = 0) (hWord : r < wordSize) (wraps : ¬ r + 4143 < wordSize) : growPages r = 8 := by
  have aligned : pageAlignUp (wadd sizeofBlock r) / pageSize < 8 := by
    unfold pageAlignUp
    unfold wadd sizeofBlock pageSize
    unfold wordSize at *
    omega
  unfold growPages
  simp [if_pos aligned]

/-- Room in the block that `kmalloc` takes is room for the canary, too. -/
lemma Acquired.size_of_room (acquired : Acquired h (roundRequest n) b h') (room : Room h n)
    (inv : Inv h' blocks bucket {b}) (low : ∀ r ∈ h.runs, pageSize ≤ r.base) :
    roundRequest n ≤ (h'.mem b).size ∧ roundRequest n + 96 < wordSize := by
  cases acquired with
  | found served hSize runs =>
    refine ⟨hSize, ?_⟩
    obtain ⟨run, hRun, hBase, hFinish⟩ := inv.inside (inv.looseFree b rfl).1
    have hLow := low run (runs ▸ hRun)
    have := (inv.space run hRun).2
    unfold finish at hFinish
    unfold pageSize sizeofBlock canaryBytes at *
    omega
  | grown unserved hSize runs =>
    obtain ⟨-, served | ⟨hWrap, hFull⟩⟩ := room
    · exact absurd served unserved
    have hPages := le_growPages hWrap
    have hRound : roundRequest n % 16 = 0 := by
      unfold roundRequest
      omega
    unfold pageSize sizeofBlock canaryBytes at *
    omega

lemma Acquired.room_of_clear (acquired : Acquired h (roundRequest n) b h')
    (inv : Inv h' blocks bucket {b}) (hWord : n < wordSize)
    (bytes : Clear (handOut (trim h' b (roundRequest n)) b (roundRequest n)) (b + sizeofBlock) (b + sizeofBlock + n))
    (canary : Clear (handOut (trim h' b (roundRequest n)) b (roundRequest n)) (b + sizeofBlock)
      (b + sizeofBlock + roundRequest n + sizeofCanary)) : Room h n := by
  have fits : n + 15 < wordSize := by
    by_contra wraps
    obtain ⟨⟨run, hRun, -, hLast⟩, -⟩ := bytes
    rw [handOut_runs, trim_runs] at hRun
    have := (inv.space run hRun).2
    unfold sizeofBlock at hLast
    omega
  refine ⟨fits, ?_⟩
  obtain ⟨hLow, hHigh⟩ := le_roundRequest fits
  cases acquired with
  | found served hSize runs => exact .inl served
  | grown unserved hSize runs =>
    have hBytes := last_le_of_grown inv runs bytes
    have hCanary := last_le_of_grown inv runs canary
    refine .inr ⟨?_, ?_⟩
    · by_contra wraps
      have hRound : roundRequest n % 16 = 0 := by
        unfold roundRequest
        omega
      have hLess : roundRequest n < wordSize := by
        unfold roundRequest
        rw [wadd_eq fits]
        omega
      rw [growPages_wraps hRound hLess wraps] at hBytes
      unfold sizeofBlock pageSize at hBytes
      unfold wordSize at *
      omega
    · intro hFull
      unfold sizeofCanary at hCanary
      omega

/-- A pointer that `kmalloc` returns has room for request and canary iff the rounding does not wrap
and the request is served from the free lists or leaves room in its run. -/
theorem capacity_iff (consistent : Consistent h) (hn : n ≠ 0) (hWord : n < wordSize)
    (placed : ¬ Served h (roundRequest n) → Placed h (roundRequest n) p) : Capacity h n p ↔ Room h n := by
  obtain ⟨⟨blocks, bucket, inv⟩, low⟩ := consistent
  obtain ⟨b, h', blocks', bucket', acquired, inv', -, -, -, hCall⟩ := kmalloc_acquired inv hn placed
  have hne : b + sizeofBlock ≠ 0 := by
    unfold sizeofBlock
    omega
  constructor
  · intro capacity
    obtain ⟨bytes, canary⟩ := capacity _ _ hCall hne
    exact acquired.room_of_clear inv' hWord bytes canary
  intro room ptr h'' hReturn _
  rw [hCall] at hReturn
  cases hReturn
  obtain ⟨hSize, hWrap⟩ := acquired.size_of_room room inv' low
  obtain ⟨hLow, -⟩ := le_roundRequest room.1
  unfold sizeofCanary
  constructor
  · apply clear_of_size inv' hSize hWrap
    omega
  · apply clear_of_size inv' hSize hWrap
    unfold canaryBytes
    omega

/-- The heap that `heap_init` builds in a run at 1 MiB. -/
lemma consistent_heapInit : ∃ h, heapInit (fun _ => {}) 0 0x100000 = some h ∧ Consistent h := by
  obtain ⟨h, blocks, bucket, hInit, inv, -⟩ := @heapInit_spec 0x100000 (fun _ => {}) 0 (by decide)
  have trace : (heapInit (fun _ => {}) 0 0x100000).map (fun h => decide (∀ r ∈ h.runs, pageSize ≤ r.base)) =
      some true := by decide +kernel
  rw [hInit, map_some, some.injEq, decide_eq_true_eq] at trace
  exact ⟨h, hInit, ⟨blocks, bucket, inv⟩, trace⟩

theorem capacity_of_hundred_bytes : ∃ h, heapInit (fun _ => {}) 0 0x100000 = some h ∧ Capacity h 100 0x1000000 := by
  obtain ⟨h, hInit, consistent⟩ := consistent_heapInit
  have trace : (heapInit (fun _ => {}) 0 0x100000).map
      (fun h => decide ((allocFromClass h (roundRequest 100)).map (·.1) = some 0)) = some false := by
    decide +kernel
  rw [hInit, map_some, some.injEq, decide_eq_false_iff_not] at trace
  have served : Served h (roundRequest 100) := trace
  exact ⟨h, hInit, (capacity_iff consistent (by decide) (by decide) fun unserved =>
    absurd served unserved).mpr ⟨by decide, .inl served⟩⟩

/-- 2 MiB less a header fills its run, and the canary is behind it. -/
theorem canary_behind_its_run : ∃ h, heapInit (fun _ => {}) 0 0x100000 = some h ∧ Consistent h ∧
    Placed h (roundRequest (0x200000 - 48)) 0x1000000 ∧ ¬ Capacity h (0x200000 - 48) 0x1000000 := by
  obtain ⟨h, hInit, consistent⟩ := consistent_heapInit
  have trace : ((heapInit (fun _ => {}) 0 0x100000).bind fun h =>
      (kmalloc h (0x200000 - 48) 0x1000000).map fun call =>
        decide (Placed h (roundRequest (0x200000 - 48)) 0x1000000 ∧ call.1 ≠ 0 ∧ ∀ r ∈ call.2.runs,
          ¬ (r.base ≤ call.1 ∧ call.1 + roundRequest (0x200000 - 48) + sizeofCanary ≤ r.finish))) = some true := by
    decide +kernel
  rw [hInit, bind_some, map_eq_some_iff] at trace
  obtain ⟨⟨ptr, h'⟩, hCall, hFacts⟩ := trace
  obtain ⟨placed, hne, outside⟩ := of_decide_eq_true hFacts
  refine ⟨h, hInit, consistent, placed, fun capacity => ?_⟩
  obtain ⟨-, ⟨run, hRun, hInside⟩, -⟩ := capacity ptr h' hCall hne
  exact outside run hRun hInside

end YartOS.Heap
