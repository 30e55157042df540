import YartOS.Heap.Model

/-! What the heap keeps true between calls. The block list is cut into page runs; inside a run the
list order is the address order, without gaps. -/
namespace YartOS.Heap

open Linked Rows Function List

def nextOf (h : State) (b : Nat) : Nat := (h.mem b).next

def prevOf (h : State) (b : Nat) : Nat := (h.mem b).prev

def finish (h : State) (b : Nat) : Nat := b + sizeofBlock + (h.mem b).size + canaryBytes

/-- `loose` are the free blocks that are in no bucket at the moment. -/
structure Inv (h : State) (blocks : List Nat) (bucket : Nat → List Nat)
    (loose : Set Nat) : Prop where
  linked : Doubly (nextOf h) (prevOf h) 0 h.head blocks
  tiled : Tiled (finish h) h.runs blocks
  apart : h.runs.Pairwise Range.Apart
  space : ∀ r ∈ h.runs, 0 < r.base ∧ r.finish ≤ wordSize
  chains : ∀ i < numBuckets, Seg (bfreeNext h) (h.buckets i) (bucket i) 0
  pooled : ∀ i < numBuckets, ∀ b ∈ bucket i, b ∈ blocks ∧ (h.mem b).free = true ∧ classFor (h.mem b).size = i
  once : ∀ i < numBuckets, ∀ j < numBuckets, i ≠ j → (bucket i).Disjoint (bucket j)
  looseFree : ∀ b ∈ loose, b ∈ blocks ∧ (h.mem b).free = true ∧ ∀ i < numBuckets, b ∉ bucket i
  complete : ∀ b ∈ blocks, (h.mem b).free = true → b ∈ loose ∨ ∃ i < numBuckets, b ∈ bucket i

variable (h : State) (b x n : Nat) (f : Block → Block)

@[simp] lemma modify_head : (h.modify b f).head = h.head := rfl
@[simp] lemma modify_buckets : (h.modify b f).buckets = h.buckets := rfl
@[simp] lemma modify_runs : (h.modify b f).runs = h.runs := rfl
@[simp] lemma modify_mem : (h.modify b f).mem = update h.mem b (f (h.mem b)) := rfl
@[simp] lemma setBucket_mem : (setBucket h x b).mem = h.mem := rfl
@[simp] lemma setBucket_buckets : (setBucket h x b).buckets = update h.buckets x b := rfl
@[simp] lemma bfreeSetNext_buckets : (bfreeSetNext h b n).buckets = h.buckets := rfl
@[simp] lemma bfreeNext_setBucket : bfreeNext (setBucket h x n) = bfreeNext h := rfl

lemma bfreeNext_bfreeSetNext : bfreeNext (bfreeSetNext h b n) x = if x = b then n else bfreeNext h x := by
  simp only [bfreeNext, bfreeSetNext, modify_mem, update_apply]
  split_ifs <;> rfl

lemma modify_mem_self : (h.modify b f).mem b = f (h.mem b) := by simp

lemma modify_mem_of_ne (hx : x ≠ b) : (h.modify b f).mem x = h.mem x := by simp [update_of_ne hx]

@[simp] lemma setPrev_head : (h.setPrev b n).head = h.head := by unfold State.setPrev; split <;> rfl
@[simp] lemma setPrev_runs : (h.setPrev b n).runs = h.runs := by unfold State.setPrev; split <;> rfl
@[simp] lemma setPrev_buckets : (h.setPrev b n).buckets = h.buckets := by
  unfold State.setPrev; split <;> rfl

lemma setPrev_mem (hx : x ≠ 0) : (h.setPrev b n).mem x = if x = b then { h.mem x with prev := n } else h.mem x := by
  unfold State.setPrev
  by_cases hb : b = 0
  · rw [if_pos hb, if_neg (hb ▸ hx)]
  · split_ifs with hxb <;> simp [hxb]

lemma plantCanary_mem : ∃ m, (plantCanary h b).mem x = { h.mem x with magic := m } := by
  unfold plantCanary
  by_cases hx : x = canaryOf h b
  · exact ⟨heapCanary, by rw [hx, modify_mem_self]⟩
  · exact ⟨(h.mem x).magic, by rw [modify_mem_of_ne _ _ _ _ hx]⟩

lemma classFrom_le (l : List Nat) (i : Nat) (hi : i + l.length ≤ hugeClass) : classFrom n l i ≤ hugeClass := by
  induction l generalizing i with
  | nil => exact le_rfl
  | cons c l ih =>
    simp only [length_cons] at hi
    unfold classFrom
    split_ifs
    · omega
    · exact ih (i + 1) (by omega)

lemma wadd_eq {a b : Nat} (hab : a + b < wordSize) : wadd a b = a + b := Nat.mod_eq_of_lt hab

lemma wsub_eq {a b : Nat} (hba : b ≤ a) (ha : a < wordSize) : wsub a b = a - b := by
  unfold wsub
  rw [show a + (wordSize - b) = (a - b) + wordSize by omega, Nat.add_mod_right, Nat.mod_eq_of_lt (by omega)]

variable {h h' : State} {blocks : List Nat}
  {bucket : Nat → List Nat} {loose : Set Nat} {b x : Nat}

lemma lt_finish (h : State) (b : Nat) : b < finish h b := by
  unfold finish sizeofBlock
  omega

namespace Inv

variable (inv : Inv h blocks bucket loose)

include inv

lemma inside (hb : b ∈ blocks) : ∃ r ∈ h.runs, r.base ≤ b ∧ finish h b ≤ r.finish :=
  inv.tiled.inside (fun x _ => lt_finish h x) hb

lemma finish_le (hb : b ∈ blocks) : finish h b ≤ wordSize := by
  obtain ⟨r, hr, bounds⟩ := inv.inside hb
  exact bounds.2.trans (inv.space r hr).2

lemma ne_zero (hb : b ∈ blocks) : b ≠ 0 := inv.linked.nonnull b hb

lemma nodup : blocks.Nodup := inv.linked.nodup

/-- Two different blocks do not share a byte. -/
lemma disjoint (hb : b ∈ blocks) (hx : x ∈ blocks) (hne : b ≠ x) : finish h b ≤ x ∨ finish h x ≤ b := by
  have hPair := inv.tiled.pairwise inv.apart fun x _ => lt_finish h x
  have : Std.Symm fun x y => finish h x ≤ y ∨ finish h y ≤ x := ⟨fun _ _ => Or.symm⟩
  exact hPair.forall hb hx hne

variable {i : Nat} {rest : List Nat}

lemma bucket_mem (hi : i < numBuckets) (hb : b ∈ bucket i) : b ∈ blocks := (inv.pooled i hi b hb).1

lemma bucket_ne_zero (hi : i < numBuckets) : ∀ b ∈ bucket i, b ≠ 0 :=
  fun _ hb => inv.ne_zero (inv.bucket_mem hi hb)

lemma bucket_nodup (hi : i < numBuckets) : (bucket i).Nodup := (inv.chains i hi).nodup (inv.bucket_ne_zero hi)

/-- Loops over a list of blocks end well within the loop bound. -/
lemma length_lt {l : List Nat} (distinct : l.Nodup) (sub : ∀ x ∈ l, x ∈ blocks) : l.length < loopFuel := by
  have hle : l.length ≤ wordSize - 1 := by
    have hcons : (0 :: l).length ≤ wordSize := length_le_of_nodup_lt
      (nodup_cons.mpr ⟨fun h0 => inv.ne_zero (sub 0 h0) rfl, distinct⟩)
      (by
        intro x hx
        rcases mem_cons.mp hx with rfl | hx
        · decide
        · exact (lt_finish h x).trans_le (inv.finish_le (sub x hx)))
    simp only [length_cons] at hcons
    omega
  have : 0 < wordSize := by decide
  unfold loopFuel
  omega

/-- An allocated block is in no bucket. -/
lemma not_pooled (hb : (h.mem b).free = false) (hi : i < numBuckets) : b ∉ bucket i := by
  intro hmem
  simp [(inv.pooled i hi b hmem).2.1] at hb

/-- Updates of bucket links and magic words move blocks between buckets and loose ones. -/
lemma rebucket {bucket' : Nat → List Nat} {loose' : Set Nat} (head : h'.head = h.head) (runs : h'.runs = h.runs)
    (mem : ∀ x, ∃ r m, h'.mem x = { h.mem x with req := r, magic := m })
    (chains : ∀ i < numBuckets, Seg (bfreeNext h') (h'.buckets i) (bucket' i) 0)
    (once : ∀ i < numBuckets, ∀ j < numBuckets, i ≠ j → (bucket' i).Disjoint (bucket' j))
    (members : ∀ i < numBuckets, ∀ b ∈ bucket' i, b ∈ bucket i ∨ b ∈ loose ∧ classFor (h.mem b).size = i)
    (looseOut : ∀ b ∈ loose', (b ∈ loose ∨ ∃ i < numBuckets, b ∈ bucket i) ∧ ∀ i < numBuckets, b ∉ bucket' i)
    (kept : ∀ b, (b ∈ loose ∨ ∃ i < numBuckets, b ∈ bucket i) → b ∈ loose' ∨ ∃ i < numBuckets, b ∈ bucket' i) :
    Inv h' blocks bucket' loose' := by
  have hSize : ∀ b, (h'.mem b).size = (h.mem b).size := fun b => by obtain ⟨r, m, e⟩ := mem b; simp [e]
  have hFree : ∀ b, (h'.mem b).free = (h.mem b).free := fun b => by obtain ⟨r, m, e⟩ := mem b; simp [e]
  have hNext : ∀ b, (h'.mem b).next = (h.mem b).next := fun b => by obtain ⟨r, m, e⟩ := mem b; simp [e]
  have hPrev : ∀ b, (h'.mem b).prev = (h.mem b).prev := fun b => by obtain ⟨r, m, e⟩ := mem b; simp [e]
  have hOwned : ∀ b, (b ∈ loose ∨ ∃ i < numBuckets, b ∈ bucket i) → b ∈ blocks ∧ (h.mem b).free = true := by
    rintro b (hb | ⟨i, hi, hb⟩)
    · exact ⟨(inv.looseFree b hb).1, (inv.looseFree b hb).2.1⟩
    · exact ⟨(inv.pooled i hi b hb).1, (inv.pooled i hi b hb).2.1⟩
  refine ⟨?_, ?_, runs ▸ inv.apart, runs ▸ inv.space, chains, ?_, once, ?_, ?_⟩
  · rw [head]
    exact inv.linked.congr (fun x _ => hNext x) fun x _ => hPrev x
  · rw [runs]
    exact inv.tiled.congr fun x _ => by unfold finish; rw [hSize]
  · intro i hi b hb
    rw [hFree, hSize]
    rcases members i hi b hb with hb | ⟨hb, hClass⟩
    · exact inv.pooled i hi b hb
    · exact ⟨(hOwned b (.inl hb)).1, (hOwned b (.inl hb)).2, hClass⟩
  · intro b hb
    rw [hFree]
    obtain ⟨hFrom, hOut⟩ := looseOut b hb
    exact ⟨(hOwned b hFrom).1, (hOwned b hFrom).2, hOut⟩
  · intro b hb hf
    rw [hFree] at hf
    exact kept b (inv.complete b hb hf)

/-- The magic words, the counters and the statistics are not part of the invariant. -/
lemma of_same_links (head : h'.head = h.head) (runs : h'.runs = h.runs) (buckets : h'.buckets = h.buckets)
    (mem : ∀ b, ∃ m, h'.mem b = { h.mem b with magic := m }) : Inv h' blocks bucket loose := by
  refine inv.rebucket head runs (fun b => ⟨_, mem b⟩) (fun i hi => ?_) inv.once (fun i hi b hb => .inl hb)
    (fun b hb => ⟨.inl hb, (inv.looseFree b hb).2.2⟩) fun _ => id
  rw [buckets]
  refine (inv.chains i hi).congr fun x _ => ?_
  obtain ⟨m, e⟩ := mem x
  simp [bfreeNext, e]

lemma plantCanary : Inv (plantCanary h b) blocks bucket loose :=
  inv.of_same_links rfl rfl rfl fun x => plantCanary_mem h b x

/-- A loose block enters the bucket of its size. -/
lemma bucketPush (hb : b ∈ loose) : Inv (bucketPush h b (classFor (h.mem b).size)) blocks
      (update bucket (classFor (h.mem b).size) (b :: bucket (classFor (h.mem b).size))) (loose \ {b})
    := by
  obtain ⟨_, _, hOut⟩ := inv.looseFree b hb
  generalize hci : classFor (h.mem b).size = ci
  have hlt : ci < numBuckets := hci ▸ Nat.lt_succ_of_le (classFrom_le _ classes 0 (by decide))
  have hmem : ∀ x, (Heap.bucketPush h b ci).mem x =
      if x = b then { h.mem b with req := h.buckets ci } else h.mem x := by
    intro x
    simp [Heap.bucketPush, bfreeSetNext, setBucket_mem, modify_mem, update_apply]
  refine inv.rebucket rfl rfl (fun x => ?_) (fun i hi => ?_) (fun i hi j hj hij => ?_) (fun i hi x hx => ?_) ?_ ?_
  · rw [hmem]
    split_ifs with hx
    · exact ⟨h.buckets ci, _, by rw [hx]⟩
    · exact ⟨_, _, rfl⟩
  · have frame : Seg (bfreeNext (Heap.bucketPush h b ci)) (h.buckets i) (bucket i) 0 :=
      (inv.chains i hi).congr fun x hx => by
        have : x ≠ b := fun e => hOut i hi (e ▸ hx)
        unfold bfreeNext
        rw [hmem, if_neg this]
    by_cases hic : i = ci
    · subst hic
      have hLink : bfreeNext (Heap.bucketPush h b i) b = h.buckets i := by
        unfold bfreeNext
        rw [hmem, if_pos rfl]
      rw [update_self, Seg.cons_iff, hLink]
      exact ⟨by simp [Heap.bucketPush], frame⟩
    · simpa [Heap.bucketPush, update_of_ne hic] using frame
  · by_cases hic : i = ci
    · subst hic
      rw [update_self, update_of_ne (Ne.symm hij)]
      exact disjoint_cons_left.mpr ⟨hOut j hj, inv.once i hi j hj hij⟩
    rw [update_of_ne hic]
    by_cases hjc : j = ci
    · subst hjc
      rw [update_self]
      exact disjoint_cons_right.mpr ⟨hOut i hi, inv.once i hi j hj hij⟩
    · rw [update_of_ne hjc]
      exact inv.once i hi j hj hij
  · by_cases hic : i = ci
    · subst hic
      rw [update_self] at hx
      rcases mem_cons.mp hx with rfl | hx
      · exact .inr ⟨hb, hci⟩
      · exact .inl hx
    · rw [update_of_ne hic] at hx
      exact .inl hx
  · rintro x ⟨hx, hne⟩
    have hne : x ≠ b := hne
    refine ⟨.inl hx, fun i hi => ?_⟩
    have hxi := (inv.looseFree x hx).2.2 i hi
    by_cases hic : i = ci
    · subst hic
      simpa [hne] using hxi
    · rwa [update_of_ne hic]
  · rintro x (hx | ⟨i, hi, hx⟩)
    · by_cases hne : x = b
      · exact .inr ⟨ci, hlt, by simp [hne]⟩
      · exact .inl ⟨hx, hne⟩
    · refine .inr ⟨i, hi, ?_⟩
      by_cases hic : i = ci
      · subst hic
        simp [hx]
      · rwa [update_of_ne hic]

/-- A block leaves its bucket; the other buckets are not touched. -/
lemma unlink (hi : i < numBuckets) (hb : b ∈ bucket i) (head : h'.head = h.head) (runs : h'.runs = h.runs)
    (mem : ∀ x, ∃ r, h'.mem x = { h.mem x with req := r }) (frame : ∀ x, x ∉ bucket i → h'.mem x = h.mem x)
    (others : ∀ j, j ≠ i → h'.buckets j = h.buckets j)
    (chain : Seg (bfreeNext h') (h'.buckets i) ((bucket i).erase b) 0) :
    Inv h' blocks (update bucket i ((bucket i).erase b)) (insert b loose) := by
  have hNodup := inv.bucket_nodup hi
  have hSub : ∀ j, ∀ x ∈ update bucket i ((bucket i).erase b) j, x ∈ bucket j := by
    intro j x hx
    by_cases hji : j = i
    · subst hji
      rw [update_self] at hx
      exact mem_of_mem_erase hx
    · rwa [update_of_ne hji] at hx
  refine inv.rebucket head runs (fun x => (mem x).imp fun _ e => ⟨_, e⟩) (fun j hj => ?_) (fun j hj k hk hjk x hx hx' => ?_)
    (fun j hj x hx => .inl (hSub j x hx)) ?_ ?_
  · by_cases hji : j = i
    · subst hji
      rwa [update_self]
    · rw [update_of_ne hji, others j hji]
      refine (inv.chains j hj).congr fun x hx => ?_
      unfold bfreeNext
      rw [frame x fun hx' => inv.once j hj i hi hji hx hx']
  · exact inv.once j hj k hk hjk (hSub j x hx) (hSub k x hx')
  · rintro x (rfl | hx)
    · refine ⟨.inr ⟨i, hi, hb⟩, fun j hj hx => ?_⟩
      by_cases hji : j = i
      · subst hji
        rw [update_self] at hx
        exact hNodup.not_mem_erase hx
      · exact inv.once j hj i hi hji (hSub j x hx) hb
    · exact ⟨.inl hx, fun j hj hx' => (inv.looseFree x hx).2.2 j hj (hSub j x hx')⟩
  · rintro x (hx | ⟨j, hj, hx⟩)
    · exact .inl (.inr hx)
    by_cases hxb : x = b
    · exact .inl (.inl hxb)
    refine .inr ⟨j, hj, ?_⟩
    by_cases hji : j = i
    · subst hji
      rw [update_self]
      exact (mem_erase_of_ne hxb).mpr hx
    · rwa [update_of_ne hji]

lemma unlink_head (hi : i < numBuckets) (hBucket : bucket i = b :: rest) : Inv (setBucket h i (bfreeNext h b)) blocks
      (update bucket i ((bucket i).erase b)) (insert b loose) := by
  have chain := inv.chains i hi
  rw [hBucket] at chain
  refine inv.unlink hi (by simp [hBucket]) rfl rfl (fun x => ⟨(h.mem x).req, rfl⟩) (fun _ _ => rfl)
    (fun j hj => by simp [update_of_ne hj]) ?_
  rw [hBucket, erase_cons_head]
  simpa using chain.2

lemma unlink_after {t : Nat} {before : List Nat} (hi : i < numBuckets)
    (hBucket : bucket i = before ++ t :: b :: rest) : Inv (bfreeSetNext h t (bfreeNext h b)) blocks
      (update bucket i ((bucket i).erase b)) (insert b loose) := by
  have chain := inv.chains i hi
  have hNodup := inv.bucket_nodup hi
  rw [hBucket] at chain hNodup
  obtain ⟨hBefore, hRest, hApart⟩ := nodup_append.mp hNodup
  simp only [nodup_cons, mem_cons, not_or] at hRest
  have hmem : ∀ x, (bfreeSetNext h t (bfreeNext h b)).mem x =
      if x = t then { h.mem t with req := bfreeNext h b } else h.mem x := by
    intro x
    simp [bfreeSetNext, modify_mem, update_apply]
  have frame : ∀ x, x ≠ t → bfreeNext (bfreeSetNext h t (bfreeNext h b)) x = bfreeNext h x :=
    fun x hx => by rw [bfreeNext_bfreeSetNext, if_neg hx]
  refine inv.unlink hi (by simp [hBucket]) rfl rfl (fun x => ?_) (fun x hx => ?_) (fun _ _ => rfl) ?_
  · rw [hmem]
    split_ifs with hx
    · exact ⟨bfreeNext h b, by rw [hx]⟩
    · exact ⟨(h.mem x).req, rfl⟩
  · rw [hmem, if_neg]
    rintro rfl
    simp [hBucket] at hx
  have hErase : (before ++ t :: b :: rest).erase b = before ++ t :: rest := by
    have hb : b ∉ before := fun hb => hApart b hb b (by simp) rfl
    have htb : (t == b) = false := by simpa using hRest.1.1
    simp [erase_append_right _ hb, htb]
  rw [hBucket, hErase, bfreeSetNext_buckets]
  obtain ⟨toT, -, fromB⟩ := Seg.middle_iff.mp chain
  refine Seg.middle_iff.mpr ⟨toT.congr fun x hx => frame x ?_, ?_⟩
  · rintro rfl
    exact hApart x hx x (by simp) rfl
  · rw [bfreeNext_bfreeSetNext, if_pos rfl]
    refine fromB.congr fun x hx => frame x ?_
    rintro rfl
    exact hRest.1.2 hx

end Inv

end YartOS.Heap
