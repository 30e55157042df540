import YartOS.Heap.Invariant

/-! The loops of `heap.c` that search the buckets. Each of them ends, and each
leaves the block list alone. -/
namespace YartOS.Heap

open Linked Rows List

variable {h h' h'' : State} {blocks : List Nat}
  {bucket : Nat → List Nat} {loose : Set Nat} {b n t : Nat}

/-- The states differ in bucket heads and bucket links of free blocks only. -/
structure Rebucketed (h h' : State) : Prop where
  rest : h' = { h with mem := h'.mem, buckets := h'.buckets }
  mem : ∀ x, ∃ r, h'.mem x = { h.mem x with req := r }
  held : ∀ x, (h.mem x).free = false → h'.mem x = h.mem x

namespace Rebucketed

lemma refl (h : State) : Rebucketed h h := ⟨rfl, fun x => ⟨(h.mem x).req, rfl⟩, fun _ _ => rfl⟩

section

variable (same : Rebucketed h h') (x : Nat)

include same x

lemma free : (h'.mem x).free = (h.mem x).free := by
  obtain ⟨r, e⟩ := same.mem x
  rw [e]

lemma size : (h'.mem x).size = (h.mem x).size := by
  obtain ⟨r, e⟩ := same.mem x
  rw [e]

lemma prev : (h'.mem x).prev = (h.mem x).prev := by
  obtain ⟨r, e⟩ := same.mem x
  rw [e]

end

lemma trans (first : Rebucketed h h') (second : Rebucketed h' h'') : Rebucketed h h'' := by
  refine ⟨by rw [second.rest, first.rest], fun x => ?_, fun x hx => ?_⟩
  · obtain ⟨r, e⟩ := first.mem x
    obtain ⟨r', e'⟩ := second.mem x
    exact ⟨r', by rw [e', e]⟩
  · rw [second.held x ((first.free x).trans hx), first.held x hx]

lemma setBucket (h : State) (i b : Nat) : Rebucketed h (setBucket h i b) :=
  ⟨rfl, fun x => ⟨(h.mem x).req, rfl⟩, fun _ _ => rfl⟩

lemma bfreeSetNext (hb : (h.mem b).free = true) : Rebucketed h (bfreeSetNext h b n) := by
  refine ⟨rfl, fun x => ?_, fun x hx => ?_⟩
  · by_cases hxb : x = b
    · subst hxb
      exact ⟨n, modify_mem_self _ _ _⟩
    · exact ⟨(h.mem x).req, modify_mem_of_ne _ _ _ _ hxb⟩
  · have hxb : x ≠ b := by
      rintro rfl
      simp [hb] at hx
    exact modify_mem_of_ne _ _ _ _ hxb

lemma bucketPush (hb : (h.mem b).free = true) (i : Nat) : Rebucketed h (bucketPush h b i) :=
  (bfreeSetNext hb).trans (setBucket _ i b)

end Rebucketed

variable {l before rest : List Nat} {fuel s : Nat}

lemma linkTo_absent (seg : Seg (bfreeNext h) t l 0) (nonzero : ∀ x ∈ l, x ≠ 0)
    (absent : ∀ x ∈ l, bfreeNext h x ≠ b) (hFuel : l.length < fuel) : linkTo h b fuel t = some 0 := by
  induction fuel generalizing t l with
  | zero => omega
  | succ fuel ih =>
    cases l with
    | nil =>
      obtain rfl : t = 0 := seg
      simp [linkTo]
    | cons x l =>
      obtain ⟨rfl, seg⟩ := seg
      simp only [length_cons] at hFuel
      rw [linkTo, if_neg (nonzero t (by simp)), if_neg (absent t (by simp))]
      exact ih seg (fun x hx => nonzero x (by simp [hx])) (fun x hx => absent x (by simp [hx])) (by omega)

lemma linkTo_found (seg : Seg (bfreeNext h) t (before ++ s :: b :: rest) 0)
    (nonzero : ∀ x ∈ before ++ s :: b :: rest, x ≠ 0) (distinct : (before ++ s :: b :: rest).Nodup)
    (hFuel : (before ++ s :: b :: rest).length < fuel) : linkTo h b fuel t = some s := by
  induction fuel generalizing t before with
  | zero => omega
  | succ fuel ih =>
    cases before with
    | nil =>
      obtain ⟨rfl, hLink, -⟩ := seg
      rw [linkTo, if_neg (nonzero t (by simp)), if_pos hLink]
    | cons x before =>
      obtain ⟨rfl, seg⟩ := seg
      simp only [cons_append, length_cons] at hFuel
      have hNodup := (nodup_cons.mp distinct).2
      -- the link of an earlier node is the node after it, which is not yet `b`
      have hLink : bfreeNext h t ≠ b := by
        intro hEq
        rw [hEq] at seg
        cases before with
        | nil | cons y before =>
          obtain ⟨rfl, -⟩ := seg
          simp at hNodup
      rw [linkTo, if_neg (nonzero t (by simp)), if_neg hLink]
      exact ih seg (fun y hy => nonzero y (mem_cons_of_mem _ hy)) hNodup (by omega)

lemma bucketRemoveFrom_spec (inv : Inv h blocks bucket loose) {i : Nat}
    (hi : i < numBuckets) (hb : b ∈ bucket i) (js : List Nat) (hjs : ∀ j ∈ js, j < numBuckets)
    (hmem : i ∈ js) : ∃ h', bucketRemoveFrom h b js = some h' ∧ Rebucketed h h' ∧
      Inv h' blocks (Function.update bucket i ((bucket i).erase b)) (insert b loose) := by
  induction js with
  | nil => simp at hmem
  | cons j js ih =>
    have hj := hjs j (by simp)
    have hbne : b ≠ 0 := inv.bucket_ne_zero hi b hb
    have hLen : (bucket j).length < loopFuel := inv.length_lt (inv.bucket_nodup hj) fun x hx => inv.bucket_mem hj hx
    unfold bucketRemoveFrom
    by_cases hji : j = i
    · subst hji
      obtain ⟨before, rest, hBucket⟩ := append_of_mem hb
      rcases eq_nil_or_concat before with rfl | ⟨before, s, rfl⟩
      · have hHead : h.buckets j = b := by
          have := inv.chains j hj
          rw [hBucket] at this
          exact this.1
        rw [if_pos hHead]
        exact ⟨_, rfl, .setBucket h j _, inv.unlink_head hj hBucket⟩
      simp only [concat_eq_append, append_assoc, cons_append, nil_append] at hBucket
      have hNodup := inv.bucket_nodup hj
      have hNonzero := inv.bucket_ne_zero hj
      have hSeg := inv.chains j hj
      have hsFree := (inv.pooled j hj s (by simp [hBucket])).2.1
      rw [hBucket] at hNodup hNonzero hSeg hLen
      have hHead : h.buckets j ≠ b := by
        intro hEq
        rw [hEq] at hSeg
        cases before with
        | nil | cons y before =>
          obtain ⟨rfl, -⟩ := hSeg
          simp at hNodup
      rw [if_neg hHead, linkTo_found hSeg hNonzero hNodup hLen]
      simp only [hNonzero s (by simp), if_false]
      exact ⟨_, rfl, .bfreeSetNext hsFree, inv.unlink_after hj hBucket⟩
    · have hAbsent : b ∉ bucket j := fun hbj => inv.once j hj i hi hji hbj hb
      have hSeg := inv.chains j hj
      have hHead : h.buckets j ≠ b := by
        intro hEq
        cases hBucket : bucket j with
        | nil =>
          rw [hBucket] at hSeg
          exact hbne (hEq.symm.trans hSeg)
        | cons y rest =>
          rw [hBucket] at hSeg
          simp [hBucket, ← hEq, hSeg.1] at hAbsent
      have hNone : ∀ x ∈ bucket j, bfreeNext h x ≠ b := by
        intro x hx hEq
        obtain ⟨l₁, l₂, hBucket⟩ := append_of_mem hx
        rw [hBucket] at hSeg
        have hRest := (Seg.middle_iff.mp hSeg).2
        rw [hEq] at hRest
        cases l₂ with
        | nil => exact hbne hRest
        | cons y l₂ => simp [hBucket, hRest.1] at hAbsent
      rw [if_neg hHead, linkTo_absent hSeg (inv.bucket_ne_zero hj) hNone hLen]
      exact ih (fun k hk => hjs k (by simp [hk])) (by simpa [Ne.symm hji] using hmem)

/-- Removal from a bucket finds the block wherever it is. -/
lemma bucketRemove_spec (inv : Inv h blocks bucket loose) (hb : b ∈ blocks)
    (hFree : (h.mem b).free = true) (hLoose : b ∉ loose) :
    ∃ h' bucket', bucketRemove h b = some h' ∧ Rebucketed h h' ∧ Inv h' blocks bucket' (insert b loose) := by
  rcases inv.complete b hb hFree with hb | ⟨i, hi, hb⟩
  · exact absurd hb hLoose
  · obtain ⟨h', hRemove, same, inv'⟩ := bucketRemoveFrom_spec inv hi hb (range numBuckets) (by simp) (by simpa using hi)
    exact ⟨h', _, hRemove, same, inv'⟩

/-- A search returns a block out of its bucket, or `0` with all blocks in buckets. -/
def Taken (h : State) (blocks : List Nat) (loose : Set Nat) (n : Nat)
    (found : Nat × State) : Prop :=
  Rebucketed h found.2 ∧ ((found.1 = 0 ∧ ∃ bucket', Inv found.2 blocks bucket' loose) ∨
      (found.1 ∈ blocks ∧ n ≤ (h.mem found.1).size ∧ (h.mem found.1).free = true ∧
        ∃ bucket', Inv found.2 blocks bucket' (insert found.1 loose)))

lemma Taken.of_rebucketed {found : Nat × State} (same : Rebucketed h h')
    (taken : Taken h' blocks loose n found) : Taken h blocks loose n found := by
  obtain ⟨after, hFound⟩ := taken
  refine ⟨same.trans after, ?_⟩
  rwa [same.size, same.free] at hFound

variable (inv : Inv h blocks bucket loose)

include inv

lemma scanHuge_spec (before : List Nat) {l : List Nat} {fuel pr : Nat} (hBucket : bucket hugeClass = before ++ l)
    (hpr : pr = before.getLastD 0) (seg : Seg (bfreeNext h) b l 0) (hFuel : l.length < fuel) :
    ∃ found, scanHuge n h fuel pr b = some found ∧ Taken h blocks loose n found := by
  have hHuge : hugeClass < numBuckets := by decide
  have hNonzero := inv.bucket_ne_zero hHuge
  induction fuel generalizing before l pr b with
  | zero => omega
  | succ fuel ih =>
    cases l with
    | nil =>
      obtain rfl : b = 0 := seg
      exact ⟨(0, h), by simp [scanHuge], .refl h, .inl ⟨rfl, bucket, inv⟩⟩
    | cons x l =>
      obtain ⟨rfl, seg⟩ := seg
      have hbMem : b ∈ bucket hugeClass := by simp [hBucket]
      obtain ⟨hbBlock, hbFree, -⟩ := inv.pooled hugeClass hHuge b hbMem
      rw [scanHuge, if_neg (hNonzero b hbMem)]
      by_cases hSize : n ≤ (h.mem b).size
      · rw [if_pos hSize]
        refine ⟨_, rfl, ?_⟩
        rcases eq_nil_or_concat before with rfl | ⟨before, s, rfl⟩
        · obtain rfl : pr = 0 := by simpa using hpr
          exact ⟨.setBucket h _ _, .inr ⟨hbBlock, hSize, hbFree, _, inv.unlink_head hHuge (by simpa using hBucket)⟩⟩
        · obtain rfl : pr = s := by simpa using hpr
          have hsMem : pr ∈ bucket hugeClass := by simp [hBucket]
          simp only [hNonzero pr hsMem, if_false]
          exact ⟨.bfreeSetNext (inv.pooled hugeClass hHuge pr hsMem).2.1,
            .inr ⟨hbBlock, hSize, hbFree, _, inv.unlink_after hHuge (by simpa using hBucket)⟩⟩
      · rw [if_neg hSize]
        simp only [length_cons] at hFuel
        exact ih (before ++ [b]) (by simpa using hBucket) (by simp) seg (by omega)

lemma popClasses_spec (n : Nat) (is : List Nat)
    (his : ∀ i ∈ is, i < numBuckets) : Taken h blocks loose n (popClasses n is h) := by
  induction is generalizing h bucket with
  | nil => exact ⟨.refl h, .inl ⟨rfl, bucket, inv⟩⟩
  | cons i is ih =>
    have hi := his i (by simp)
    have hRest : ∀ j ∈ is, j < numBuckets := fun j hj => his j (by simp [hj])
    rw [popClasses]
    by_cases hEmpty : h.buckets i = 0
    · rw [if_pos hEmpty]
      exact ih inv hRest
    simp only [bucketPop, if_neg hEmpty, setBucket_mem]
    obtain ⟨rest, hBucket⟩ : ∃ rest, bucket i = h.buckets i :: rest := by
      have hSeg := inv.chains i hi
      cases hBucket : bucket i with
      | nil =>
        rw [hBucket] at hSeg
        exact absurd hSeg hEmpty
      | cons y rest =>
        rw [hBucket] at hSeg
        exact ⟨rest, by rw [hSeg.1]⟩
    generalize h.buckets i = x at hBucket
    obtain ⟨hxBlock, hxFree, -⟩ := inv.pooled i hi x (by simp [hBucket])
    have popped := inv.unlink_head hi hBucket
    split_ifs with hSize
    · exact ⟨.setBucket h _ _, .inr ⟨hxBlock, hSize, hxFree, _, popped⟩⟩
    have pushed := popped.bucketPush (b := x) (by simp)
    have hLoose : insert x loose \ {x} = loose := by
      refine Set.insert_sdiff_self_of_notMem fun hx => ?_
      exact (inv.looseFree x hx).2.2 i hi (by simp [hBucket])
    rw [hLoose] at pushed
    have hxFree' : ((setBucket h i (bfreeNext h x)).mem x).free = true := hxFree
    exact .of_rebucketed ((Rebucketed.setBucket h _ _).trans (.bucketPush hxFree' _)) (ih pushed hRest)

/-- The free-list search: it returns, and a block it finds is large enough. -/
lemma allocFromClass_spec (n : Nat) : ∃ found, allocFromClass h n = some found ∧ Taken h blocks loose n found := by
  have scan : ∀ {h : State} {bucket : Nat → List Nat}, Inv h blocks bucket loose →
      ∃ found, scanHuge n h loopFuel 0 (h.buckets hugeClass) = some found ∧ Taken h blocks loose n found := by
    intro h bucket inv
    have hHuge : hugeClass < numBuckets := by decide
    exact scanHuge_spec inv [] rfl rfl (inv.chains hugeClass hHuge)
      (inv.length_lt (inv.bucket_nodup hHuge) fun x hx => inv.bucket_mem hHuge hx)
  unfold allocFromClass
  by_cases hClass : classFor n < numClasses
  · rw [if_pos hClass]
    have popped := popClasses_spec inv n ((range numClasses).drop (classFor n))
      fun i hi => by
        have := mem_range.mp (mem_of_mem_drop hi)
        unfold numClasses at this
        unfold numBuckets
        omega
    generalize popClasses n ((range numClasses).drop (classFor n)) h = found at popped
    obtain ⟨b, h'⟩ := found
    by_cases hb : b = 0
    · subst hb
      simp only [if_true]
      obtain ⟨same, ⟨-, bucket', inv'⟩ | ⟨hBlock, -⟩⟩ := popped
      · obtain ⟨found, hScan, taken⟩ := scan inv'
        exact ⟨found, hScan, taken.of_rebucketed same⟩
      · exact absurd rfl (inv.ne_zero hBlock)
    · simp only [hb, if_false]
      exact ⟨_, rfl, popped⟩
  · rw [if_neg hClass]
    exact scan inv

end YartOS.Heap
