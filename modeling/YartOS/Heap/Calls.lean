import YartOS.Heap.Buckets

/-! The calls of the heap keep the invariant and leave every other allocated block as it was. -/
namespace YartOS.Heap

open Linked Rows List

variable {h h' h'' : State} {blocks blocks' blocks'' left right : List Nat}
  {bucket : Nat → List Nat} {loose loose' : Set Nat} {b n p x y need want gone : Nat}

def SameBody (h h' : State) (x : Nat) : Prop :=
  (h'.mem x).size = (h.mem x).size ∧ (h'.mem x).free = (h.mem x).free ∧ (h'.mem x).req = (h.mem x).req

lemma SameBody.finish (same : SameBody h h' x) : finish h' x = finish h x := by
  rw [Heap.finish, same.1]
  rfl

namespace Inv

/-- Updates of the block list that leave the buckets and what is in them alone. -/
lemma reshape (inv : Inv h blocks bucket loose)
    (linked : Doubly (nextOf h') (prevOf h') 0 h'.head blocks')
    (tiled : Tiled (finish h') h'.runs blocks') (apart : h'.runs.Pairwise Range.Apart)
    (space : ∀ r ∈ h'.runs, 0 < r.base ∧ r.finish ≤ wordSize) (buckets : h'.buckets = h.buckets)
    (pooled : ∀ i < numBuckets, ∀ x ∈ bucket i, x ∈ blocks' ∧ SameBody h h' x)
    (looseFree : ∀ x ∈ loose', x ∈ blocks' ∧ (h'.mem x).free = true ∧
      ∀ i < numBuckets, x ∉ bucket i) (complete : ∀ x ∈ blocks', (h'.mem x).free = true →
      x ∈ loose' ∨ x ∈ blocks ∧ x ∉ loose ∧ (h.mem x).free = true) : Inv h' blocks' bucket loose' := by
  refine ⟨linked, tiled, apart, space, fun i hi => ?_, fun i hi x hx => ?_, inv.once, looseFree, fun x hx hf => ?_⟩
  · rw [buckets]
    exact (inv.chains i hi).congr fun x hx => (pooled i hi x hx).2.2.2
  · obtain ⟨hmem, hSize, hFree, -⟩ := pooled i hi x hx
    rw [hSize, hFree]
    exact ⟨hmem, (inv.pooled i hi x hx).2⟩
  · rcases complete x hx hf with hx | ⟨hx, hOut, hf⟩
    · exact .inl hx
    · exact .inr ((inv.complete x hx hf).resolve_left hOut)

lemma notMem_of_middle (inv : Inv h (left ++ b :: right) bucket loose) : b ∉ left ∧ b ∉ right := by
  have distinct := inv.nodup
  simp only [nodup_append, nodup_cons] at distinct
  exact ⟨fun hm => distinct.2.2 b hm b (by simp) rfl, distinct.2.1.1⟩

/-- An address strictly inside a block is not the header of another block. -/
lemma inner_notMem (inv : Inv h blocks bucket loose) (hb : b ∈ blocks) (hbn : b < n)
    (hn : n < finish h b) : n ∉ blocks := by
  intro hmem
  have := inv.disjoint hb hmem (by omega)
  have := lt_finish h n
  omega

/-- A loose block is cut: `n` is written behind the kept part of `b`. -/
lemma cut (inv : Inv h (left ++ b :: right) bucket loose) (hb : b ∈ loose)
    (hn : n = b + sizeofBlock + want + canaryBytes) (hnew : n < finish h b)
    (head : h'.head = h.head) (runs : h'.runs = h.runs) (buckets : h'.buckets = h.buckets)
    (memB : h'.mem b = { h.mem b with next := n, size := want })
    (memN : (h'.mem n).next = (h.mem b).next ∧ (h'.mem n).prev = b ∧ (h'.mem n).free = true ∧ finish h' n = finish h b)
    (memOther : ∀ x ∈ left ++ b :: right, x ≠ b →
      h'.mem x = if x = (h.mem b).next then { h.mem x with prev := n } else h.mem x) :
    Inv h' (left ++ b :: n :: right) bucket (insert n loose) := by
  have hbn : b < n := by unfold sizeofBlock at hn; omega
  have hOut := (inv.looseFree b hb).2.2
  have hFresh : n ∉ left ++ b :: right := inv.inner_notMem (by simp) hbn hnew
  have hbl := inv.notMem_of_middle
  have hne : ∀ x ∈ left ++ right, x ∈ left ++ b :: right ∧ x ≠ b := by
    intro x hx
    simp only [mem_append, mem_cons] at hx ⊢
    exact ⟨by tauto, by rintro rfl; tauto⟩
  have hKeep : ∀ x ∈ left ++ b :: right, x ≠ b → (h'.mem x).next = (h.mem x).next ∧ SameBody h h' x := by
    intro x hx h1
    unfold SameBody
    rw [memOther x hx h1]
    split_ifs <;> simp
  refine inv.reshape ?_ ?_ (runs ▸ inv.apart) (runs ▸ inv.space) buckets (fun i hi x hx => ?_) ?_ fun x hx hf => ?_
  · rw [head]
    refine inv.linked.insert (by omega) (by simp [nextOf, memB]) memN.1 memN.2.1
      (fun x hx => (hKeep x (hne x hx).1 (hne x hx).2).1) fun x hx => ?_
    by_cases hxb : x = b
    · have hSelf : b ≠ nextOf h b := fun e => inv.linked.next_notMem (e ▸ by simp)
      rw [hxb, if_neg hSelf]
      simp [prevOf, memB]
    · rw [prevOf, memOther x hx hxb]
      change _ = if x = (h.mem b).next then n else (h.mem x).prev
      split_ifs <;> rfl
  · rw [runs]
    refine inv.tiled.split ?_ memN.2.2.2 (fun x hx => ?_) (fun x hx => ?_)
    · rw [finish, memB]
      exact hn.symm
    all_goals
      have := hne x (by simp [hx])
      exact (hKeep x this.1 this.2).2.finish
  · have hBlock := inv.bucket_mem hi hx
    refine ⟨?_, (hKeep x hBlock fun e => hOut i hi (e ▸ hx)).2⟩
    simp only [mem_append, mem_cons] at hBlock ⊢
    tauto
  · rintro x (rfl | hx)
    · exact ⟨by simp, memN.2.2.1, fun i hi hmem => hFresh (inv.bucket_mem hi hmem)⟩
    obtain ⟨hBlock, hFree, hOut⟩ := inv.looseFree x hx
    refine ⟨by simp only [mem_append, mem_cons] at hBlock ⊢; tauto, ?_, hOut⟩
    by_cases h1 : x = b
    · rw [h1, memB]
      rwa [h1] at hFree
    · rw [(hKeep x hBlock h1).2.2.1]
      exact hFree
  · by_cases hIn : x ∈ insert n loose
    · exact .inl hIn
    simp only [Set.mem_insert_iff, not_or] at hIn
    have hBlock : x ∈ left ++ b :: right := by
      simp only [mem_append, mem_cons] at hx ⊢
      tauto
    have h1 : x ≠ b := fun e => hIn.2 (e ▸ hb)
    rw [(hKeep x hBlock h1).2.2.1] at hf
    exact .inr ⟨hBlock, hIn.2, hf⟩

/-- A new page run becomes one loose block at the end of the list. -/
lemma extend (inv : Inv h blocks bucket loose) {bytes : Nat} (space : 0 < b ∧ b + bytes ≤ wordSize)
    (apart : ∀ r ∈ h.runs, r.Apart ⟨b, bytes⟩) (hb : b ∉ blocks) (runs : h'.runs = h.runs ++ [⟨b, bytes⟩])
    (buckets : h'.buckets = h.buckets) (linked : Doubly (nextOf h') (prevOf h') 0 h'.head (blocks ++ [b]))
    (memB : (h'.mem b).free = true ∧ finish h' b = b + bytes) (memOther : ∀ x ∈ blocks, SameBody h h' x) :
    Inv h' (blocks ++ [b]) bucket (insert b loose) := by
  refine inv.reshape linked ?_ ?_ ?_ buckets (fun i hi x hx => ?_) ?_ fun x hx hf => ?_
  · rw [runs]
    exact (inv.tiled.congr fun x hx => (memOther x hx).finish).snoc ⟨rfl, memB.2⟩
  · rw [runs, pairwise_append]
    exact ⟨inv.apart, pairwise_singleton _ _, by simpa using apart⟩
  · intro r hr
    rw [runs, mem_append, mem_singleton] at hr
    rcases hr with hr | rfl
    · exact inv.space r hr
    · exact space
  · have hBlock := inv.bucket_mem hi hx
    exact ⟨by simp [hBlock], memOther x hBlock⟩
  · rintro x (rfl | hx)
    · exact ⟨by simp, memB.1, fun i hi hmem => hb (inv.bucket_mem hi hmem)⟩
    · obtain ⟨hBlock, hFree, hOut⟩ := inv.looseFree x hx
      exact ⟨by simp [hBlock], by rw [(memOther x hBlock).2.1, hFree], hOut⟩
  · by_cases hIn : x ∈ insert b loose
    · exact .inl hIn
    · simp only [Set.mem_insert_iff, not_or] at hIn
      have hBlock : x ∈ blocks := by simpa [hIn.1] using hx
      exact .inr ⟨hBlock, hIn.2, by rw [← (memOther x hBlock).2.1, hf]⟩

/-- The block `x` takes over the one behind it, of the same page run. -/
lemma join (inv : Inv h (left ++ x :: y :: right) bucket loose)
    (outX : ∀ i < numBuckets, x ∉ bucket i) (outY : ∀ i < numBuckets, y ∉ bucket i)
    {r : Range} (hr : r ∈ h.runs) (hx : r.base ≤ x ∧ x < r.finish) (hy : r.base ≤ y ∧ y < r.finish)
    (head : h'.head = h.head) (runs : h'.runs = h.runs) (buckets : h'.buckets = h.buckets)
    (memX : h'.mem x = { h.mem x with
      next := (h.mem y).next
      size := (h.mem x).size + (sizeofBlock + canaryBytes + (h.mem y).size) })
    (memOther : ∀ z ∈ left ++ x :: y :: right, z ≠ x →
      h'.mem z = if z = (h.mem y).next then { h.mem z with prev := x } else h.mem z) :
    Inv h' (left ++ x :: right) bucket (loose \ {y}) := by
  obtain ⟨touch, merged⟩ := inv.tiled.merge inv.apart (fun z _ => lt_finish h z) hr hx hy
  have hxl := inv.notMem_of_middle
  have shifted : Inv h ((left ++ [x]) ++ y :: right) bucket loose := by simpa using inv
  have hyl := shifted.notMem_of_middle
  have hKeep : ∀ z ∈ left ++ x :: y :: right, z ≠ x → (h'.mem z).next = (h.mem z).next ∧ SameBody h h' z := by
    intro z hz h1
    unfold SameBody
    rw [memOther z hz h1]
    split_ifs <;> simp
  have hne : ∀ z ∈ left ++ right, z ∈ left ++ x :: y :: right ∧ z ≠ x := by
    intro z hz
    simp only [mem_append, mem_cons] at hz hxl ⊢
    exact ⟨by tauto, by rintro rfl; tauto⟩
  have hSub : ∀ z, z ∈ left ++ x :: right ↔ z ∈ left ++ x :: y :: right ∧ z ≠ y := by
    intro z
    simp only [mem_append, mem_cons] at hyl ⊢
    by_cases hzy : z = y
    · subst hzy
      tauto
    · simp [hzy]
  refine inv.reshape ?_ ?_ (runs ▸ inv.apart) (runs ▸ inv.space) buckets (fun i hi z hz => ?_) ?_ fun z hz hf => ?_
  · rw [head]
    refine inv.linked.remove (by rw [nextOf, memX]; rfl) (fun z hz => (hKeep z (hne z hz).1 (hne z hz).2).1)
      fun z hz => ?_
    by_cases hzx : z = x
    · have hSelf : x ≠ nextOf h y := fun e => by
        refine shifted.linked.next_notMem (e ▸ ?_)
        simp
      rw [hzx, if_neg hSelf]
      simp [prevOf, memX]
    · rw [prevOf, memOther z ((hSub z).mp hz).1 hzx]
      change _ = if z = (h.mem y).next then x else (h.mem z).prev
      split_ifs <;> rfl
  · rw [runs]
    have hFinish : ∀ z ∈ left ++ right, finish h' z = finish h z := fun z hz =>
      (hKeep z (hne z hz).1 (hne z hz).2).2.finish
    refine merged _ ?_ (fun z hz => hFinish z (by simp [hz])) fun z hz => hFinish z (by simp [hz])
    unfold finish at touch ⊢
    rw [memX]
    change x + sizeofBlock + ((h.mem x).size + _) + canaryBytes = _
    omega
  · have hBlock := inv.bucket_mem hi hz
    exact ⟨(hSub z).mpr ⟨hBlock, fun e => outY i hi (e ▸ hz)⟩, (hKeep z hBlock fun e => outX i hi (e ▸ hz)).2⟩
  · rintro z ⟨hz, hzy⟩
    obtain ⟨hBlock, hFree, hOut⟩ := inv.looseFree z hz
    refine ⟨(hSub z).mpr ⟨hBlock, hzy⟩, ?_, hOut⟩
    by_cases hzx : z = x
    · rw [hzx, memX]
      rwa [hzx] at hFree
    · rw [(hKeep z hBlock hzx).2.2.1, hFree]
  · obtain ⟨hBlock, hzy⟩ := (hSub z).mp hz
    by_cases hIn : z ∈ loose
    · exact .inl ⟨hIn, hzy⟩
    · refine .inr ⟨hBlock, hIn, ?_⟩
      by_cases hzx : z = x
      · rw [hzx, memX] at hf
        rwa [hzx]
      · rwa [← (hKeep z hBlock hzx).2.2.1]

/-- Rewriting the allocation state of one block that is in no bucket. -/
lemma remark (inv : Inv h blocks bucket loose) (hb : b ∈ blocks)
    (hOut : ∀ i < numBuckets, b ∉ bucket i) (free : Bool) (req : Nat) :
    Inv (h.modify b fun x => { x with free := free, req := req }) blocks bucket
      (if free then insert b loose else loose \ {b}) := by
  set h' := h.modify b fun x => { x with free := free, req := req }
  have hmem : ∀ x, h'.mem x = if x = b then { h.mem x with free := free, req := req }
      else h.mem x := by
    intro x
    by_cases hx : x = b
    · rw [hx, if_pos rfl]
      exact modify_mem_self _ _ _
    · rw [if_neg hx]
      exact modify_mem_of_ne _ _ _ _ hx
  have hLinks : ∀ x, (h'.mem x).next = (h.mem x).next ∧ (h'.mem x).prev = (h.mem x).prev ∧
      (h'.mem x).size = (h.mem x).size := by
    intro x
    rw [hmem]
    split_ifs <;> simp
  refine inv.reshape ?_ ?_ inv.apart inv.space rfl (fun i hi x hx => ?_) ?_ fun x hx hf => ?_
  · exact inv.linked.congr (fun x _ => (hLinks x).1) fun x _ => (hLinks x).2.1
  · exact inv.tiled.congr fun x _ => by rw [finish, (hLinks x).2.2]; rfl
  · have hne : x ≠ b := fun e => hOut i hi (e ▸ hx)
    refine ⟨inv.bucket_mem hi hx, ?_⟩
    unfold SameBody
    simp [hmem, hne]
  · intro x hx
    by_cases hxb : x = b
    · subst hxb
      cases free
      · exact absurd rfl hx.2
      · exact ⟨hb, by simp [hmem], hOut⟩
    · have hx : x ∈ loose := by cases free <;> simpa [hxb] using hx
      rw [hmem, if_neg hxb]
      exact inv.looseFree x hx
  · by_cases hxb : x = b
    · subst hxb
      rw [hmem, if_pos rfl] at hf
      have hf : free = true := hf
      exact .inl (by simp [hf])
    · rw [hmem, if_neg hxb] at hf
      by_cases hIn : x ∈ loose
      · refine .inl ?_
        cases free <;> simp [hIn, hxb]
      · exact .inr ⟨hx, hIn, hf⟩

end Inv

def Held (h : State) (blocks : List Nat) (x size req : Nat) : Prop :=
  x ∈ blocks ∧ (h.mem x).free = false ∧ (h.mem x).size = size ∧ (h.mem x).req = req

/-- The allocated blocks other than `gone` keep sizes and requests. -/
def Keeps (gone : Nat) (h : State) (blocks : List Nat) (h' : State) (blocks' : List Nat) : Prop :=
  ∀ x size req, x ≠ gone → (Held h' blocks' x size req ↔ Held h blocks x size req)

lemma Keeps.trans (first : Keeps gone h blocks h' blocks')
    (second : Keeps gone h' blocks' h'' blocks'') : Keeps gone h blocks h'' blocks'' :=
  fun x size req hne => (second x size req hne).trans (first x size req hne)

lemma Keeps.of_sameBody (same : ∀ x ∈ blocks, (h.mem x).free = false → x ≠ gone → x ∈ blocks' ∧ SameBody h h' x)
    (back : ∀ x ∈ blocks', (h'.mem x).free = false → x ≠ gone → x ∈ blocks ∧ (h.mem x).free = false) :
    Keeps gone h blocks h' blocks' := by
  intro x size req hne
  constructor
  · rintro ⟨hx, hf, hSize, hReq⟩
    obtain ⟨hx, hf⟩ := back x hx hf hne
    obtain ⟨-, hSize', -, hReq'⟩ := same x hx hf hne
    exact ⟨hx, hf, hSize'.symm.trans hSize, hReq'.symm.trans hReq⟩
  · rintro ⟨hx, hf, hSize, hReq⟩
    obtain ⟨hx, hSize', hFree', hReq'⟩ := same x hx hf hne
    exact ⟨hx, hFree'.trans hf, hSize'.trans hSize, hReq'.trans hReq⟩

lemma Rebucketed.keeps (same : Rebucketed h h') : Keeps gone h blocks h' blocks := by
  refine .of_sameBody (fun x hx hf _ => ⟨hx, ?_⟩) fun x hx hf _ => ⟨hx, (same.free x).symm.trans hf⟩
  rw [SameBody, same.held x hf]
  exact ⟨rfl, rfl, rfl⟩

/-- A free block more at the end of the list. -/
lemma Keeps.snoc (same : ∀ x ∈ blocks, SameBody h h' x) (free : (h'.mem b).free = true) :
    Keeps gone h blocks h' (blocks ++ [b]) := by
  refine .of_sameBody (fun x hx _ _ => ⟨mem_append_left _ hx, same x hx⟩) fun x hx hf _ => ?_
  rcases mem_append.mp hx with hx | hx
  · exact ⟨hx, (same x hx).2.1.symm.trans hf⟩
  · simp [mem_singleton.mp hx, free] at hf

/-- `split` either finds the block too small or cuts a free block off its end. -/
lemma split_spec (inv : Inv h blocks bucket loose) (hb : b ∈ loose) (hWrap : want + 96 < wordSize) :
    split h b want = (0, h) ∨ ∃ n h' blocks', split h b want = (n, h') ∧ n ≠ 0 ∧ n ∉ blocks ∧
      Inv h' blocks' bucket (insert n loose) ∧ (∀ x, x ∈ blocks' ↔ x = n ∨ x ∈ blocks) ∧
      h'.mem b = { h.mem b with next := n, size := want } ∧
      ∀ x ∈ blocks, x ≠ b → SameBody h h' x := by
  have hNeed : wadd (wadd (wadd want sizeofBlock) canaryBytes) 32 = want + 96 := by
    unfold sizeofBlock canaryBytes
    simp (disch := omega) only [wadd_eq]
  unfold split
  rw [hNeed]
  by_cases hSmall : (h.mem b).size < want + 96
  · exact .inl (if_pos hSmall)
  rw [if_neg hSmall]
  have hbBlock := (inv.looseFree b hb).1
  have hEnd := inv.finish_le hbBlock
  unfold finish sizeofBlock canaryBytes at hEnd
  have hn : wadd (wadd (wadd b sizeofBlock) want) canaryBytes = b + sizeofBlock + want + canaryBytes := by
    unfold sizeofBlock canaryBytes
    simp (disch := omega) only [wadd_eq]
  have hTail : wsub (wsub (wsub (h.mem b).size want) sizeofBlock) canaryBytes =
      (h.mem b).size - want - sizeofBlock - canaryBytes := by
    unfold sizeofBlock canaryBytes
    simp (disch := omega) only [wsub_eq]
  rw [hn, hTail]
  generalize hnDef : b + sizeofBlock + want + canaryBytes = n
  have hbn : b < n ∧ n < finish h b := by
    unfold finish sizeofBlock canaryBytes at *
    omega
  have hFresh := inv.inner_notMem hbBlock hbn.1 hbn.2
  obtain ⟨left, right, rfl⟩ := append_of_mem hbBlock
  have hbNext : b ≠ (h.mem b).next := fun e => inv.linked.next_notMem (by
    change (h.mem b).next ∈ left ++ [b]
    simp [← e])
  have hnNext : (h.mem b).next ≠ 0 → n ≠ (h.mem b).next := by
    rintro hne rfl
    obtain ⟨rest, rfl⟩ := inv.linked.eq_next_cons hne
    exact hFresh (by simp [nextOf])
  set tail : Block :=
    { magic := heapMagic, req := 0, free := true, next := (h.mem b).next, prev := b,
      size := (h.mem b).size - want - sizeofBlock - canaryBytes } with hTailDef
  have memB : ((h.modify n fun _ => tail).setPrev (h.mem b).next n).mem b = h.mem b := by
    rw [setPrev_mem _ _ _ _ (inv.ne_zero hbBlock), if_neg hbNext, modify_mem_of_ne _ _ _ _ (by omega)]
  have memN : ((h.modify n fun _ => tail).setPrev (h.mem b).next n).mem n = tail := by
    by_cases hne : (h.mem b).next = 0
    · rw [State.setPrev, if_pos hne, modify_mem_self]
    · rw [setPrev_mem _ _ _ _ (by omega), if_neg (hnNext hne), modify_mem_self]
  have memOther : ∀ x ∈ left ++ b :: right, ((h.modify n fun _ => tail).setPrev (h.mem b).next n).mem x =
        if x = (h.mem b).next then { h.mem x with prev := n } else h.mem x := by
    intro x hx
    have hxn : x ≠ n := fun e => hFresh (e ▸ hx)
    rw [setPrev_mem _ _ _ _ (inv.ne_zero hx), modify_mem_of_ne _ _ _ _ hxn]
  refine .inr ⟨n, _, left ++ b :: n :: right, rfl, by omega, hFresh, ?_, ?_, ?_, ?_⟩
  · refine inv.cut hb hnDef.symm hbn.2 (by simp) (by simp) (by simp) ?_ ?_ fun x hx hxb => ?_
    · rw [modify_mem_self, memB]
    · unfold finish
      rw [modify_mem_of_ne _ _ _ _ (by omega), memN]
      refine ⟨rfl, rfl, rfl, ?_⟩
      rw [hTailDef]
      simp only
      unfold sizeofBlock canaryBytes at *
      omega
    · rw [modify_mem_of_ne _ _ _ _ hxb, memOther x hx]
  · intro x
    simp only [mem_append, mem_cons]
    clear * -
    tauto
  · rw [modify_mem_self, memB]
  · intro x hx hxb
    unfold SameBody
    rw [modify_mem_of_ne _ _ _ _ hxb, memOther x hx]
    split_ifs <;> simp

lemma trim_spec (inv : Inv h blocks bucket {b}) (want : Nat) (hWrap : want + 96 < wordSize) :
    ∃ blocks' bucket', Inv (trim h b want) blocks' bucket' {b} ∧ Keeps gone h blocks (trim h b want) blocks' ∧
      (((trim h b want).mem b).size = (h.mem b).size ∨ ((trim h b want).mem b).size = want) := by
  have hb : b ∈ ({b} : Set Nat) := rfl
  obtain ⟨hBlock, hFree, -⟩ := inv.looseFree b hb
  unfold trim
  rcases split_spec inv hb hWrap with e | ⟨n, h', blocks', e, hn, hFresh, inv', sub, memB, same⟩
  · rw [e]
    exact ⟨blocks, bucket, inv, (Rebucketed.refl h).keeps, .inl rfl⟩
  rw [e]
  simp only [if_neg hn]
  have hnb : n ≠ b := fun e => hFresh (e ▸ hBlock)
  have hLoose : n ∈ insert n ({b} : Set Nat) := Set.mem_insert _ _
  have same' := Rebucketed.bucketPush (inv'.looseFree n hLoose).2.1 (classFor (h'.mem n).size)
  have pushed := inv'.bucketPush hLoose
  rw [Set.insert_sdiff_self_of_notMem (by simpa using hnb)] at pushed
  have hKept : ∀ x ∈ blocks, (h.mem x).free = false → SameBody h h' x := by
    intro x hx hf
    refine same x hx ?_
    rintro rfl
    simp [hFree] at hf
  refine ⟨blocks', _, pushed, Keeps.trans (.of_sameBody (fun x hx hf _ =>
    ⟨(sub x).mpr (.inr hx), hKept x hx hf⟩) fun x hx hf _ => ?_) same'.keeps,
    .inr (by rw [same'.size, memB])⟩
  rcases (sub x).mp hx with rfl | hx
  · simp [(inv'.looseFree x hLoose).2.1] at hf
  refine ⟨hx, ?_⟩
  by_cases hxb : x = b
  · rw [hxb, memB] at hf
    rw [hxb]
    exact hf
  · exact (same x hx hxb).2.1.symm.trans hf

lemma lastFrom_spec {t c : Nat} {l : List Nat} {fuel : Nat} (seg : Seg (nextOf h) t (l ++ [c]) 0)
    (nonzero : ∀ x ∈ l ++ [c], x ≠ 0) (hFuel : l.length < fuel) : lastFrom h fuel t = some c := by
  induction fuel generalizing t l with
  | zero => omega
  | succ fuel ih =>
    unfold lastFrom
    cases l with
    | nil =>
      obtain ⟨rfl, hLast⟩ := seg
      exact if_pos hLast
    | cons x l =>
      obtain ⟨rfl, rest⟩ := seg
      have hNext : (h.mem t).next ≠ 0 := by
        change nextOf h t ≠ 0
        cases l with
        | nil => exact rest.1 ▸ nonzero _ (by simp)
        | cons y l => exact rest.1 ▸ nonzero _ (by simp)
      rw [if_neg hNext]
      refine ih rest (fun x hx => nonzero x (mem_cons_of_mem _ hx)) ?_
      simp only [length_cons] at hFuel
      omega

/-- A run handed out for `need` bytes is in the address space and apart from the others. -/
def Placed (h : State) (need p : Nat) : Prop :=
  0 < physToVirt h.hhdm p ∧ physToVirt h.hhdm p + growPages need * pageSize ≤ wordSize ∧
    ∀ r ∈ h.runs, r.Apart ⟨physToVirt h.hhdm p, growPages need * pageSize⟩

instance (h : State) (need p : Nat) : Decidable (Placed h need p) :=
  inferInstanceAs (Decidable (_ ∧ _ ∧ ∀ r ∈ h.runs, _))

lemma growPages_ge (need : Nat) : 8 ≤ growPages need := by
  unfold growPages
  simp only
  split_ifs <;> omega

/-- Without overflow the run holds the header and the requested bytes. -/
lemma le_growPages (hWrap : need + 4143 < wordSize) : need + sizeofBlock ≤ growPages need * pageSize := by
  have hLarge : need + sizeofBlock ≤ pageAlignUp (wadd sizeofBlock need) / pageSize * pageSize := by
    unfold pageAlignUp sizeofBlock pageSize
    simp (disch := omega) only [wadd_eq]
    omega
  refine hLarge.trans (Nat.mul_le_mul_right pageSize ?_)
  unfold growPages
  simp only
  split_ifs <;> omega

lemma Placed.notMem (inv : Inv h blocks bucket loose) (placed : Placed h need p) : physToVirt h.hhdm p ∉ blocks := by
  intro hmem
  obtain ⟨r, hr, hLo, hHi⟩ := inv.inside hmem
  have hApart := placed.2.2 r hr
  have := lt_finish h (physToVirt h.hhdm p)
  have := growPages_ge need
  unfold Range.Apart Range.finish pageSize at *
  simp only at hApart
  omega

lemma grow_spec (inv : Inv h blocks bucket loose) (placed : Placed h need p) :
    ∃ h', grow h need p = some (physToVirt h.hhdm p, h') ∧
      Inv h' (blocks ++ [physToVirt h.hhdm p]) bucket (insert (physToVirt h.hhdm p) loose) ∧
      (h'.mem (physToVirt h.hhdm p)).size = growPages need * pageSize - sizeofBlock - canaryBytes ∧
      (∀ g, Keeps g h blocks h' (blocks ++ [physToVirt h.hhdm p])) ∧
      h'.runs = h.runs ++ [⟨physToVirt h.hhdm p, growPages need * pageSize⟩] ∧
      h'.stats.curBytes = h.stats.curBytes := by
  have hFresh := placed.notMem inv
  obtain ⟨hPos, hEnd, hApart⟩ := placed
  have hPages := growPages_ge need
  unfold grow
  simp only
  generalize physToVirt h.hhdm p = b at *
  generalize growPages need = pages at *
  have hSize : wsub (wsub (pages * pageSize) sizeofBlock) canaryBytes =
      pages * pageSize - sizeofBlock - canaryBytes := by
    unfold pageSize sizeofBlock canaryBytes at *
    simp (disch := omega) only [wsub_eq]
  rw [hSize]
  set first : Block :=
    { magic := heapMagic, size := pages * pageSize - sizeofBlock - canaryBytes, req := 0,
      free := true, next := 0, prev := 0 } with hFirst
  have hFinish : b + sizeofBlock + first.size + canaryBytes = b + pages * pageSize := by
    unfold pageSize sizeofBlock canaryBytes at *
    simp only [hFirst]
    omega
  have hSame : ∀ x ∈ blocks, (h.modify b fun _ => first).mem x = h.mem x := fun x hx =>
    modify_mem_of_ne _ _ _ _ fun e => hFresh (e ▸ hx)
  rcases eq_nil_or_concat blocks with rfl | ⟨l, c, rfl⟩
  · have hHead : h.head = 0 := inv.linked.forward
    rw [modify_head, if_pos hHead]
    have memB : (h.modify b fun _ => first).mem b = first := modify_mem_self _ _ _
    refine ⟨_, rfl, inv.extend ⟨hPos, hEnd⟩ hApart hFresh rfl rfl ⟨⟨rfl, ?_⟩, ⟨?_, trivial⟩, ?_⟩
      ⟨congrArg Block.free memB, ?_⟩ (by simp), congrArg Block.size memB,
      fun _ => .snoc (by simp) (congrArg Block.free memB), rfl, rfl⟩
    · exact congrArg Block.next memB
    · exact congrArg Block.prev memB
    · simpa using hPos.ne'
    · rwa [finish, memB]
  · rw [concat_eq_append] at *
    have hc : c ∈ l ++ [c] := by simp
    have hbc : c ≠ b := fun e => hFresh (e ▸ hc)
    have hHead : h.head ≠ 0 := by
      cases l with
      | nil => exact inv.linked.forward.1 ▸ inv.ne_zero hc
      | cons y l => exact inv.linked.forward.1 ▸ inv.ne_zero (by simp)
    have hLast : lastFrom (h.modify b fun _ => first) loopFuel h.head = some c := by
      refine lastFrom_spec (l := l) (inv.linked.forward.congr fun x hx => ?_) inv.linked.nonnull ?_
      · rw [nextOf, hSame x hx]
        rfl
      · have := inv.length_lt inv.nodup fun x hx => hx
        rw [length_append] at this
        omega
    rw [modify_head, if_neg hHead, hLast]
    set h' := ((h.modify b fun _ => first).modify c fun x => { x with next := b }).modify b
      fun x => { x with prev := c } with hDef
    have memB : h'.mem b = { first with prev := c } := by
      rw [hDef, modify_mem_self, modify_mem_of_ne _ _ _ _ hbc.symm, modify_mem_self]
    have memC : h'.mem c = { h.mem c with next := b } := by
      rw [hDef, modify_mem_of_ne _ _ _ _ hbc, modify_mem_self, hSame c hc]
    have memOther : ∀ x ∈ l, h'.mem x = h.mem x := by
      intro x hx
      have hxc : x ≠ c := fun e => inv.notMem_of_middle.1 (e ▸ hx)
      have hxb : x ≠ b := fun e => hFresh (e ▸ by simp [hx])
      rw [hDef, modify_mem_of_ne _ _ _ _ hxb, modify_mem_of_ne _ _ _ _ hxc, hSame x (by simp [hx])]
    have hBody : ∀ x ∈ l ++ [c], SameBody h h' x := by
      intro x hx
      unfold SameBody
      rcases mem_append.mp hx with hx | hx
      · simp [memOther x hx]
      · simp [mem_singleton.mp hx, memC]
    refine ⟨_, rfl, inv.extend ⟨hPos, hEnd⟩ hApart hFresh rfl rfl ?_ ⟨congrArg Block.free memB, ?_⟩
      hBody, congrArg Block.size memB, fun _ => .snoc hBody (congrArg Block.free memB), rfl, rfl⟩
    · rw [append_assoc]
      refine inv.linked.snoc hPos.ne' ?_ ?_ ?_ (fun x hx => ?_) fun x hx => ?_
      · exact congrArg Block.next memC
      · exact congrArg Block.next memB
      · exact congrArg Block.prev memB
      · exact congrArg Block.next (memOther x hx)
      · rcases mem_append.mp hx with hx | hx
        · exact congrArg Block.prev (memOther x hx)
        · rw [mem_singleton.mp hx]
          change (h'.mem c).prev = (h.mem c).prev
          rw [memC]
    · rwa [finish, memB]

end YartOS.Heap
