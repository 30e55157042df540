import YartOS.Fs.Persist

/-! Freeing an inode: all its blocks are given back and its slot in the inode table
is cleared. -/
namespace YartOS.Fs

open Bytes List

variable {v v' : Volume} {a c x : Nat} {inodes : Nat → Inode}

lemma ptr_empty (disk : Nat → Buffer) (s : Slot) : ptr disk {} s = 0 := by
  cases s with
  | direct i => rfl
  | node depth path =>
    have root : ({} : Inode).root depth = 0 := by
      unfold Inode.root
      split <;> rfl
    change ptrAt disk (({} : Inode).root depth) path = 0
    rw [root, ptrAt_zero]

/-- With an empty bitmap and empty inodes nothing is owned. -/
lemma Own.empty (wf : WellFormed v) (free : ∀ x, IsData v x → bbit v x = false)
    (none : ∀ a, inodes a = {}) : Own v inodes := by
  refine ⟨wf.not_isData_zero, fun a s _ h => ?_, fun a s b t _ _ _ h => ?_, fun x hx => ?_⟩
  · rw [none, ptr_empty] at h
    exact absurd rfl h
  · rw [none, ptr_empty] at h
    exact absurd rfl h
  · simp only [free x hx, none, ptr_empty, Bool.false_eq_true, false_iff, not_exists, not_and]
    rintro a s _ rfl
    exact wf.not_isData_zero hx

/-- Inode `a` was freed with its blocks; only its slot was written. -/
structure Erased (a : Nat) (v : Volume) (inodes : Nat → Inode) (v' : Volume) : Prop where
  rest : v' = { v with
    disk := v'.disk, bbitmap := v'.bbitmap, ibitmap := (iset v a false).ibitmap, writes := v'.writes }
  own : Own v' (Function.update inodes a {})
  table : ∀ c, ValidIno v c → c ≠ a → rdInode v' c = rdInode v c
  disk : ∀ x, x ≠ inodeBlock v a → v'.disk x = v.disk x

lemma Erased.wellFormed (erased : Erased a v inodes v') (wf : WellFormed v) : WellFormed v' := by
  rw [erased.rest]
  exact ⟨wf.layout, wf.small, wf.groups, wf.bits⟩

def inodeBlocks (disk : Nat → Buffer) (ino : Inode) : List Nat :=
  (range directCount).flatMap (fun i => treeBlocks disk 0 (ino.direct i)) ++
    treeBlocks disk 1 ino.singleIndirect ++ treeBlocks disk 2 ino.doubleIndirect ++
    treeBlocks disk 3 ino.tripleIndirect

lemma mem_inodeBlocks {disk : Nat → Buffer} {ino : Inode} (hx : x ≠ 0) :
    x ∈ inodeBlocks disk ino ↔ ∃ s, s.Valid ∧ ptr disk ino s = x := by
  have tree : ∀ d, 1 ≤ d → d ≤ 3 → (x ∈ treeBlocks disk d (ino.root d) ↔
      ∃ path, (Slot.node d path).Valid ∧ ptr disk ino (.node d path) = x) := by
    intro d hlo hhi
    rw [mem_treeBlocks hx]
    constructor
    · rintro ⟨path, hLength, hPath, h⟩
      exact ⟨path, ⟨hlo, hhi, hLength, hPath⟩, h⟩
    · rintro ⟨path, hValid, h⟩
      exact ⟨path, hValid.2.2.1, hValid.2.2.2, h⟩
  have direct : x ∈ (range directCount).flatMap (fun i => treeBlocks disk 0 (ino.direct i)) ↔
      ∃ i, (Slot.direct i).Valid ∧ ptr disk ino (.direct i) = x := by
    simp only [mem_flatMap, mem_range, mem_treeBlocks hx]
    constructor
    · rintro ⟨i, hi, path, hLength, -, h⟩
      obtain rfl := eq_nil_of_length_eq_zero (Nat.le_zero.mp hLength)
      exact ⟨i, hi, h⟩
    · rintro ⟨i, hi, h⟩
      exact ⟨i, hi, [], le_rfl, by simp, h⟩
  unfold inodeBlocks
  rw [mem_append, mem_append, mem_append, direct]
  constructor
  · rintro (((⟨i, hs, h⟩ | h) | h) | h)
    · exact ⟨_, hs, h⟩
    · obtain ⟨path, hs, h⟩ := (tree 1 le_rfl (by decide)).mp h
      exact ⟨_, hs, h⟩
    · obtain ⟨path, hs, h⟩ := (tree 2 (by decide) (by decide)).mp h
      exact ⟨_, hs, h⟩
    · obtain ⟨path, hs, h⟩ := (tree 3 (by decide) le_rfl).mp h
      exact ⟨_, hs, h⟩
  · rintro ⟨s, hs, h⟩
    cases s with
    | direct i => exact .inl (.inl (.inl ⟨i, hs, h⟩))
    | node d path =>
      have found := (tree d hs.1 hs.2.1).mpr ⟨path, hs, h⟩
      obtain rfl | rfl | rfl : d = 1 ∨ d = 2 ∨ d = 3 := by
        have := hs.1
        have := hs.2.1
        omega
      · exact .inl (.inl (.inr found))
      · exact .inl (.inr found)
      · exact .inr found

lemma freeBlocks_spec (v : Volume) (ino : Inode) : Freed v (freeBlocks v ino) (inodeBlocks v.disk ino) := by
  have direct := Freed.foldl v.disk (fun w i hw => hw ▸ freeIndirectTree_spec 0 w (ino.direct i))
    (range directCount) v rfl
  have next : ∀ {w : Volume} {blocks} d b, Freed v w blocks →
      Freed v (freeIndirectTree d w b) (blocks ++ treeBlocks v.disk d b) := by
    intro w blocks d b before
    have := freeIndirectTree_spec d w b
    rw [before.1] at this
    exact before.trans this
  exact next 3 _ (next 2 _ (next 1 _ direct))

lemma inodeFree_disk (v : Volume) (a : Nat) : (inodeFree v a).disk = (wrInode v a {}).disk := by
  have freed := freeBlocks_spec v (rdInode v a)
  unfold inodeFree
  generalize freeBlocks v (rdInode v a) = w at freed ⊢
  have hBlock : inodeBlock (iset w a false) a = inodeBlock v a := freed.2.2.1.inodeBlock a
  have hDisk : (iset w a false).disk = v.disk := freed.1
  simp [wrInode, wrBlk, rdBlk, hBlock, hDisk]

lemma inodeFree_spec (wf : WellFormed v) (ha : ValidIno v a) (own : Own v inodes)
    (hNow : inodes a = rdInode v a) : Erased a v inodes (inodeFree v a) := by
  unfold inodeFree
  rw [← hNow]
  have freed := freeBlocks_spec v (inodes a)
  generalize freeBlocks v (inodes a) = w at freed ⊢
  have dropped : Dropped (fun _ => True) v (inodes a) w {} := by
    apply Dropped.of_freed freed
    · intro x hx
      rw [mem_inodeBlocks fun h => own.nonzero (h ▸ hx)]
      simp [true_and]
    · intro s _ _
      exact ptr_empty v.disk s
    · intro s _ h
      exact absurd trivial h
  have released := dropped.released own
  have wfW := wf.of_dataOnly freed.2.2.1
  have valid : ∀ {c}, ValidIno v c → ValidIno (iset w a false) c := by
    intro c hc
    unfold ValidIno
    rw [show (iset w a false).sb = w.sb from rfl, freed.2.2.1.sb]
    exact hc
  have wfI : WellFormed (iset w a false) := ⟨wfW.layout, wfW.small, wfW.groups, wfW.bits⟩
  have ownI : Own (iset w a false) (Function.update inodes a {}) :=
    ⟨released.own.nonzero, released.own.isData, released.own.once, released.own.bits⟩
  have hBlock : inodeBlock (iset w a false) a = inodeBlock v a := freed.2.2.1.inodeBlock a
  refine ⟨?_, ?_, fun c hc hne => ?_, fun x hx => ?_⟩
  · have hFailed := freed.2.1
    have hRest := freed.2.2.1.rest
    have hI := freed.2.2.1.ibitmap
    unfold wrInode wrBlk iset
    simp only [Volume.mk.injEq, hI, true_and]
    rw [hRest]
    exact ⟨rfl, rfl, rfl, rfl, rfl, hFailed⟩
  · apply ownI.wrBlk
    intro c t ht _ h
    exact ownI.not_table (wfI.inodeBlock_not_isData (valid ha)) c t ht h
  · rw [rdInode_wrInode_of_ne wfI (valid ha) (valid hc) hne]
    change rdInode w c = rdInode v c
    exact rdInode_congr freed.2.2.1 (congrFun freed.1 _)
  · rw [wrInode, wrBlk_disk_of_ne _ (hBlock ▸ hx)]
    exact congrFun freed.1 x

lemma Logged.inodeFree (v : Volume) (a : Nat) : Logged v (inodeFree v a) := by
  have freed := (freeBlocks_spec v (rdInode v a)).2.2.1.logged
  have cleared : Logged (freeBlocks v (rdInode v a)) (iset (freeBlocks v (rdInode v a)) a false) :=
    .of_eq rfl rfl rfl rfl
  exact (freed.trans cleared).trans (.wrBlk _ _ _)

end YartOS.Fs
