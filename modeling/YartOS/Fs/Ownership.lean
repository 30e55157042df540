import YartOS.Fs.Frame

/-! Who owns a data block: the marked blocks are the values of the slots, and no value occurs
twice. -/
namespace YartOS.Fs

open Bytes List Function

/-- A place of a block number: a direct slot, or a node in a tree of `depth` levels, with its path
up to the root. -/
inductive Slot where
  | direct (i : Nat)
  | node (depth : Nat) (path : List Nat)
deriving DecidableEq

def Slot.Valid : Slot → Prop
  | .direct i => i < directCount
  | .node depth path => 1 ≤ depth ∧ depth ≤ 3 ∧ path.length ≤ depth ∧ ∀ i ∈ path, i < indirectPer

def Slot.IsTable : Slot → Prop
  | .direct _ => False
  | .node depth path => path.length < depth

def Inode.root (ino : Inode) : Nat → Nat
  | 1 => ino.singleIndirect
  | 2 => ino.doubleIndirect
  | 3 => ino.tripleIndirect
  | _ => 0

def ptrAt (disk : Nat → Buffer) (root : Nat) : List Nat → Nat
  | [] => root
  | i :: path =>
    if ptrAt disk root path = 0 then 0 else getU32 (disk (ptrAt disk root path)) (4 * i)

def ptr (disk : Nat → Buffer) (ino : Inode) : Slot → Nat
  | .direct i => ino.direct i
  | .node depth path => ptrAt disk (ino.root depth) path

variable {disk disk' : Nat → Buffer} {inodes inodes' : Nat → Inode} {ino : Inode}
  {v v' : Volume} {a b x root depth i : Nat} {path up : List Nat} {s t : Slot}

def Inode.pointers (ino : Inode) : (Nat → Nat) × Nat × Nat × Nat :=
  (ino.direct, ino.singleIndirect, ino.doubleIndirect, ino.tripleIndirect)

lemma ptr_of_pointers {ino ino' : Inode} (same : ino'.pointers = ino.pointers) (s : Slot) :
    ptr disk ino' s = ptr disk ino s := by
  simp only [Inode.pointers, Prod.mk.injEq] at same
  cases s with
  | direct i => exact congrFun same.1 i
  | node depth path =>
    have root : ino'.root depth = ino.root depth := by
      unfold Inode.root
      rw [same.2.1, same.2.2.1, same.2.2.2]
    change ptrAt disk (ino'.root depth) path = ptrAt disk (ino.root depth) path
    rw [root]

@[simp] lemma ptrAt_nil : ptrAt disk root [] = root := rfl

lemma ptrAt_cons (h : ptrAt disk root path ≠ 0) :
    ptrAt disk root (i :: path) = getU32 (disk (ptrAt disk root path)) (4 * i) := if_neg h

lemma ptrAt_cons_of_zero (h : ptrAt disk root path = 0) : ptrAt disk root (i :: path) = 0 := if_pos h

lemma ptrAt_zero (path : List Nat) : ptrAt disk 0 path = 0 := by
  induction path with
  | nil => rfl
  | cons i path ih => exact ptrAt_cons_of_zero ih

/-- A path reads only the tables above its end. -/
lemma ptrAt_congr (same : ∀ up, up <:+ path → up ≠ path → ptrAt disk root up ≠ 0 →
    disk' (ptrAt disk root up) = disk (ptrAt disk root up)) :
    ptrAt disk' root path = ptrAt disk root path := by
  induction path with
  | nil => rfl
  | cons i path ih =>
    have above : ptrAt disk' root path = ptrAt disk root path := by
      apply ih
      intro up hup hne
      apply same up (hup.trans (suffix_cons i path))
      rintro rfl
      exact absurd hup.length_le (by simp)
    unfold ptrAt
    rw [above]
    by_cases hzero : ptrAt disk root path = 0
    · rw [if_pos hzero, if_pos hzero]
    · rw [if_neg hzero, if_neg hzero, same path (suffix_cons i path) (by simp) hzero]

lemma ptrAt_append (path : List Nat) : ptrAt disk root (path ++ up) = ptrAt disk (ptrAt disk root up) path := by
  induction path with
  | nil => rfl
  | cons i path ih =>
    rw [cons_append, ptrAt, ptrAt, ih]

lemma mem_treeBlocks (hb : b ≠ 0) : b ∈ treeBlocks disk depth root ↔
      ∃ path, path.length ≤ depth ∧ (∀ i ∈ path, i < indirectPer) ∧ ptrAt disk root path = b := by
  induction depth generalizing root with
  | zero =>
    unfold treeBlocks
    constructor
    · intro h
      split_ifs at h with hRoot
      · cases h
      · rw [mem_singleton] at h
        exact ⟨[], le_rfl, by simp, h.symm⟩
    · rintro ⟨path, hLength, -, rfl⟩
      obtain rfl := eq_nil_of_length_eq_zero (Nat.le_zero.mp hLength)
      rw [ptrAt_nil] at *
      rw [if_neg hb]
      exact mem_singleton.mpr rfl
  | succ depth ih =>
    unfold treeBlocks
    by_cases hRoot : root = 0
    · rw [if_pos hRoot, hRoot]
      simp only [not_mem_nil, false_iff, not_exists, not_and, ptrAt_zero]
      intro path _ _ h
      exact hb h.symm
    have hEntry : ∀ i, getU32 (disk root) (4 * i) = ptrAt disk root [i] := by
      intro i
      rw [ptrAt_cons (by rwa [ptrAt_nil]), ptrAt_nil]
    rw [if_neg hRoot, mem_cons, mem_flatMap]
    constructor
    · rintro (h | ⟨i, hi, h⟩)
      · exact ⟨[], Nat.zero_le _, by simp, h.symm⟩
      obtain ⟨path, hLength, hPath, rfl⟩ := ih.mp h
      refine ⟨path ++ [i], by simpa using hLength, ?_, ?_⟩
      · intro j hj
        rcases mem_append.mp hj with hj | hj
        · exact hPath j hj
        · rw [mem_singleton.mp hj]
          exact mem_range.mp hi
      · rw [ptrAt_append, hEntry]
    · rintro ⟨path, hLength, hPath, rfl⟩
      rcases eq_nil_or_concat path with rfl | ⟨init, i, rfl⟩
      · exact .inl rfl
      · rw [concat_eq_append] at *
        refine .inr ⟨i, mem_range.mpr (hPath i (by simp)), ?_⟩
        rw [ih, hEntry]
        refine ⟨init, by simpa using hLength, fun j hj => hPath j (by simp [hj]), ?_⟩
        rw [ptrAt_append]

lemma Slot.Valid.of_suffix (hs : (Slot.node depth path).Valid) (hup : up <:+ path) : (Slot.node depth up).Valid :=
  ⟨hs.1, hs.2.1, hup.length_le.trans hs.2.2.1, fun i hi => hs.2.2.2 i (hup.subset hi)⟩

/-- Writing a block that is not a table of the inode does not move its slots. -/
lemma ptr_update_of_not_table (buf : Buffer) (hs : s.Valid)
    (hx : ∀ t : Slot, t.Valid → t.IsTable → ptr disk ino t = x → x = 0) :
    ptr (update disk x buf) ino s = ptr disk ino s := by
  cases s with
  | direct i => rfl
  | node depth path =>
    apply ptrAt_congr
    intro up hup hne hzero
    have hShort : up.length < path.length := lt_of_le_of_ne hup.length_le fun h => hne (hup.eq_of_length h)
    apply update_of_ne
    intro h
    have := hx (.node depth up) (hs.of_suffix hup) (lt_of_lt_of_le hShort hs.2.2.1) h
    exact hzero (h.trans this)

/-- A table full of zeros has nothing below it. -/
lemma ptrAt_cons_zeros (zero : ∀ j < indirectPer, getU32 (disk root) (4 * j) = 0)
    (hPath : ∀ j ∈ path, j < indirectPer) (hi : i < indirectPer) : ptrAt disk root (i :: path) = 0 := by
  induction path generalizing i with
  | nil =>
    unfold ptrAt
    split_ifs
    · rfl
    · exact zero i hi
  | cons j path ih =>
    apply ptrAt_cons_of_zero
    exact ih (fun k hk => hPath k (by simp [hk])) (hPath j (by simp))

/-- The bitmap marks the values of the slots, none of which occurs twice. Unused inodes are empty. -/
structure Own (v : Volume) (inodes : Nat → Inode) : Prop where
  nonzero : ¬ IsData v 0
  isData : ∀ a s, s.Valid → ptr v.disk (inodes a) s ≠ 0 → IsData v (ptr v.disk (inodes a) s)
  once : ∀ a s b t, s.Valid → t.Valid → ptr v.disk (inodes a) s = ptr v.disk (inodes b) t →
    ptr v.disk (inodes a) s ≠ 0 → a = b ∧ s = t
  bits : ∀ x, IsData v x → (bbit v x = true ↔ ∃ a s, s.Valid ∧ ptr v.disk (inodes a) s = x)

namespace Own

lemma congr (own : Own v inodes) (isData : ∀ x, IsData v' x ↔ IsData v x)
    (slots : ∀ a s, s.Valid → ptr v'.disk (inodes' a) s = ptr v.disk (inodes a) s)
    (bits : ∀ x, IsData v x → bbit v' x = bbit v x) : Own v' inodes' := by
  refine ⟨mt (isData 0).mp own.nonzero, fun a s hs => ?_, fun a s b t hs ht => ?_, fun x hx => ?_⟩
  · rw [slots a s hs, isData]
    exact own.isData a s hs
  · rw [slots a s hs, slots b t ht]
    exact own.once a s b t hs ht
  rw [bits x ((isData x).mp hx), own.bits x ((isData x).mp hx)]
  constructor
  · rintro ⟨a, s, hs, h⟩
    exact ⟨a, s, hs, (slots a s hs).trans h⟩
  · rintro ⟨a, s, hs, h⟩
    exact ⟨a, s, hs, (slots a s hs).symm.trans h⟩

/-- Slots are read from data blocks. -/
lemma ptr_congr {disk : Nat → Buffer} (own : Own v inodes) (same : ∀ x, IsData v x → disk x = v.disk x)
    (c : Nat) {t : Slot} (ht : t.Valid) : ptr disk (inodes c) t = ptr v.disk (inodes c) t := by
  cases t with
  | direct i => rfl
  | node d q =>
    apply ptrAt_congr
    intro up hup _ hne
    exact same _ (own.isData c (.node d up) (ht.of_suffix hup) hne)

variable (own : Own v inodes)

include own

/-- A free block is no slot's value. -/
lemma unreferenced (hb : bbit v b = false) (hs : s.Valid) : ptr v.disk (inodes a) s ≠ b := by
  intro h
  have := (own.bits b (isData_of_bbit hb)).mpr ⟨a, s, hs, h⟩
  rw [hb] at this
  cases this

/-- Two slots with one value are the same slot; so a data block is no table. -/
lemma leaf_not_table (hs : s.Valid) (leaf : ¬ s.IsTable) (hne : ptr v.disk (inodes a) s ≠ 0) (c : Nat) (t : Slot)
    (ht : t.Valid) (table : t.IsTable) : ptr v.disk (inodes c) t ≠ ptr v.disk (inodes a) s := by
  intro h
  have := own.once a s c t hs ht h.symm hne
  rw [this.2] at leaf
  exact leaf table

/-- Writing a block that is no table changes no slot. -/
lemma wrBlk (buf : Buffer) (hx : ∀ c t, t.Valid → t.IsTable → ptr v.disk (inodes c) t = x → x = 0) :
    Own (wrBlk v x buf) inodes :=
  own.congr (fun _ => (DataOnly.wrBlk v x buf).isData)
    (fun c _ ht => ptr_update_of_not_table buf ht fun t => hx c t) fun _ _ => rfl

/-- A block outside the data ranges is no table. -/
lemma not_table (hx : ¬ IsData v x) (c : Nat) (t : Slot) (ht : t.Valid) (h : ptr v.disk (inodes c) t = x) : x = 0 := by
  by_contra hx0
  have := own.isData c t ht (h ▸ hx0)
  rw [h] at this
  exact hx this

/-- Filling entry `i` of a table changes the slot of that entry and no other. -/
lemma ptr_setEntry (hs : (Slot.node depth path).Valid) (hT : ptr v.disk (inodes a) (.node depth path) ≠ 0)
    (empty : ptr v.disk (inodes a) (.node depth (i :: path)) = 0) (hb : b < 2 ^ 32)
    (hbT : b ≠ ptr v.disk (inodes a) (.node depth path))
    (zero : ∀ j < indirectPer, path.length + 1 < depth → getU32 (v.disk b) (4 * j) = 0) (c : Nat)
    (t : Slot) (ht : t.Valid) :
    ptr (setEntry v (ptr v.disk (inodes a) (.node depth path)) i b).disk (inodes c) t =
      if c = a ∧ t = .node depth (i :: path) then b else ptr v.disk (inodes c) t := by
  set T := ptr v.disk (inodes a) (.node depth path) with hTDef
  cases t with
  | direct k =>
    rw [if_neg (by simp)]
    rfl
  | node d q =>
    change ptrAt _ ((inodes c).root d) q = if _ then b else ptrAt v.disk ((inodes c).root d) q
    induction q with
    | nil =>
      rw [if_neg (by simp)]
      rfl
    | cons j q ih =>
      have hq : (Slot.node d q).Valid := ht.of_suffix (suffix_cons j q)
      have hj : j < indirectPer := ht.2.2.2 j (by simp)
      have above := ih hq
      by_cases hBelow : c = a ∧ Slot.node d q = .node depth (i :: path)
      · -- below the new entry everything was and stays empty
        rw [if_pos hBelow] at above
        obtain ⟨rfl, hSlot⟩ := hBelow
        obtain ⟨rfl, rfl⟩ := hSlot
        have hLength := ht.2.2.1
        simp only [length_cons] at hLength
        rw [if_neg (by simp), ptrAt_cons_of_zero empty, ptrAt, above]
        split_ifs
        · rfl
        · rw [setEntry, wrBlk_disk_of_ne _ hbT]
          exact zero j hj (by omega)
      · rw [if_neg hBelow] at above
        by_cases hzero : ptrAt v.disk ((inodes c).root d) q = 0
        · rw [ptrAt_cons_of_zero (above.trans hzero), ptrAt_cons_of_zero hzero, if_neg]
          rintro ⟨rfl, hSlot⟩
          obtain ⟨rfl, rfl, rfl⟩ := hSlot
          exact hT hzero
        rw [ptrAt_cons (above.trans_ne hzero), ptrAt_cons hzero, above]
        by_cases hSame : ptrAt v.disk ((inodes c).root d) q = T
        · have := own.once c (.node d q) a (.node depth path) hq hs hSame hzero
          obtain ⟨rfl, hSlot⟩ := this
          obtain ⟨rfl, rfl⟩ := hSlot
          rw [hSame, setEntry, wrBlk_disk, update_self]
          by_cases hji : j = i
          · rw [hji, getU32_putU32_self, if_pos ⟨rfl, rfl⟩, Nat.mod_eq_of_lt hb]
          · rw [getU32_putU32_of_apart (by omega), if_neg (by simp [hji])]
            rfl
        · rw [setEntry, wrBlk_disk_of_ne _ hSame, if_neg]
          rintro ⟨rfl, hSlot⟩
          obtain ⟨rfl, rfl, rfl⟩ := hSlot
          exact hSame rfl

/-- An empty slot receives a free block. -/
lemma fill (same : DataOnly v v') (hb : bbit v b = false) (hs : s.Valid)
    (empty : ptr v.disk (inodes a) s = 0) (filled : ptr v'.disk (inodes' a) s = b)
    (slots : ∀ c t, t.Valid → ¬ (c = a ∧ t = s) → ptr v'.disk (inodes' c) t = ptr v.disk (inodes c) t)
    (bits : ∀ x, IsData v x → bbit v' x = if x = b then true else bbit v x) : Own v' inodes' := by
  have hData := isData_of_bbit hb
  have hOld : ∀ c t, t.Valid → ptr v'.disk (inodes' c) t = b → c = a ∧ t = s := by
    intro c t ht h
    by_contra hne
    rw [slots c t ht hne] at h
    exact own.unreferenced hb ht h
  refine ⟨mt same.isData.mp own.nonzero, fun c t ht hne => ?_, fun c t d u ht hu heq hne => ?_, fun x hx => ?_⟩
  · rw [same.isData]
    by_cases hSlot : c = a ∧ t = s
    · rw [hSlot.1, hSlot.2, filled]
      exact hData
    · rw [slots c t ht hSlot] at hne ⊢
      exact own.isData c t ht hne
  · by_cases hSlot : c = a ∧ t = s
    · have := hOld d u hu (by rw [← heq, hSlot.1, hSlot.2, filled])
      exact ⟨hSlot.1.trans this.1.symm, hSlot.2.trans this.2.symm⟩
    · by_cases hOther : d = a ∧ u = s
      · exact absurd (hOld c t ht (by rw [heq, hOther.1, hOther.2, filled])) hSlot
      · rw [slots c t ht hSlot] at heq hne
        rw [slots d u hu hOther] at heq
        exact own.once c t d u ht hu heq hne
  · have hx := same.isData.mp hx
    rw [bits x hx]
    by_cases hxb : x = b
    · rw [if_pos hxb]
      exact iff_of_true rfl ⟨a, s, hs, filled.trans hxb.symm⟩
    rw [if_neg hxb, own.bits x hx]
    constructor
    · rintro ⟨c, t, ht, rfl⟩
      refine ⟨c, t, ht, slots c t ht ?_⟩
      rintro ⟨rfl, rfl⟩
      rw [empty] at hx
      exact own.nonzero hx
    · rintro ⟨c, t, ht, h⟩
      have hSlot : ¬ (c = a ∧ t = s) := by
        rintro ⟨rfl, rfl⟩
        exact hxb (h.symm.trans filled)
      exact ⟨c, t, ht, (slots c t ht hSlot).symm.trans h⟩

/-- Some slots are emptied and their blocks freed. -/
lemma drop (same : DataOnly v v') (gone : Nat → Slot → Prop)
    (emptied : ∀ a s, s.Valid → gone a s → ptr v'.disk (inodes' a) s = 0)
    (slots : ∀ a s, s.Valid → ¬ gone a s → ptr v'.disk (inodes' a) s = ptr v.disk (inodes a) s)
    (bits : ∀ x, IsData v x → (bbit v' x = true ↔
      bbit v x = true ∧ ¬ ∃ a s, s.Valid ∧ gone a s ∧ ptr v.disk (inodes a) s = x)) :
    Own v' inodes' := by
  have hKept : ∀ a s, s.Valid → ptr v'.disk (inodes' a) s ≠ 0 →
      ¬ gone a s ∧ ptr v'.disk (inodes' a) s = ptr v.disk (inodes a) s := by
    intro a s hs hne
    have hGone : ¬ gone a s := fun h => hne (emptied a s hs h)
    exact ⟨hGone, slots a s hs hGone⟩
  refine ⟨mt same.isData.mp own.nonzero, fun a s hs hne => ?_, fun a s b t hs ht heq hne => ?_, fun x hx => ?_⟩
  · have := (hKept a s hs hne).2
    rw [same.isData, this]
    exact own.isData a s hs (this ▸ hne)
  · have first := (hKept a s hs hne).2
    have second := (hKept b t ht (heq ▸ hne)).2
    rw [first] at heq hne
    rw [second] at heq
    exact own.once a s b t hs ht heq hne
  have hx := same.isData.mp hx
  rw [bits x hx, own.bits x hx]
  constructor
  · rintro ⟨⟨a, s, hs, h⟩, hNone⟩
    have hGone : ¬ gone a s := fun hg => hNone ⟨a, s, hs, hg, h⟩
    exact ⟨a, s, hs, (slots a s hs hGone).trans h⟩
  rintro ⟨a, s, hs, rfl⟩
  have hne : ptr v'.disk (inodes' a) s ≠ 0 := fun h => own.nonzero (h ▸ hx)
  have kept := hKept a s hs hne
  refine ⟨⟨a, s, hs, kept.2.symm⟩, ?_⟩
  rintro ⟨b, t, ht, hg, h⟩
  have := own.once b t a s ht hs (h.trans kept.2) (h.trans_ne hne)
  rw [this.1, this.2] at hg
  exact kept.1 hg

end Own

end YartOS.Fs
