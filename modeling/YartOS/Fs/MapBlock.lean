import YartOS.Fs.Ownership

/-! Mapping a block allocates at most one data block and the tables above it, each with one slot. -/
namespace YartOS.Fs

open Bytes Function List

variable {v v' v'' : Volume} {inodes inodes' inodes'' : Nat → Inode} {ino : Inode}
  {a b x depth i preferGroup : Nat} {path : List Nat} {s t : Slot}

/-- Empty slots of inode `a` were filled, among data slots at most `s`; only free blocks and tables
were written. -/
structure Mapped (a : Nat) (s : Slot) (v : Volume) (inodes : Nat → Inode) (v' : Volume)
    (inodes' : Nat → Inode) : Prop where
  same : DataOnly v v'
  own : Own v' inodes'
  keeps : ∀ c t, t.Valid → ptr v.disk (inodes c) t ≠ 0 → ptr v'.disk (inodes' c) t = ptr v.disk (inodes c) t
  leaves : ∀ c t, t.Valid → ¬ t.IsTable → ¬ (c = a ∧ t = s) → ptr v'.disk (inodes' c) t = ptr v.disk (inodes c) t
  others : ∀ c t, t.Valid → c ≠ a → ptr v'.disk (inodes' c) t = ptr v.disk (inodes c) t
  disk : ∀ x, (IsData v x → bbit v x = true) →
    (∀ c t, t.Valid → t.IsTable → ptr v.disk (inodes c) t = x → x = 0) → v'.disk x = v.disk x

namespace Mapped

lemma refl (own : Own v inodes) : Mapped a s v inodes v inodes :=
  ⟨.refl v, own, fun _ _ _ _ => rfl, fun _ _ _ _ _ => rfl, fun _ _ _ _ => rfl, fun _ _ _ => rfl⟩

/-- Blocks in use stay in use. -/
lemma bbit_of_bbit (own : Own v inodes) (mapped : Mapped a s v inodes v' inodes')
    (hx : IsData v x) (hUsed : bbit v x = true) : bbit v' x = true := by
  obtain ⟨c, t, ht, rfl⟩ := (own.bits x hx).mp hUsed
  have hne : ptr v.disk (inodes c) t ≠ 0 := fun h => own.nonzero (h ▸ hx)
  exact (mapped.own.bits _ (mapped.same.isData.mpr hx)).mpr ⟨c, t, ht, mapped.keeps c t ht hne⟩

lemma trans (own : Own v inodes) (first : Mapped a s v inodes v' inodes')
    (second : Mapped a s v' inodes' v'' inodes'') : Mapped a s v inodes v'' inodes'' := by
  refine ⟨first.same.trans second.same, second.own, fun c t ht hne => ?_,
    fun c t ht leaf hst => ?_, fun c t ht hc => ?_, fun x hUsed hTable => ?_⟩
  · have h := first.keeps c t ht hne
    rw [second.keeps c t ht (h ▸ hne), h]
  · rw [second.leaves c t ht leaf hst, first.leaves c t ht leaf hst]
  · rw [second.others c t ht hc, first.others c t ht hc]
  rw [← first.disk x hUsed hTable]
  refine second.disk x (fun hx => ?_) fun c t ht table h => ?_
  · have hx := first.same.isData.mp hx
    exact first.bbit_of_bbit own hx (hUsed hx)
  by_cases hzero : ptr v.disk (inodes c) t = 0
  · -- a table that is new after the first part was a free block before it
    by_contra hx0
    have hx : IsData v x := by
      have := first.own.isData c t ht (h ▸ hx0)
      rw [h] at this
      exact first.same.isData.mp this
    obtain ⟨d, u, hu, hd⟩ := (own.bits x hx).mp (hUsed hx)
    have hne : ptr v.disk (inodes d) u ≠ 0 := hd ▸ hx0
    have kept := first.keeps d u hu hne
    have := first.own.once c t d u ht hu (h.trans (kept.trans hd).symm) (h ▸ hx0)
    rw [← this.1, ← this.2] at hne
    exact hne hzero
  · rw [first.keeps c t ht hzero] at h
    exact hTable c t ht table h

end Mapped

lemma allocBlock_lt (v : Volume) (preferGroup : Nat) : (allocBlock v preferGroup).1 < 2 ^ 32 := by
  unfold allocBlock
  cases h : (searchOrder v preferGroup).findSome? (freeBlockIn v) with
  | none => exact Nat.two_pow_pos 32
  | some blk =>
    obtain ⟨g, -, hg⟩ := exists_of_findSome?_eq_some h
    obtain ⟨k, -, rfl⟩ := Option.map_eq_some_iff.mp hg
    exact Nat.mod_lt _ (Nat.two_pow_pos 32)

structure Fresh (v : Volume) (b : Nat) : Prop where
  clear : bbit v b = false
  nonzero : b ≠ 0
  small : b < 2 ^ 32

lemma allocBlock_spec (own : Own v inodes) (preferGroup : Nat) :
    (∃ b, Fresh v b ∧ allocBlock v preferGroup = (b, bset v b true)) ∨
      allocBlock v preferGroup = (0, { v with failed := true }) := by
  have hlt := allocBlock_lt v preferGroup
  rcases allocBlock_cases v preferGroup with ⟨b, hb, h⟩ | h
  · rw [h] at hlt
    refine .inl ⟨b, ⟨hb, ?_, hlt⟩, h⟩
    rintro rfl
    exact own.nonzero (isData_of_bbit hb)
  · exact .inr h

/-- A block that is there is taken; otherwise a fresh one is prepared. -/
def demand (v : Volume) (p g : Nat) (make : Nat → Volume → Volume) : Nat × Volume :=
  if p ≠ 0 then (p, v) else if (allocBlock v g).1 = 0 then (0, (allocBlock v g).2)
  else ((allocBlock v g).1, make (allocBlock v g).1 (allocBlock v g).2)

lemma demanded (p g : Nat) (make : Nat → Volume → Volume) (own : Own v inodes) (ok : v'.failed = false)
    (h : demand v p g make = (b, v')) : (p ≠ 0 ∧ p = b ∧ v = v') ∨ p = 0 ∧ Fresh v b ∧ make b (bset v b true) = v' := by
  unfold demand at h
  split at h
  case isTrue hp => exact .inl ⟨hp, Prod.mk.inj h⟩
  rcases allocBlock_spec own g with ⟨c, fresh, hAlloc⟩ | hAlloc
  · rw [hAlloc, if_neg fresh.nonzero] at h
    obtain ⟨rfl, rfl⟩ := Prod.mk.inj h
    exact .inr ⟨not_not.mp ‹_›, fresh, rfl⟩
  · rw [hAlloc, if_pos rfl] at h
    cases h
    cases ok

lemma Fresh.bits (fresh : Fresh v b) (x : Nat) : bbit (bset v b true) x = if x = b then true else bbit v x :=
  bbit_bset (isData_of_bbit fresh.clear) true x

/-- A free block is neither a block in use nor outside the data ranges. -/
lemma Fresh.ne (fresh : Fresh v b) (hUsed : IsData v x → bbit v x = true) : x ≠ b := by
  rintro rfl
  have := hUsed (isData_of_bbit fresh.clear)
  rw [fresh.clear] at this
  cases this

/-- One slot was filled with a fresh block. -/
lemma Mapped.of_fill (own : Own v inodes) (same : DataOnly v v') (fresh : Fresh v b) (hs : s.Valid)
    (empty : ptr v.disk (inodes a) s = 0) (slots : ∀ c t, t.Valid → ptr v'.disk (inodes' c) t =
      if c = a ∧ t = s then b else ptr v.disk (inodes c) t)
    (bits : ∀ x, bbit v' x = if x = b then true else bbit v x)
    (disk : ∀ x, x ≠ b → (∀ c t, t.Valid → t.IsTable → ptr v.disk (inodes c) t = x → x = 0) →
      v'.disk x = v.disk x) {s' : Slot} (hLeaf : s = s' ∨ s.IsTable) :
    Mapped a s' v inodes v' inodes' ∧ ptr v'.disk (inodes' a) s = b := by
  have filled : ptr v'.disk (inodes' a) s = b := by rw [slots a s hs, if_pos ⟨rfl, rfl⟩]
  have rest : ∀ c t, t.Valid → ¬ (c = a ∧ t = s) → ptr v'.disk (inodes' c) t = ptr v.disk (inodes c) t := by
    intro c t ht hne
    rw [slots c t ht, if_neg hne]
  refine ⟨⟨same, own.fill same fresh.clear hs empty filled rest fun x _ => bits x,
    fun c t ht hne => rest c t ht ?_, fun c t ht leaf hne => rest c t ht ?_,
    fun c t ht hc => rest c t ht fun h => hc h.1, fun x hUsed => disk x (fresh.ne hUsed)⟩, filled⟩
  · rintro ⟨rfl, rfl⟩
    exact hne empty
  · rintro ⟨rfl, rfl⟩
    rcases hLeaf with rfl | table
    · exact hne ⟨rfl, rfl⟩
    · exact leaf table

variable {T : Nat}

lemma entry_eq (hT : ptr v.disk (inodes a) (.node depth path) = T) (hT0 : T ≠ 0) (i : Nat) :
    entry v T i = ptr v.disk (inodes a) (.node depth (i :: path)) := by
  subst hT
  exact (ptrAt_cons hT0).symm

lemma Slot.Valid.entry (hs : (Slot.node depth path).Valid) (table : path.length < depth)
    (hi : i < indirectPer) : (Slot.node depth (i :: path)).Valid := by
  refine ⟨hs.1, hs.2.1, table, fun j hj => ?_⟩
  rcases mem_cons.mp hj with rfl | hj
  · exact hi
  · exact hs.2.2.2 j hj

/-- Entry `i` of the table `T` was filled with the fresh block `c`. -/
lemma Mapped.of_entry {c : Nat} (new : Buffer) (own : Own v inodes) (hs : (Slot.node depth path).Valid)
    (table : path.length < depth) (hi : i < indirectPer) (hT : ptr v.disk (inodes a) (.node depth path) = T)
    (hT0 : T ≠ 0) (fresh : Fresh v c) (hzero : ptr v.disk (inodes a) (.node depth (i :: path)) = 0)
    (same : DataOnly v v') (bits : ∀ x, bbit v' x = bbit (bset v c true) x)
    (disk : v'.disk = update (update v.disk c new) T (putU32 (v.disk T) (4 * i) c))
    (empty : path.length + 1 < depth → new = zeros)
    (hLeaf : Slot.node depth (i :: path) = s ∨ path.length + 1 < depth) :
    Mapped a s v inodes v' inodes ∧ ptr v'.disk (inodes a) (.node depth (i :: path)) = c := by
  have hValid := hs.entry table hi
  have hcT : c ≠ T := fun e => own.unreferenced fresh.clear hs (hT.trans e.symm)
  -- the slots are those of the volume with the new table written, but not yet marked
  have hUnref : ∀ d t, t.Valid → t.IsTable → ptr v.disk (inodes d) t = c → c = 0 :=
    fun d t ht _ h => absurd h (own.unreferenced fresh.clear ht)
  have hSlots : ∀ d t, t.Valid → ptr (wrBlk v c new).disk (inodes d) t = ptr v.disk (inodes d) t :=
    fun d t ht => ptr_update_of_not_table new ht (hUnref d)
  have hTSlot := (hSlots a _ hs).trans hT
  refine of_fill own same fresh hValid hzero (fun d t ht => ?_)
    (fun x => (bits x).trans (fresh.bits x)) (fun x hxc hx => ?_) hLeaf
  · have hZeros : ∀ j < indirectPer, path.length + 1 < depth → getU32 ((wrBlk v c new).disk c) (4 * j) = 0 := by
      intro j _ inner
      rw [wrBlk_disk, update_self, empty inner, getU32_zeros]
    have := (own.wrBlk new hUnref).ptr_setEntry hs (hTSlot.trans_ne hT0)
      ((hSlots a _ hValid).trans hzero) fresh.small (hTSlot.symm ▸ hcT) hZeros d t ht
    rw [← hSlots d t ht, ← this, hTSlot, disk]
    unfold setEntry rdBlk
    rw [wrBlk_disk, wrBlk_disk, update_of_ne hcT.symm]
  · have hxT : x ≠ T := fun e => hT0 (e.symm.trans (hx a _ hs table (hT.trans e.symm)))
    rw [disk, update_of_ne hxT, update_of_ne hxc]

/-- The data block of an entry exists afterwards. -/
lemma leafOf_spec (own : Own v inodes) (hs : (Slot.node depth path).Valid) (leaf : path.length + 1 = depth)
    (hi : i < indirectPer) (hT : ptr v.disk (inodes a) (.node depth path) = T) (hT0 : T ≠ 0)
    (h : leafOf v T i true preferGroup = (b, v')) (ok : v'.failed = false) :
    b ≠ 0 ∧ Mapped a (.node depth (i :: path)) v inodes v' inodes ∧
      ptr v'.disk (inodes a) (.node depth (i :: path)) = b := by
  rcases demanded (entry v T i) preferGroup (fun c w => setEntry w T i c) own ok h with
    ⟨hne, hEq, rfl⟩ | ⟨hzero, fresh, rfl⟩ <;> rw [entry_eq hT hT0] at *
  · exact ⟨hEq ▸ hne, .refl own, hEq⟩
  · refine ⟨fresh.nonzero, Mapped.of_entry (v.disk b) own hs (by omega) hi hT hT0 fresh hzero
      ((DataOnly.bset v b true).trans (.wrBlk _ _ _)) (fun _ => rfl) ?_ (fun h => by omega) (.inl rfl)⟩
    rw [update_eq_self, setEntry, rdBlk, wrBlk_disk, bset_disk]

lemma tableOf_eq (v : Volume) (T i g : Nat) : tableOf v T i true g =
    demand v (entry v T i) g fun c w => wrBlk (wrBlk w c zeros) T (putU32 (rdBlk v T) (4 * i) c) := by
  unfold tableOf allocTable demand
  simp only [Bool.not_true, Bool.false_eq_true, if_false]
  split_ifs <;> first | rfl | contradiction

/-- The table of an entry exists afterwards. -/
lemma tableOf_spec (own : Own v inodes) (hs : (Slot.node depth path).Valid) (inner : path.length + 1 < depth)
    (hi : i < indirectPer) (hT : ptr v.disk (inodes a) (.node depth path) = T) (hT0 : T ≠ 0)
    (h : tableOf v T i true preferGroup = (b, v')) (ok : v'.failed = false) :
    b ≠ 0 ∧ Mapped a s v inodes v' inodes ∧ ptr v'.disk (inodes a) (.node depth (i :: path)) = b := by
  rw [tableOf_eq] at h
  rcases demanded _ _ _ own ok h with ⟨hne, hEq, rfl⟩ | ⟨hzero, fresh, rfl⟩ <;> rw [entry_eq hT hT0] at *
  · exact ⟨hEq ▸ hne, .refl own, hEq⟩
  · refine ⟨fresh.nonzero, Mapped.of_entry zeros own hs (by omega) hi hT hT0 fresh hzero
      (((DataOnly.bset v b true).trans (.wrBlk _ _ _)).trans (.wrBlk _ _ _)) (fun _ => rfl) ?_
      (fun _ => rfl) (.inr inner)⟩
    rw [wrBlk_disk, wrBlk_disk, bset_disk, rdBlk]

section GetBlock

def Inode.setRoot (ino : Inode) (depth tbl : Nat) : Inode :=
  match depth with
  | 1 => { ino with singleIndirect := tbl }
  | 2 => { ino with doubleIndirect := tbl }
  | 3 => { ino with tripleIndirect := tbl }
  | _ => ino

lemma Inode.root_setRoot (ino : Inode) (hd : 1 ≤ depth ∧ depth ≤ 3) (tbl d : Nat) :
    (ino.setRoot depth tbl).root d = if d = depth then tbl else ino.root d := by
  obtain rfl | rfl | rfl : depth = 1 ∨ depth = 2 ∨ depth = 3 := by omega
  all_goals rcases d with _ | _ | _ | _ | d <;> simp [Inode.root, Inode.setRoot]

lemma Inode.setRoot_root (ino : Inode) (depth : Nat) : ino.setRoot depth (ino.root depth) = ino := by
  rcases depth with _ | _ | _ | _ | depth <;> rfl

lemma Inode.direct_setRoot (ino : Inode) (depth tbl : Nat) : (ino.setRoot depth tbl).direct = ino.direct := by
  unfold Inode.setRoot
  split <;> rfl

lemma rootOf_spec (own : Own v (update inodes a ino)) (hd : 1 ≤ depth ∧ depth ≤ 3)
    (h : rootOf v (ino.root depth) true preferGroup = (b, v')) (ok : v'.failed = false) :
    b ≠ 0 ∧ Mapped a s v (update inodes a ino) v' (update inodes a (ino.setRoot depth b)) ∧
      ptr v'.disk (ino.setRoot depth b) (.node depth []) = b := by
  have hValid : (Slot.node depth []).Valid := ⟨by omega, by omega, Nat.zero_le _, by simp⟩
  rcases demanded (ino.root depth) preferGroup (fun c w => wrBlk w c zeros) own ok h with ⟨hne, rfl, rfl⟩ | ⟨hzero, fresh, rfl⟩
  · rw [Inode.setRoot_root]
    exact ⟨hne, .refl own, rfl⟩
  have hUnref : ∀ d t, t.Valid → t.IsTable → ptr v.disk (update inodes a ino d) t = b → b = 0 :=
    fun d t ht _ h => absurd h (own.unreferenced fresh.clear ht)
  have hSlots : ∀ d t, t.Valid → ptr (update v.disk b zeros)
      (update inodes a ino d) t = ptr v.disk (update inodes a ino d) t :=
    fun d t ht => ptr_update_of_not_table zeros ht (hUnref d)
  have slots : ∀ d t, t.Valid → ptr (wrBlk (bset v b true) b zeros).disk
      (update inodes a (ino.setRoot depth b) d) t = if d = a ∧ t = .node depth [] then b
        else ptr v.disk (update inodes a ino d) t := by
    intro d t ht
    rw [wrBlk_disk, bset_disk]
    by_cases hda : d = a
    · rw [hda, update_self, update_self]
      have hOld := hSlots a t ht
      rw [update_self] at hOld
      cases t with
      | direct i =>
        rw [if_neg (by simp)]
        change (ino.setRoot depth b).direct i = ino.direct i
        rw [Inode.direct_setRoot]
      | node e path =>
        change ptrAt _ ((ino.setRoot depth b).root e) path = _
        rw [Inode.root_setRoot ino hd]
        by_cases hed : e = depth
        · rw [if_pos hed, hed]
          cases path with
          | nil => simp
          | cons i path =>
            rw [if_neg (by simp)]
            have : ptr v.disk ino (.node depth (i :: path)) = 0 := by
              change ptrAt v.disk (ino.root depth) (i :: path) = 0
              rw [hzero, ptrAt_zero]
            rw [this]
            apply ptrAt_cons_zeros
            · intro j _
              rw [update_self, getU32_zeros]
            · intro j hj
              exact ht.2.2.2 j (by simp [hj])
            · exact ht.2.2.2 i (by simp)
        · rw [if_neg hed, if_neg (by simp [hed])]
          exact hOld
    · rw [if_neg (fun h => hda h.1), update_of_ne hda, update_of_ne hda]
      have hOld := hSlots d t ht
      rwa [update_of_ne hda] at hOld
  have filled := @Mapped.of_fill _ _ _ _ _ _ _ own ((DataOnly.bset v b true).trans (.wrBlk _ b zeros)) fresh hValid
    (by rw [update_self]; exact hzero) slots (fun x => fresh.bits x)
    (fun x hxc _ => by rw [wrBlk_disk_of_ne _ hxc, bset_disk]) s (.inr hd.1)
  rw [update_self] at filled
  exact ⟨fresh.nonzero, filled⟩

def slotOf (index : Nat) : Slot :=
  if index < directCount then .direct index
  else if index - directCount < indirectPer then .node 1 [index - directCount]
  else .node 2 [(index - directCount - indirectPer) % indirectPer, (index - directCount - indirectPer) / indirectPer]

def mappedBlocks : Nat := directCount + indirectPer + indirectPer * indirectPer

lemma slotOf_valid {index : Nat} (hIndex : index < mappedBlocks) : (slotOf index).Valid ∧ ¬ (slotOf index).IsTable := by
  unfold mappedBlocks at hIndex
  unfold slotOf
  split_ifs with hDirect hSingle
  · exact ⟨hDirect, id⟩
  · refine ⟨⟨le_rfl, by decide, le_rfl, ?_⟩, lt_irrefl 1⟩
    intro i hi
    rw [mem_singleton.mp hi]
    exact hSingle
  refine ⟨⟨by decide, by decide, le_rfl, ?_⟩, lt_irrefl 2⟩
  have hk : index - directCount - indirectPer < indirectPer * indirectPer := by omega
  intro i hi
  simp only [mem_cons, not_mem_nil, or_false] at hi
  cases hi with
  | inl hi =>
    rw [hi]
    exact Nat.mod_lt _ (by decide)
  | inr hi =>
    rw [hi]
    exact Nat.div_lt_of_lt_mul hk

lemma slotOf_injective {index other : Nat} (h : slotOf index = slotOf other) : index = other := by
  unfold slotOf at h
  split_ifs at h with h₁ h₂ h₃ h₄ h₅ h₆ h₇ h₈
  all_goals
    simp only [Slot.direct.injEq, Slot.node.injEq, cons.injEq, reduceCtorEq, and_true, true_and,
      Nat.reduceEqDiff, and_false] at h
  · exact h
  · omega
  · have := Nat.div_add_mod (index - directCount - indirectPer) indirectPer
    have := Nat.div_add_mod (other - directCount - indirectPer) indirectPer
    rw [h.1, h.2] at *
    omega

variable {ino' : Inode} {index : Nat}

variable (own : Own v (update inodes a ino))

include own

lemma getDirect_spec (hIndex : index < directCount)
    (h : getDirect v ino index true preferGroup = (b, ino', v')) (ok : v'.failed = false) :
    b ≠ 0 ∧ Mapped a (.direct index) v (update inodes a ino) v'
      (update inodes a ino') ∧ ptr v'.disk ino' (.direct index) = b := by
  unfold getDirect at h
  simp only [Bool.not_true, Bool.false_eq_true, if_false] at h
  by_cases hzero : ino.direct index = 0
  · simp only [hzero, ne_eq, not_true_eq_false, if_false] at h
    rcases allocBlock_spec own preferGroup with ⟨c, fresh, hAlloc⟩ | hAlloc
    case inr =>
      simp only [hAlloc, if_true, Prod.mk.injEq] at h
      rw [← h.2.2] at ok
      cases ok
    simp only [hAlloc, if_neg fresh.nonzero, Prod.mk.injEq] at h
    obtain ⟨rfl, rfl, rfl⟩ := h
    have slots : ∀ d t, t.Valid → ptr (bset v c true).disk (update inodes a
        { ino with direct := update ino.direct index c } d) t = if d = a ∧ t = .direct index then c
          else ptr v.disk (update inodes a ino d) t := by
      intro d t ht
      rw [bset_disk]
      by_cases hda : d = a
      · rw [hda, update_self, update_self]
        cases t with
        | direct k =>
          change update ino.direct index c k = _
          by_cases hk : k = index
          · simp [hk]
          · rw [update_of_ne hk, if_neg (by simp [hk])]
            rfl
        | node e path =>
          rw [if_neg (by simp)]
          rfl
      · rw [if_neg (fun h => hda h.1), update_of_ne hda, update_of_ne hda]
    have filled := @Mapped.of_fill _ _ _ _ _ _ _ own (.bset v c true) fresh (show (Slot.direct index).Valid from hIndex)
      (by rw [update_self]; exact hzero) slots (fun x => fresh.bits x)
      (fun x _ _ => by rw [bset_disk]) _ (.inl rfl)
    rw [update_self] at filled
    exact ⟨fresh.nonzero, filled⟩
  · simp only [ne_eq, hzero, not_false_eq_true, if_true, Prod.mk.injEq] at h
    obtain ⟨rfl, rfl, rfl⟩ := h
    exact ⟨hzero, .refl own, rfl⟩

lemma getSingle_spec (hi : i < indirectPer) (h : getSingle v ino i true preferGroup = (b, ino', v'))
    (ok : v'.failed = false) : b ≠ 0 ∧ Mapped a (.node 1 [i]) v (update inodes a ino) v'
      (update inodes a ino') ∧ ptr v'.disk ino' (.node 1 [i]) = b := by
  unfold getSingle at h
  rcases hRoot : rootOf v ino.singleIndirect true preferGroup with ⟨tbl, v₁⟩
  rcases hLeaf : leafOf v₁ tbl i true preferGroup with ⟨b', v₂⟩
  simp only [hRoot, hLeaf] at h
  have okRoot : v₁.failed = false := by
    have mono := (dataOnly_extends.leafOf v₁ tbl i true preferGroup).failed
    rw [hLeaf] at mono
    split_ifs at h
    · rw [Prod.mk.injEq, Prod.mk.injEq] at h
      rw [h.2.2, ok]
    · rw [Prod.mk.injEq, Prod.mk.injEq] at h
      exact mono (h.2.2 ▸ ok)
  obtain ⟨hTbl, mapped, hSlot⟩ := @rootOf_spec _ _ _ _ _ _ 1 _ (.node 1 [i]) own (by decide) hRoot okRoot
  simp only [if_neg hTbl, Prod.mk.injEq] at h
  obtain ⟨rfl, rfl, rfl⟩ := h
  have hSlot' : ptr v₁.disk (update inodes a (ino.setRoot 1 tbl) a) (.node 1 []) = tbl := by
    rw [update_self]
    exact hSlot
  obtain ⟨hb, mapped', hLeaf'⟩ := leafOf_spec mapped.own ⟨le_rfl, by decide, by simp, by simp⟩ rfl
    hi hSlot' hTbl hLeaf ok
  rw [update_self] at hLeaf'
  exact ⟨hb, mapped.trans own mapped', hLeaf'⟩

lemma getDouble_spec {k : Nat} (hk : k < indirectPer * indirectPer)
    (h : getDouble v ino k true preferGroup = (b, ino', v')) (ok : v'.failed = false) : b ≠ 0 ∧
      Mapped a (.node 2 [k % indirectPer, k / indirectPer]) v (update inodes a ino) v'
        (update inodes a ino') ∧ ptr v'.disk ino' (.node 2 [k % indirectPer, k / indirectPer]) = b := by
  have hDiv : k / indirectPer < indirectPer := Nat.div_lt_of_lt_mul hk
  have hMod : k % indirectPer < indirectPer := Nat.mod_lt _ (by decide)
  unfold getDouble at h
  generalize k / indirectPer = i₁ at *
  generalize k % indirectPer = i₂ at *
  rcases hRoot : rootOf v ino.doubleIndirect true preferGroup with ⟨dtbl, v₁⟩
  rcases hTable : tableOf v₁ dtbl i₁ true preferGroup with ⟨tbl, v₂⟩
  rcases hLeaf : leafOf v₂ tbl i₂ true preferGroup with ⟨b', v₃⟩
  simp only [hRoot, hTable, hLeaf] at h
  have monoTable := (dataOnly_extends.tableOf v₁ dtbl i₁ true preferGroup).failed
  have monoLeaf := (dataOnly_extends.leafOf v₂ tbl i₂ true preferGroup).failed
  rw [hTable] at monoTable
  rw [hLeaf] at monoLeaf
  have okRoot : v₁.failed = false := by
    split_ifs at h <;> rw [Prod.mk.injEq, Prod.mk.injEq] at h
    · rw [h.2.2, ok]
    · exact monoTable (h.2.2 ▸ ok)
    · exact monoTable (monoLeaf (h.2.2 ▸ ok))
  obtain ⟨hDtbl, mapped, hSlot⟩ := @rootOf_spec _ _ _ _ _ _ 2 _ (.node 2 [i₂, i₁]) own (by decide) hRoot okRoot
  rw [if_neg hDtbl] at h
  have okTable : v₂.failed = false := by
    split_ifs at h <;> rw [Prod.mk.injEq, Prod.mk.injEq] at h
    · rw [h.2.2, ok]
    · exact monoLeaf (h.2.2 ▸ ok)
  have hSlot' : ptr v₁.disk (update inodes a (ino.setRoot 2 dtbl) a) (.node 2 []) = dtbl := by
    rw [update_self]
    exact hSlot
  have hRootValid : (Slot.node 2 []).Valid := ⟨by decide, by decide, by simp, by simp⟩
  obtain ⟨hTbl, mapped', hTable'⟩ := @tableOf_spec _ _ _ _ _ _ _ _ _ (.node 2 [i₂, i₁]) _
    mapped.own hRootValid (by decide) hDiv hSlot' hDtbl hTable okTable
  simp only [if_neg hTbl, Prod.mk.injEq] at h
  obtain ⟨rfl, rfl, rfl⟩ := h
  obtain ⟨hb, mapped'', hLeaf'⟩ := leafOf_spec mapped'.own (hRootValid.entry (by decide) hDiv) rfl
    hMod hTable' hTbl hLeaf ok
  rw [update_self] at hLeaf'
  exact ⟨hb, (mapped.trans own mapped').trans own mapped'', hLeaf'⟩

/-- The slot of a mapped block holds it, and everything mapped before stays. -/
lemma inodeGetBlock_spec (hIndex : index < mappedBlocks)
    (h : inodeGetBlock v ino index true preferGroup = (b, ino', v')) (ok : v'.failed = false) :
    b ≠ 0 ∧ Mapped a (slotOf index) v (update inodes a ino) v'
      (update inodes a ino') ∧ ptr v'.disk ino' (slotOf index) = b := by
  unfold slotOf
  unfold inodeGetBlock at h
  by_cases hDirect : index < directCount
  · rw [if_pos hDirect] at h ⊢
    exact getDirect_spec own hDirect h ok
  rw [if_neg hDirect] at h ⊢
  by_cases hSingle : index - directCount < indirectPer
  · rw [if_pos hSingle] at h ⊢
    exact getSingle_spec own hSingle h ok
  rw [if_neg hSingle] at h ⊢
  have hDouble : index - directCount - indirectPer < indirectPer * indirectPer := by
    unfold mappedBlocks at hIndex
    omega
  rw [if_pos hDouble] at h
  exact getDouble_spec own hDouble h ok

end GetBlock

section Lookup

/-- The volume after a search for block `b` that allocates nothing. -/
def tried (v : Volume) (alloc : Bool) (b : Nat) : Volume :=
  if alloc = true ∧ b = 0 then { v with failed := true } else v

lemma tried_of_ne {alloc : Bool} (hb : b ≠ 0) : tried v alloc b = v := if_neg fun h => hb h.2

variable {alloc : Bool} (stuck : alloc = true → allocBlock v preferGroup = (0, { v with failed := true }))

include stuck

lemma rootOf_stuck (root : Nat) : rootOf v root alloc preferGroup = (root, tried v alloc root) := by
  unfold rootOf tried allocTable
  by_cases h : root = 0
  · cases alloc <;> simp_all
  · simp [h]

lemma leafOf_stuck (tbl i : Nat) :
    leafOf v tbl i alloc preferGroup = (entry v tbl i, tried v alloc (entry v tbl i)) := by
  unfold leafOf tried
  by_cases h : entry v tbl i = 0
  · cases alloc <;> simp_all
  · simp [h]

lemma tableOf_stuck (dtbl i : Nat) :
    tableOf v dtbl i alloc preferGroup = (entry v dtbl i, tried v alloc (entry v dtbl i)) := by
  unfold tableOf tried allocTable
  by_cases h : entry v dtbl i = 0
  · cases alloc <;> simp_all
  · simp [h]

lemma getSingle_stuck (ino : Inode) (i : Nat) : getSingle v ino i alloc preferGroup =
      (ptr v.disk ino (.node 1 [i]), ino, tried v alloc (ptr v.disk ino (.node 1 [i]))) := by
  unfold getSingle
  rw [rootOf_stuck stuck]
  change _ = (ptrAt v.disk ino.singleIndirect [i], ino, tried v alloc (ptrAt v.disk ino.singleIndirect [i]))
  by_cases h : ino.singleIndirect = 0
  · rw [h, ptrAt_zero]
    rfl
  · have hEntry : ptrAt v.disk ino.singleIndirect [i] = entry v ino.singleIndirect i := ptrAt_cons h
    simp [if_neg h, tried_of_ne h, leafOf_stuck stuck, hEntry]

lemma getDouble_stuck (ino : Inode) (k : Nat) : getDouble v ino k alloc preferGroup =
      (ptr v.disk ino (.node 2 [k % indirectPer, k / indirectPer]), ino,
        tried v alloc (ptr v.disk ino (.node 2 [k % indirectPer, k / indirectPer]))) := by
  unfold getDouble
  rw [rootOf_stuck stuck]
  change _ = (ptrAt v.disk ino.doubleIndirect [k % indirectPer, k / indirectPer], ino,
    tried v alloc (ptrAt v.disk ino.doubleIndirect [k % indirectPer, k / indirectPer]))
  by_cases hRoot : ino.doubleIndirect = 0
  · rw [hRoot, ptrAt_zero]
    rfl
  have hEntry : ptrAt v.disk ino.doubleIndirect [k / indirectPer] =
      entry v ino.doubleIndirect (k / indirectPer) := ptrAt_cons hRoot
  simp only [if_neg hRoot, tried_of_ne hRoot, tableOf_stuck stuck]
  by_cases hTable : entry v ino.doubleIndirect (k / indirectPer) = 0
  · rw [if_pos hTable, ptrAt_cons_of_zero (hEntry.trans hTable), hTable]
  · have hLeaf : ptrAt v.disk ino.doubleIndirect [k % indirectPer, k / indirectPer] =
        entry v (entry v ino.doubleIndirect (k / indirectPer)) (k % indirectPer) := by
      rw [ptrAt_cons (hEntry.trans_ne hTable), hEntry]
      rfl
    simp [if_neg hTable, tried_of_ne hTable, leafOf_stuck stuck, hLeaf]

/-- Where nothing can be allocated, `inode_get_block` finds what is mapped. -/
lemma inodeGetBlock_stuck (ino : Inode) {index : Nat} (hIndex : index < mappedBlocks) :
    inodeGetBlock v ino index alloc preferGroup =
      (ptr v.disk ino (slotOf index), ino, tried v alloc (ptr v.disk ino (slotOf index))) := by
  unfold mappedBlocks at hIndex
  unfold inodeGetBlock slotOf
  by_cases hDirect : index < directCount
  · rw [if_pos hDirect, if_pos hDirect]
    change _ = (ino.direct index, ino, tried v alloc (ino.direct index))
    unfold getDirect tried
    by_cases h : ino.direct index = 0
    · cases alloc <;> simp_all
    · simp [h]
  rw [if_neg hDirect, if_neg hDirect]
  by_cases hSingle : index - directCount < indirectPer
  · rw [if_pos hSingle, if_pos hSingle]
    exact getSingle_stuck stuck ino _
  rw [if_neg hSingle, if_neg hSingle, if_pos (by omega)]
  exact getDouble_stuck stuck ino _

omit stuck

/-- Without allocation, `inode_get_block` reads the slot of the block. -/
lemma inodeGetBlock_reads (vol : Volume) (ino : Inode) (index : Nat) : (inodeGetBlock vol ino index false 0).1 =
      if index < mappedBlocks then ptr vol.disk ino (slotOf index) else 0 := by
  by_cases hIndex : index < mappedBlocks
  · rw [if_pos hIndex, inodeGetBlock_stuck (fun h => Bool.noConfusion h) ino hIndex]
  · rw [if_neg hIndex]
    unfold mappedBlocks at hIndex
    rw [inodeGetBlock, if_neg (by omega), if_neg (by omega), if_neg (by omega)]

end Lookup

end YartOS.Fs
