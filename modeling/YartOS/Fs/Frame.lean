import YartOS.Fs.BlockMap

/-! What the operations on blocks leave alone, and what they do to the block
bitmap. -/
namespace YartOS.Fs

open Bytes Function List Option

variable {v v' v'' : Volume} {b x blk depth : Nat}

def IsData (v : Volume) (blk : Nat) : Prop :=
  ∃ g < v.sb.totalGroups, (v.desc g).dataStart ≤ blk ∧ blk < (v.desc g).dataEnd

def replay (disk : Nat → Buffer) (writes : List (Nat × Buffer)) : Nat → Buffer :=
  writes.foldl (fun disk w => update disk w.1 w.2) disk

lemma replay_append (disk : Nat → Buffer) (ws ws' : List (Nat × Buffer)) :
    replay disk (ws ++ ws') = replay (replay disk ws) ws' := foldl_append

/-- The disk changed by the writes that were logged, and the layout is the same. -/
structure Logged (v v' : Volume) : Prop where
  sb : v'.sb = v.sb
  desc : v'.desc = v.desc
  writes : ∃ ws, v'.writes = v.writes ++ ws ∧ v'.disk = replay v.disk ws

namespace Logged

lemma of_eq (sb : v'.sb = v.sb) (desc : v'.desc = v.desc) (writes : v'.writes = v.writes)
    (disk : v'.disk = v.disk) : Logged v v' :=
  ⟨sb, desc, [], by rw [writes, append_nil], disk⟩

lemma refl (v : Volume) : Logged v v := of_eq rfl rfl rfl rfl

lemma trans (first : Logged v v') (second : Logged v' v'') : Logged v v'' := by
  obtain ⟨ws, hWrites, hDisk⟩ := first.writes
  obtain ⟨ws', hWrites', hDisk'⟩ := second.writes
  refine ⟨second.sb.trans first.sb, second.desc.trans first.desc, ws ++ ws', ?_, ?_⟩
  · rw [hWrites', hWrites, append_assoc]
  · rw [hDisk', hDisk, replay_append]

lemma wrBlk (v : Volume) (b : Nat) (buf : Buffer) : Logged v (wrBlk v b buf) := ⟨rfl, rfl, [(b, buf)], rfl, rfl⟩

end Logged

/-- Geometry, inode bitmap and bookkeeping are the same; a noted failure stays. -/
structure DataOnly (v v' : Volume) : Prop where
  rest : v' = { v with
    disk := v'.disk, bbitmap := v'.bbitmap, writes := v'.writes, failed := v'.failed }
  failed : v'.failed = false → v.failed = false
  logged : Logged v v'

namespace DataOnly

lemma refl (v : Volume) : DataOnly v v := ⟨rfl, id, .refl v⟩

lemma trans (first : DataOnly v v') (second : DataOnly v' v'') : DataOnly v v'' := by
  refine ⟨?_, ?_, first.logged.trans second.logged⟩
  · rw [second.rest, first.rest]
  · intro h
    exact first.failed (second.failed h)

section

variable (same : DataOnly v v')

include same

lemma sb : v'.sb = v.sb := by rw [same.rest]

lemma desc : v'.desc = v.desc := by rw [same.rest]

lemma ibitmap : v'.ibitmap = v.ibitmap := by rw [same.rest]

lemma isData : IsData v' x ↔ IsData v x := by
  unfold IsData
  rw [same.sb, same.desc]

lemma inodeBlock (ino : Nat) : inodeBlock v' ino = inodeBlock v ino := by
  unfold Fs.inodeBlock
  rw [same.desc]

lemma groupOfDataBlock : groupOfDataBlock v' blk = groupOfDataBlock v blk := by
  unfold Fs.groupOfDataBlock
  rw [same.sb, same.desc]

end

lemma wrBlk (v : Volume) (b : Nat) (buf : Buffer) : DataOnly v (wrBlk v b buf) := ⟨rfl, id, .wrBlk v b buf⟩

lemma bset (v : Volume) (b : Nat) (used : Bool) : DataOnly v (bset v b used) := by
  unfold Fs.bset
  cases Fs.groupOfDataBlock v b with
  | none => exact refl v
  | some g => exact ⟨rfl, id, .of_eq rfl rfl rfl rfl⟩

lemma crcStoreBlock (v : Volume) (b crc : Nat) : DataOnly v (crcStoreBlock v b crc) := by
  unfold Fs.crcStoreBlock
  simp only
  split_ifs
  · exact refl v
  · exact wrBlk _ _ _

end DataOnly

@[simp] lemma wrBlk_disk (v : Volume) (b : Nat) (buf : Buffer) : (wrBlk v b buf).disk = update v.disk b buf := rfl

@[simp] lemma rdBlk_wrBlk_self (v : Volume) (b : Nat) (buf : Buffer) : rdBlk (wrBlk v b buf) b = buf := by simp [rdBlk]

lemma wrBlk_disk_of_ne (buf : Buffer) (hx : x ≠ b) : (wrBlk v b buf).disk x = v.disk x := by
  rw [wrBlk_disk, update_of_ne hx]

@[simp] lemma bbit_wrBlk (v : Volume) (b : Nat) (buf : Buffer) (x : Nat) : bbit (wrBlk v b buf) x = bbit v x := rfl

lemma groupOfDataBlock_some {g : Nat} (h : groupOfDataBlock v blk = some g) :
    g < v.sb.totalGroups ∧ (v.desc g).dataStart ≤ blk ∧ blk < (v.desc g).dataEnd := by
  have found := findFrom_some h
  simp only [Bool.and_eq_true, decide_eq_true_eq] at found
  omega

lemma isData_iff : IsData v blk ↔ (groupOfDataBlock v blk).isSome := by
  constructor
  · rintro ⟨g, hg, hIn⟩
    cases h : groupOfDataBlock v blk with
    | some _ => rfl
    | none =>
      have := findFrom_none h g (Nat.zero_le _) (by omega)
      simp [hIn] at this
  · intro h
    obtain ⟨g, hg⟩ := isSome_iff_exists.mp h
    have := groupOfDataBlock_some hg
    exact ⟨g, this.1, this.2⟩

lemma isData_of_bbit (h : bbit v blk = false) : IsData v blk := by
  rw [isData_iff]
  unfold bbit at h
  cases hg : groupOfDataBlock v blk with
  | none => simp [hg] at h
  | some g => rfl

@[simp] lemma bset_disk (v : Volume) (b : Nat) (used : Bool) : (bset v b used).disk = v.disk := by
  unfold bset
  cases groupOfDataBlock v b <;> rfl

@[simp] lemma bset_failed (v : Volume) (b : Nat) (used : Bool) : (bset v b used).failed = v.failed := by
  unfold bset
  cases groupOfDataBlock v b <;> rfl

/-- Marking one data block changes its bit and no other. -/
lemma bbit_bset (hb : IsData v b) (used : Bool) (x : Nat) :
    bbit (bset v b used) x = if x = b then used else bbit v x := by
  obtain ⟨g, hg⟩ := isSome_iff_exists.mp (isData_iff.mp hb)
  have hSame := @DataOnly.groupOfDataBlock _ _ x (DataOnly.bset v b used)
  have hDesc := (DataOnly.bset v b used).desc
  unfold bbit
  rw [hSame, hDesc]
  unfold bset
  rw [hg]
  cases hx : groupOfDataBlock v x with
  | none =>
    have : x ≠ b := by
      rintro rfl
      rw [hg] at hx
      cases hx
    rw [if_neg this]
  | some h =>
    by_cases hgh : h = g
    · subst hgh
      have inB := groupOfDataBlock_some hg
      have inX := groupOfDataBlock_some hx
      simp only [update_self, getBit_setBit]
      have : b - (v.desc h).dataStart = x - (v.desc h).dataStart ↔ x = b := by omega
      simp [this]
    · have : x ≠ b := by
        rintro rfl
        rw [hg] at hx
        exact hgh (some.inj hx).symm
      simp [update_of_ne hgh, if_neg this]

lemma freeBlockIn_some {g : Nat} (h : freeBlockIn v g = some blk) : bbit v blk = false := by
  obtain ⟨i, hi, rfl⟩ := map_eq_some_iff.mp h
  have := (findFrom_some hi).2.2
  simpa using this

/-- `alloc_block` takes a clear bit, or notes the failure. -/
lemma allocBlock_cases (v : Volume) (preferGroup : Nat) :
    (∃ blk, bbit v blk = false ∧ allocBlock v preferGroup = (blk, bset v blk true)) ∨
      allocBlock v preferGroup = (0, { v with failed := true }) := by
  unfold allocBlock
  cases h : (searchOrder v preferGroup).findSome? (freeBlockIn v) with
  | none => exact .inr rfl
  | some blk =>
    obtain ⟨g, -, hg⟩ := exists_of_findSome?_eq_some h
    exact .inl ⟨blk, freeBlockIn_some hg, rfl⟩

lemma DataOnly.allocBlock (v : Volume) (preferGroup : Nat) : DataOnly v (allocBlock v preferGroup).2 := by
  rcases allocBlock_cases v preferGroup with ⟨blk, -, h⟩ | h
  · rw [h]
    exact .bset v blk true
  · rw [h]
    exact ⟨rfl, fun h => Bool.noConfusion h, .of_eq rfl rfl rfl rfl⟩

/-- A relation that block writes and allocations keep, and so the mapping of blocks. -/
structure Extends (R : Volume → Volume → Prop) : Prop where
  refl : ∀ v, R v v
  trans : ∀ {u v w}, R u v → R v w → R u w
  write : ∀ v b buf, R v (wrBlk v b buf)
  allocate : ∀ v preferGroup, R v (allocBlock v preferGroup).2

namespace Extends

variable {R : Volume → Volume → Prop}

section

variable (ext : Extends R) (v : Volume) (ino : Inode)

include ext

lemma allocTable (preferGroup : Nat) : R v (allocTable v preferGroup).2 := by
  unfold Fs.allocTable
  simp only
  split_ifs
  · exact ext.allocate v preferGroup
  · exact ext.trans (ext.allocate v preferGroup) (ext.write _ _ _)

lemma leafOf (tbl i : Nat) (alloc : Bool) (preferGroup : Nat) : R v (leafOf v tbl i alloc preferGroup).2 := by
  unfold Fs.leafOf
  simp only
  split_ifs
  · exact ext.refl v
  · exact ext.refl v
  · exact ext.allocate v preferGroup
  · exact ext.trans (ext.allocate v preferGroup) (ext.write _ _ _)

lemma tableOf (dtbl i : Nat) (alloc : Bool) (preferGroup : Nat) : R v (tableOf v dtbl i alloc preferGroup).2 := by
  unfold Fs.tableOf
  simp only
  split_ifs
  · exact ext.refl v
  · exact ext.refl v
  · exact ext.allocTable v preferGroup
  · exact ext.trans (ext.allocTable v preferGroup) (ext.write _ _ _)

lemma rootOf (root : Nat) (alloc : Bool) (preferGroup : Nat) : R v (rootOf v root alloc preferGroup).2 := by
  unfold Fs.rootOf
  split_ifs
  · exact ext.refl v
  · exact ext.refl v
  · exact ext.allocTable v preferGroup

lemma getDirect (i : Nat) (alloc : Bool) (preferGroup : Nat) : R v (getDirect v ino i alloc preferGroup).2.2 := by
  unfold Fs.getDirect
  simp only
  split_ifs
  · exact ext.refl v
  · exact ext.refl v
  · exact ext.allocate v preferGroup
  · exact ext.allocate v preferGroup

lemma getSingle (i : Nat) (alloc : Bool) (preferGroup : Nat) : R v (getSingle v ino i alloc preferGroup).2.2 := by
  unfold Fs.getSingle
  have root := ext.rootOf v ino.singleIndirect alloc preferGroup
  generalize Fs.rootOf v ino.singleIndirect alloc preferGroup = r at *
  obtain ⟨tbl, v₁⟩ := r
  simp only
  split_ifs
  · exact root
  · have leaf := ext.leafOf v₁ tbl i alloc preferGroup
    generalize Fs.leafOf v₁ tbl i alloc preferGroup = q at *
    exact ext.trans root leaf

lemma getDouble (k : Nat) (alloc : Bool) (preferGroup : Nat) : R v (getDouble v ino k alloc preferGroup).2.2 := by
  unfold Fs.getDouble
  have root := ext.rootOf v ino.doubleIndirect alloc preferGroup
  generalize Fs.rootOf v ino.doubleIndirect alloc preferGroup = r at *
  obtain ⟨dtbl, v₁⟩ := r
  have table := ext.tableOf v₁ dtbl (k / indirectPer) alloc preferGroup
  simp only
  generalize Fs.tableOf v₁ dtbl (k / indirectPer) alloc preferGroup = q at *
  obtain ⟨tbl, v₂⟩ := q
  have leaf := ext.leafOf v₂ tbl (k % indirectPer) alloc preferGroup
  generalize Fs.leafOf v₂ tbl (k % indirectPer) alloc preferGroup = q at *
  split_ifs
  · exact root
  · exact ext.trans root table
  · exact ext.trans (ext.trans root table) leaf

lemma inodeGetBlock (index : Nat) (alloc : Bool) (preferGroup : Nat) :
    R v (inodeGetBlock v ino index alloc preferGroup).2.2 := by
  unfold Fs.inodeGetBlock
  split
  · exact ext.getDirect _ _ _ _ _
  · split
    · exact ext.getSingle _ _ _ _ _
    · split
      · exact ext.getDouble _ _ _ _ _
      · exact ext.refl v

lemma crcStoreBlock (b crc : Nat) : R v (crcStoreBlock v b crc) := by
  unfold Fs.crcStoreBlock
  simp only
  split_ifs
  · exact ext.refl v
  · exact ext.write _ _ _

end

lemma persistBlocks (ext : Extends R) (data : Buffer) (size preferGroup fuel b : Nat) (ino : Inode)
    (v : Volume) : R v (persistBlocks data size preferGroup fuel b ino v).2.2 := by
  induction fuel generalizing b ino v with
  | zero => exact ext.refl v
  | succ fuel ih =>
    have mapped := ext.inodeGetBlock v ino b true preferGroup
    rw [Fs.persistBlocks]
    rcases h : Fs.inodeGetBlock v ino b true preferGroup with ⟨db, ino₁, v₁⟩
    rw [h] at mapped
    simp only
    split_ifs
    · exact mapped
    · exact ext.trans (ext.trans (ext.trans mapped (ext.write _ _ _)) (ext.crcStoreBlock _ _ _)) (ih _ _ _)

end Extends

lemma dataOnly_extends : Extends DataOnly := ⟨.refl, .trans, .wrBlk, .allocBlock⟩

def treeBlocks (disk : Nat → Buffer) : Nat → Nat → List Nat
  | 0, b => if b = 0 then [] else [b]
  | depth + 1, b =>
    if b = 0 then []
    else b :: (range indirectPer).flatMap fun i => treeBlocks disk depth (getU32 (disk b) (4 * i))

def Freed (v v' : Volume) (blocks : List Nat) : Prop :=
  v'.disk = v.disk ∧ v'.failed = v.failed ∧ DataOnly v v' ∧
    ∀ x, IsData v x → bbit v' x = (bbit v x && !decide (x ∈ blocks))

lemma Freed.nil (v : Volume) : Freed v v [] := ⟨rfl, rfl, .refl v, fun x _ => by simp⟩

lemma Freed.trans {l m : List Nat} (first : Freed v v' l) (second : Freed v' v'' m) : Freed v v'' (l ++ m) := by
  obtain ⟨disk, failed, same, bits⟩ := first
  obtain ⟨disk', failed', same', bits'⟩ := second
  refine ⟨disk'.trans disk, failed'.trans failed, same.trans same', fun x hx => ?_⟩
  rw [bits' x (same.isData.mpr hx), bits x hx, Bool.and_assoc]
  simp [mem_append]

lemma Freed.bset (v : Volume) (b : Nat) : Freed v (bset v b false) [b] := by
  refine ⟨bset_disk v b false, bset_failed v b false, .bset v b false, fun x hx => ?_⟩
  by_cases hb : IsData v b
  · rw [bbit_bset hb]
    by_cases hxb : x = b <;> simp [hxb]
  have hxb : x ≠ b := fun e => hb (e ▸ hx)
  have : groupOfDataBlock v b = none := by
    rw [isData_iff, not_isSome_iff_eq_none] at hb
    exact hb
  unfold Fs.bset
  simp [this, hxb]

lemma Freed.foldl {f : Volume → Nat → Volume} {blocks : Nat → List Nat} (disk : Nat → Buffer)
    (each : ∀ v i, v.disk = disk → Freed v (f v i) (blocks i)) (l : List Nat) (v : Volume)
    (hv : v.disk = disk) : Freed v (l.foldl f v) (l.flatMap blocks) := by
  induction l generalizing v with
  | nil => exact .nil v
  | cons i l ih =>
    have first := each v i hv
    exact first.trans (ih (f v i) (first.1.trans hv))

lemma Freed.congr {l m : List Nat} (freed : Freed v v' l) (same : ∀ x, x ∈ l ↔ x ∈ m) : Freed v v' m := by
  refine ⟨freed.1, freed.2.1, freed.2.2.1, fun x hx => ?_⟩
  rw [freed.2.2.2 x hx]
  simp [same]

/-- Freeing a tree clears the bits of exactly its blocks. -/
lemma freeIndirectTree_spec (depth : Nat) (v : Volume) (b : Nat) :
    Freed v (freeIndirectTree depth v b) (treeBlocks v.disk depth b) := by
  induction depth generalizing v b with
  | zero =>
    unfold freeIndirectTree treeBlocks
    split_ifs
    · exact .nil v
    · exact .bset v b
  | succ depth ih =>
    unfold freeIndirectTree treeBlocks
    split_ifs with hb
    · exact .nil v
    have inner : Freed v ((range indirectPer).foldl
        (fun w i => freeIndirectTree depth w (getU32 (rdBlk v b) (4 * i))) v)
        ((range indirectPer).flatMap
          fun i => treeBlocks v.disk depth (getU32 (v.disk b) (4 * i))) := by
      apply Freed.foldl v.disk _ _ v rfl
      intro w i hw
      have := ih w (getU32 (rdBlk v b) (4 * i))
      rwa [hw] at this
    apply (inner.trans (Freed.bset _ b)).congr
    intro x
    rw [mem_append, mem_singleton, mem_cons, or_comm]

end YartOS.Fs
