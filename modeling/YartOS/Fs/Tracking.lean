import YartOS.Fs.BlockOwners
import YartOS.Fs.TreeFacts

/-! The inode numbers in use on the volume and in memory: a sync keeps the two in step. -/
namespace YartOS.Fs

open Bytes List

variable {vol vol' : Volume} {numbers rest : List Nat} {a b : Nat}

lemma ibit_iset (ha : ValidIno vol a) (hb : ValidIno vol b) (used : Bool) :
    ibit (iset vol a used) b = if a = b then used else ibit vol b := by
  have := ha.1
  have := hb.1
  unfold ibit iset
  simp only [sub32_eq ha.1, sub32_eq hb.1]
  by_cases hGroup : (b - 1) / inodesPerGroup = (a - 1) / inodesPerGroup
  · rw [hGroup, Function.update_self, getBit_setBit]
    have hSame : (a - 1) % inodesPerGroup = (b - 1) % inodesPerGroup ↔ a = b := by
      unfold inodesPerGroup at *
      omega
    simp [hSame]
  · rw [Function.update_of_ne hGroup, if_neg]
    rintro rfl
    exact hGroup rfl

/-- The two volumes hold the same files. -/
structure SameFiles (vol vol' : Volume) : Prop where
  sb : vol'.sb = { vol.sb with state := vol'.sb.state }
  desc : vol'.desc = vol.desc
  bbitmap : vol'.bbitmap = vol.bbitmap
  disk : ∀ x, IsData vol x ∨ (∃ g, (Part.inodeTable g).Holds vol x) → vol'.disk x = vol.disk x

namespace SameFiles

variable (same : SameFiles vol vol')

include same

lemma groups : vol'.sb.totalGroups = vol.sb.totalGroups := by rw [same.sb]

lemma isData {x : Nat} : IsData vol' x ↔ IsData vol x := by
  unfold IsData
  rw [same.groups, same.desc]

lemma validIno : ValidIno vol' a ↔ ValidIno vol a := by
  unfold ValidIno
  rw [same.groups]

lemma wellFormed (wf : WellFormed vol) : WellFormed vol' := by
  constructor
  · rw [same.sb, same.desc]
    exact ⟨wf.layout.apart, wf.layout.inside, wf.layout.ordered, wf.layout.crcRoom⟩
  · rw [same.sb]
    exact wf.small
  · rw [same.groups]
    exact wf.groups
  · rw [same.groups, same.desc]
    exact wf.bits

lemma bbit (x : Nat) : bbit vol' x = bbit vol x := by
  unfold Fs.bbit groupOfDataBlock
  rw [same.groups, same.desc, same.bbitmap]

lemma rdInode (wf : WellFormed vol) (ha : ValidIno vol a) : rdInode vol' a = rdInode vol a := by
  have hBlock : inodeBlock vol' a = inodeBlock vol a := by
    unfold inodeBlock
    rw [same.desc]
  unfold Fs.rdInode rdBlk
  rw [hBlock, same.disk _ (.inr ⟨_, wf.inodeBlock_holds ha⟩)]

lemma own {inodes : Nat → Inode} (own : Own vol inodes) : Own vol' inodes :=
  own.congr (fun _ => same.isData)
    (fun c _ ht => own.ptr_congr (fun x hx => same.disk x (.inl hx)) c ht) fun x _ => same.bbit x

lemma inv (inv : Files.Inv { vol := vol, live := numbers }) : Files.Inv { vol := vol', live := numbers } := by
  have hInodes : Files.inodes { vol := vol', live := numbers } = Files.inodes { vol := vol, live := numbers } := by
    funext a
    unfold Files.inodes
    by_cases ha : a ∈ numbers
    · simp [if_pos ha, same.rdInode inv.wellFormed (inv.valid a ha)]
    · simp [if_neg ha]
  refine ⟨same.wellFormed inv.wellFormed, fun a ha => same.validIno.mpr (inv.valid a ha), ?_⟩
  rw [hInodes]
  exact same.own inv.own

end SameFiles

/-- The numbers in use are those of the list, and used blocks belong to their inodes. -/
structure Tracks (vol : Volume) (numbers : List Nat) : Prop where
  files : Files.Inv { vol := vol, live := numbers }
  distinct : numbers.Nodup
  bits : ∀ a, ValidIno vol a → (ibit vol a = true ↔ a ∈ numbers)

namespace Tracks

section

variable (tracks : Tracks vol numbers)

include tracks

lemma perm {numbers' : List Nat} (h : numbers.Perm numbers') : Tracks vol numbers' := by
  have hInodes : Files.inodes { vol := vol, live := numbers' } = Files.inodes { vol := vol, live := numbers } := by
    funext a
    unfold Files.inodes
    simp [h.mem_iff]
  refine ⟨⟨tracks.files.wellFormed, fun a ha => tracks.files.valid a (h.mem_iff.mpr ha), ?_⟩,
    h.nodup_iff.mp tracks.distinct, fun a ha => ?_⟩
  · rw [hInodes]
    exact tracks.files.own
  · rw [tracks.bits a ha, h.mem_iff]

lemma reorder {numbers' : List Nat} (h : ∀ a, numbers.count a = numbers'.count a) : Tracks vol numbers' :=
  tracks.perm (perm_iff_count.mpr h)

lemma congr (same : SameFiles vol vol') (ibitmap : vol'.ibitmap = vol.ibitmap) : Tracks vol' numbers := by
  refine ⟨same.inv tracks.files, tracks.distinct, fun a ha => ?_⟩
  have hBit : ibit vol' a = ibit vol a := by
    unfold ibit
    rw [ibitmap]
  rw [hBit, tracks.bits a (same.validIno.mp ha)]

lemma of_eq (sb : vol'.sb = vol.sb) (desc : vol'.desc = vol.desc) (bbitmap : vol'.bbitmap = vol.bbitmap)
    (ibitmap : vol'.ibitmap = vol.ibitmap) (disk : vol'.disk = vol.disk) : Tracks vol' numbers :=
  tracks.congr ⟨by rw [sb], desc, bbitmap, fun x _ => by rw [disk]⟩ ibitmap

lemma persist (ha : a ∈ numbers) {attrs : Attrs} {data : Buffer}
    {size : Nat} (ok : (persistInode vol a false attrs data size).2.failed = false) :
    Tracks (persistInode vol a false attrs data size).2 numbers := by
  have same := DataOnly.persistInode vol a false attrs data size
  have after := @Files.Inv.persist _ tracks.files a (tracks.files.valid a ha) attrs data size
  simp only [Files.call, ha, not_true_eq_false, decide_false, if_true] at after
  refine ⟨after ok, tracks.distinct, fun b hb => ?_⟩
  have hBit : ibit (persistInode vol a false attrs data size).2 b = ibit vol b := by
    unfold ibit
    rw [same.ibitmap]
  unfold ValidIno at hb
  rw [same.sb] at hb
  rw [hBit, tracks.bits b hb]

/-- A number that is taken for a new file. -/
lemma persist_new (ha : ValidIno vol a) (free : ibit vol a = false) {attrs : Attrs} {data : Buffer} {size : Nat}
    (ok : (persistInode (iset vol a true) a true attrs data size).2.failed = false) :
    Tracks (persistInode (iset vol a true) a true attrs data size).2 (a :: numbers) := by
  have hNew : a ∉ numbers := by
    rw [← tracks.bits a ha, free]
    exact Bool.false_ne_true
  have taken : SameFiles vol (iset vol a true) := ⟨rfl, rfl, rfl, fun _ _ => rfl⟩
  have same := DataOnly.persistInode (iset vol a true) a true attrs data size
  have after := @Files.Inv.persist _ (taken.inv tracks.files) a (taken.validIno.mpr ha) attrs data size
  simp only [Files.call, hNew, not_false_eq_true, decide_true, if_false] at after
  refine ⟨after ok, nodup_cons.mpr ⟨hNew, tracks.distinct⟩, fun b hb => ?_⟩
  have hBit : ibit (persistInode (iset vol a true) a true attrs data size).2 b = ibit (iset vol a true) b := by
    unfold ibit
    rw [same.ibitmap]
  have hb' : ValidIno vol b := by
    unfold ValidIno at hb ⊢
    rw [same.sb] at hb
    exact hb
  rw [hBit, ibit_iset ha hb', mem_cons, ← tracks.bits b hb']
  by_cases hab : a = b
  · simp [hab]
  · simp [hab, Ne.symm hab]

end

lemma free (tracks : Tracks vol (a :: rest)) : Tracks (inodeFree vol a) rest := by
  have hLive : a ∈ a :: rest := mem_cons_self
  have ha := tracks.files.valid a hLive
  obtain ⟨hNew, hRest⟩ := nodup_cons.mp tracks.distinct
  have hFilter : (a :: rest).filter (· ≠ a) = rest := by
    rw [filter_cons_of_neg (by simp), filter_eq_self]
    intro b hb
    rw [decide_eq_true_eq]
    rintro rfl
    exact hNew hb
  have after : Files.Inv { vol := inodeFree vol a, live := (a :: rest).filter (· ≠ a) } := tracks.files.free hLive
  rw [hFilter] at after
  have erased := inodeFree_spec tracks.files.wellFormed ha tracks.files.own (if_pos hLive)
  have hBits : (inodeFree vol a).ibitmap = (iset vol a false).ibitmap := by rw [erased.rest]
  have hSb : (inodeFree vol a).sb = vol.sb := by rw [erased.rest]
  refine ⟨after, hRest, fun b hb => ?_⟩
  unfold ValidIno at hb
  rw [hSb] at hb
  have hBit : ibit (inodeFree vol a) b = ibit (iset vol a false) b := by
    unfold ibit
    rw [hBits]
  rw [hBit, ibit_iset ha hb]
  by_cases hab : a = b
  · subst hab
    simp [hNew]
  · rw [if_neg hab, tracks.bits b hb, mem_cons]
    simp [Ne.symm hab]

end Tracks

def Vnode.inos (v : Vnode) : List Nat := if v.ino = 0 then [] else [v.ino]

def inos (l : List Vnode) : List Nat := l.flatMap Vnode.inos

lemma inos_append (l l' : List Vnode) : inos (l ++ l') = inos l ++ inos l' := flatMap_append

lemma inos_cons (v : Vnode) (l : List Vnode) : inos (v :: l) = v.inos ++ inos l := flatMap_cons

lemma Vnode.inos_of_ne {v : Vnode} (hv : v.ino = a) (ha : a ≠ 0) : v.inos = [a] := by
  unfold Vnode.inos
  rw [hv, if_neg ha]

lemma mem_inos {l : List Vnode} : a ∈ inos l ↔ a ≠ 0 ∧ ∃ v ∈ l, v.ino = a := by
  have one : ∀ v : Vnode, a ∈ v.inos ↔ a ≠ 0 ∧ v.ino = a := by
    intro v
    unfold Vnode.inos
    split_ifs with hv
    · simp only [not_mem_nil, hv, false_iff, not_and]
      exact fun ha h => ha h.symm
    · rw [mem_singleton]
      constructor
      · rintro rfl
        exact ⟨hv, rfl⟩
      · exact fun h => h.2.symm
  unfold inos
  simp only [mem_flatMap, one]
  constructor
  · rintro ⟨v, hv, ha, h⟩
    exact ⟨ha, v, hv, h⟩
  · rintro ⟨ha, v, hv, h⟩
    exact ⟨v, hv, ha, h⟩

/-- `alloc_ino` takes a clear bit, or notes the failure. -/
lemma allocIno_cases (vol : Volume) : (∃ a, ValidIno vol a ∧ ibit vol a = false ∧ allocIno vol = (a, iset vol a true)) ∨
      allocIno vol = (0, { vol with failed := true }) := by
  unfold allocIno
  cases hFind : findFrom (fun k => !ibit vol (k + 1)) (vol.sb.totalGroups * inodesPerGroup) 0 with
  | none => exact .inr rfl
  | some k =>
    obtain ⟨-, hEnd, hFree⟩ := findFrom_some hFind
    exact .inl ⟨k + 1, ⟨by omega, by omega⟩, by simpa using hFree, rfl⟩

lemma allocIno_spec (h : allocIno vol = (a, vol')) (ok : vol'.failed = false) :
    ValidIno vol a ∧ ibit vol a = false ∧ vol' = iset vol a true := by
  rcases allocIno_cases vol with ⟨b, valid, free, hAlloc⟩ | hAlloc
  · rw [hAlloc, Prod.mk.injEq] at h
    obtain ⟨rfl, rfl⟩ := h
    exact ⟨valid, free, rfl⟩
  · rw [hAlloc, Prod.mk.injEq] at h
    rw [← h.2] at ok
    cases ok

variable {u u' : Vnode} {child : Forest} {isRoot done : Bool}

lemma persistNode_failed (isRoot : Bool) (u : Vnode) (child : Forest) (vol : Volume)
    (ok : (persistNode isRoot u child vol).2.2.failed = false) : vol.failed = false := by
  have taken : (takeIno isRoot u vol).2.failed = false → vol.failed = false := by
    unfold takeIno
    split_ifs
    · exact id
    · exact id
    · intro h
      obtain ⟨-, -, hTaken⟩ := allocIno_spec (Prod.mk.eta (p := allocIno vol)).symm h
      rw [hTaken] at h
      exact h
  apply taken
  unfold persistNode at ok
  rcases hTake : takeIno isRoot u vol with ⟨ino, vol₁⟩
  rcases hPersist : persistInode vol₁ ino (decide (u.ino = 0)) u.attrs (u.contents child).1
    (u.contents child).2 with ⟨done, vol₂⟩
  have same := DataOnly.persistInode vol₁ ino (decide (u.ino = 0)) u.attrs (u.contents child).1 (u.contents child).2
  rw [hPersist] at same
  simp only [hTake, hPersist] at ok
  split_ifs at ok
  · exact ok
  · exact same.failed ok
  · exact same.failed ok

lemma syncNode_failed (isRoot childSynced : Bool) (u : Vnode) (child : Forest) (vol : Volume)
    (ok : (syncNode isRoot childSynced u child vol).2.2.failed = false) : vol.failed = false := by
  unfold syncNode at ok
  simp only at ok
  generalize (if childSynced = true then { u with dirty := true } else u) = w at ok
  split_ifs at ok
  · exact persistNode_failed _ _ _ _ ok
  · exact ok

lemma syncForest_failed (f : Forest) (vol : Volume) (ok : (syncForest f vol).2.2.failed = false) :
    vol.failed = false := by
  induction f generalizing vol with
  | nil => exact ok
  | cons u child sibling ihChild ihSibling =>
    exact ihChild vol (syncNode_failed false _ u _ _ (ihSibling _ ok))

/-- A node keeps its number, or takes one that was free. -/
lemma persistNode_tracks (hRoot : isRoot = true → u.ino ≠ 0) (tracks : Tracks vol (u.inos ++ rest))
    (h : persistNode isRoot u child vol = (done, u', vol')) (ok : vol'.failed = false) :
    Tracks vol' (u'.inos ++ rest) := by
  unfold persistNode at h
  generalize hc : u.contents child = contents at h
  by_cases hu : u.ino = 0
  · have hNot : ¬ isRoot = true := fun hr => hRoot hr hu
    have hTake : takeIno isRoot u vol = allocIno vol := by
      unfold takeIno
      rw [if_neg (not_not.mpr hu), if_neg hNot]
    rcases hAlloc : allocIno vol with ⟨a, vol₁⟩
    simp only [hTake, hAlloc, hu, decide_true] at h
    have ok₁ : vol₁.failed = false := by
      have same := DataOnly.persistInode vol₁ a true u.attrs contents.1 contents.2
      split_ifs at h <;> obtain ⟨-, -, rfl⟩ := by simpa [Prod.mk.injEq] using h
      · exact ok
      · exact same.failed ok
      · exact same.failed ok
    obtain ⟨ha, hFree, rfl⟩ := allocIno_spec hAlloc ok₁
    have hne : a ≠ 0 := Nat.one_le_iff_ne_zero.mp ha.1
    rw [Vnode.inos, if_pos hu, nil_append] at tracks
    rw [if_neg hne] at h
    have hNode : u'.ino = a := by split_ifs at h <;> rw [← (Prod.mk.inj (Prod.mk.inj h).2).1]
    rw [Vnode.inos_of_ne hNode hne]
    split_ifs at h <;> obtain ⟨-, -, rfl⟩ := by simpa [Prod.mk.injEq] using h
    · exact (tracks.persist_new ha hFree ok).of_eq rfl rfl rfl rfl rfl
    · exact tracks.persist_new ha hFree ok
  · have hTake : takeIno isRoot u vol = (u.ino, vol) := by
      unfold takeIno
      rw [if_pos hu]
    simp only [hTake, hu, decide_false, if_false] at h
    have hNode : u'.ino = u.ino := by split_ifs at h <;> rw [← (Prod.mk.inj (Prod.mk.inj h).2).1]
    rw [Vnode.inos_of_ne rfl hu] at tracks
    rw [Vnode.inos_of_ne hNode hu]
    have hMem : u.ino ∈ [u.ino] ++ rest := mem_append_left _ mem_cons_self
    split_ifs at h <;> obtain ⟨-, -, rfl⟩ := by simpa [Prod.mk.injEq] using h
    · exact (tracks.persist hMem ok).of_eq rfl rfl rfl rfl rfl
    · exact tracks.persist hMem ok

lemma syncNode_tracks {childSynced : Bool} (hRoot : isRoot = true → u.ino ≠ 0) (tracks : Tracks vol (u.inos ++ rest))
    (h : syncNode isRoot childSynced u child vol = (done, u', vol')) (ok : vol'.failed = false) :
    Tracks vol' (u'.inos ++ rest) := by
  unfold syncNode at h
  have hSame : (if childSynced = true then { u with dirty := true } else u).ino = u.ino := by split_ifs <;> rfl
  generalize (if childSynced = true then { u with dirty := true } else u) = w at h hSame
  have hInos : w.inos = u.inos := by
    unfold Vnode.inos
    rw [hSame]
  rw [← hInos] at tracks
  rw [← hSame] at hRoot
  simp only at h
  split_ifs at h
  · exact persistNode_tracks hRoot tracks h ok
  · obtain ⟨-, rfl, rfl⟩ := h
    exact tracks

/-- The numbers of the nodes stay the numbers in use, whatever else is in use. -/
lemma syncForest_tracks {f f' : Forest} (tracks : Tracks vol (inos f.nodes ++ rest))
    (h : syncForest f vol = (done, f', vol')) (ok : vol'.failed = false) : Tracks vol' (inos f'.nodes ++ rest) := by
  induction f generalizing vol vol' f' done rest with
  | nil =>
    obtain ⟨-, rfl, rfl⟩ := h
    exact tracks
  | cons u child sibling ihChild ihSibling =>
    unfold syncForest at h
    rcases hChild : syncForest child vol with ⟨childSynced, child₁, vol₁⟩
    rcases hNode : syncNode false childSynced u child₁ vol₁ with ⟨synced, u₁, vol₂⟩
    rcases hSibling : syncForest sibling vol₂ with ⟨siblingSynced, sibling₁, vol₃⟩
    simp only [hChild, hNode, hSibling, Prod.mk.injEq] at h
    obtain ⟨-, rfl, rfl⟩ := h
    have ok₂ : vol₂.failed = false := by
      have := syncForest_failed sibling vol₂
      rw [hSibling] at this
      exact this ok
    have ok₁ : vol₁.failed = false := by
      have := syncNode_failed false childSynced u child₁ vol₁
      rw [hNode] at this
      exact this ok₂
    -- each part is synced while the numbers of the others are kept in the rest
    have parts : ∀ (w : Vnode) (c s : Forest), inos (Forest.cons w c s).nodes =
        w.inos ++ (inos c.nodes ++ inos s.nodes) := by
      intro w c s
      rw [Forest.nodes, inos_cons, inos_append]
    rw [parts] at tracks ⊢
    have first : Tracks vol₁ (inos child₁.nodes ++ (u.inos ++ inos sibling.nodes ++ rest)) :=
      ihChild (tracks.reorder fun a => by simp [count_append]; omega) hChild ok₁
    have second : Tracks vol₂ (u₁.inos ++ (inos child₁.nodes ++ inos sibling.nodes ++ rest)) :=
      syncNode_tracks (absurd · Bool.false_ne_true)
        (first.reorder fun a => by simp [count_append]; omega) hNode ok₂
    have third : Tracks vol₃ (inos sibling₁.nodes ++ (u₁.inos ++ inos child₁.nodes ++ rest)) :=
      ihSibling (second.reorder fun a => by simp [count_append]; omega) hSibling ok
    exact third.reorder fun a => by simp [count_append]; omega

lemma syncTree_tracks {t t' : Tree} (hRoot : t.root.ino ≠ 0) (tracks : Tracks vol (inos t.nodes ++ rest))
    (h : syncTree t vol = (t', vol')) (ok : vol'.failed = false) : Tracks vol' (inos t'.nodes ++ rest) := by
  unfold syncTree at h
  rcases hChild : syncForest t.child vol with ⟨childSynced, child₁, vol₁⟩
  rcases hNode : syncNode true childSynced t.root child₁ vol₁ with ⟨synced, root₁, vol₂⟩
  simp only [hChild, hNode, Prod.mk.injEq] at h
  obtain ⟨rfl, rfl⟩ := h
  have ok₁ : vol₁.failed = false := by
    have := syncNode_failed true childSynced t.root child₁ vol₁
    rw [hNode] at this
    exact this ok
  have parts : ∀ t : Tree, inos t.nodes = t.root.inos ++ inos t.child.nodes := by
    intro t
    rw [Tree.nodes, inos_cons]
  rw [parts] at tracks ⊢
  have first : Tracks vol₁ (inos child₁.nodes ++ (t.root.inos ++ rest)) :=
    syncForest_tracks (tracks.reorder fun a => by simp [count_append]; omega) hChild ok₁
  have second : Tracks vol₂ (root₁.inos ++ (inos child₁.nodes ++ rest)) :=
    syncNode_tracks (fun _ => hRoot) (first.reorder fun a => by simp [count_append]; omega)
      hNode ok
  exact second.reorder fun a => by simp only [count_append]; omega

lemma freeDeleted_tracks (tracks : Tracks vol (rest ++ vol.deleted)) (nonzero : 0 ∉ vol.deleted) :
    Tracks (freeDeleted vol) rest := by
  have frees : ∀ (dels : List Nat) (w : Volume), 0 ∉ dels → Tracks w (rest ++ dels) →
      Tracks (dels.foldl (fun vol ino => if ino = 0 then vol else inodeFree vol ino) w) rest := by
    intro dels
    induction dels with
    | nil =>
      intro w _ h
      rwa [append_nil] at h
    | cons a dels ih =>
      intro w hne h
      rw [mem_cons, not_or] at hne
      rw [foldl_cons, if_neg (Ne.symm hne.1)]
      exact ih _ hne.2 (h.perm perm_middle).free
  exact (frees vol.deleted vol nonzero tracks).of_eq rfl rfl rfl rfl rfl

/-- The bitmaps, the descriptors and the superblock lie beside the files. -/
lemma flushMeta_tracks (tracks : Tracks vol numbers) : Tracks (flushMeta vol) numbers := by
  have wf := tracks.files.wellFormed
  have flushed := DiskOnly.flushBitmaps (wrState vol 1) |>.trans (.wrGdt _)
  have wrote := flush_wroteOn (wrState vol 1)
  have disk : ∀ x, IsData vol x ∨ (∃ g, (Part.inodeTable g).Holds vol x) → (flushMeta vol).disk x = vol.disk x := by
    intro x hx
    have apart : ∀ p : Part, p.Holds vol x → p ≠ .superblock ∧ ¬ p.Flushed := by
      intro p hp
      rcases hx with hData | ⟨g, hTable⟩
      · obtain ⟨g, hg⟩ := isData_iff_holds.mp hData
        rw [wf.part_unique hp hg]
        exact ⟨nofun, id⟩
      · rw [wf.part_unique hp hTable]
        exact ⟨nofun, id⟩
    have hx0 : x ≠ 0 := by
      rintro rfl
      exact (apart _ (WellFormed.superblock_holds vol)).1 rfl
    have hMid := wrote.disk_eq (x := x) fun ⟨p, hFlushed, hp⟩ => (apart p hp).2 hFlushed
    calc (flushMeta vol).disk x
        = (wrGdt (flushBitmaps (wrState vol 1))).disk x := wrBlk_disk_of_ne _ hx0
      _ = (wrState vol 1).disk x := hMid
      _ = vol.disk x := wrBlk_disk_of_ne _ hx0
  have rest := flushed.1
  have fields : (wrGdt (flushBitmaps (wrState vol 1))).sb = (wrState vol 1).sb ∧
      (wrGdt (flushBitmaps (wrState vol 1))).desc = vol.desc ∧
      (wrGdt (flushBitmaps (wrState vol 1))).bbitmap = vol.bbitmap ∧
      (wrGdt (flushBitmaps (wrState vol 1))).ibitmap = vol.ibitmap := by
    rw [rest]
    exact ⟨rfl, rfl, rfl, rfl⟩
  obtain ⟨hSb, hDesc, hB, hI⟩ := fields
  refine tracks.congr ⟨?_, hDesc, hB, disk⟩ hI
  change { (wrGdt (flushBitmaps (wrState vol 1))).sb with state := 0 } = { vol.sb with state := 0 }
  rw [hSb]
  rfl

end YartOS.Fs
