import YartOS.Fs.Persist
import YartOS.Fs.TreeFacts
import YartOS.Lib.Runs

/-! The inode numbers of the nodes after a sync. A fresh volume does not mark the root's as used. -/
namespace YartOS.Fs

open Bytes Runs List

/-- Inode numbers differ, are marked, and only the root has the root's. -/
structure InodeNumbersOk (s : Mounted) : Prop where
  distinct : ((s.tree.nodes.map (·.ino)).filter (· ≠ 0)).Nodup
  rootOnly : ∀ v ∈ s.tree.child.nodes, v.ino ≠ rootIno
  marked : ∀ v ∈ s.tree.nodes, v.ino ≠ 0 → ibit s.vol v.ino = true

/-- No node waits for the next sync. -/
def Clean (t : Tree) : Prop := ∀ v ∈ t.nodes, v.dirty = false

structure Unsynced (s : Mounted) : Prop where
  active : s.vol.active = true
  groups : 0 < s.vol.sb.totalGroups
  firstFree : ibit s.vol rootIno = false
  noDeletes : s.vol.deleted = []
  noInos : s.tree.All (·.ino = 0)

variable {s : Mounted} {vol : Volume} {f : Forest}

/-- The search for a free number starts at the number of the root. -/
lemma allocIno_first (groups : 0 < vol.sb.totalGroups) (free : ibit vol rootIno = false) :
    (allocIno vol).1 = rootIno := by
  obtain ⟨n, hn⟩ : ∃ n, vol.sb.totalGroups * inodesPerGroup = n + 1 :=
    ⟨vol.sb.totalGroups * inodesPerGroup - 1, by unfold inodesPerGroup; omega⟩
  unfold allocIno
  rw [hn, findFrom, show ibit vol (0 + 1) = false from free]
  rfl

lemma persistNode_ino (isRoot : Bool) (v : Vnode) (child : Forest) (vol : Volume)
    (hTake : (takeIno isRoot v vol).1 = rootIno) : (persistNode isRoot v child vol).2.1.ino = rootIno := by
  unfold persistNode
  generalize takeIno isRoot v vol = taken at *
  simp only [hTake]
  rw [if_neg (by decide)]
  generalize persistInode _ _ _ _ _ _ = r
  split_ifs <;> rfl

lemma persistNode_root_ibitmap {v : Vnode} (hv : v.ino = 0) (child : Forest) (vol : Volume) :
    (persistNode true v child vol).2.2.ibitmap = vol.ibitmap := by
  have hTake : takeIno true v vol = (rootIno, vol) := by
    unfold takeIno
    rw [if_neg (not_not.mpr hv), if_pos rfl]
  have same := (DataOnly.persistInode vol rootIno (decide (v.ino = 0)) v.attrs (v.contents child).1
    (v.contents child).2).ibitmap
  unfold persistNode
  simp only [hTake]
  rw [if_neg (by decide)]
  rcases h : persistInode vol rootIno (decide (v.ino = 0)) v.attrs (v.contents child).1
    (v.contents child).2 with ⟨done, vol'⟩
  rw [h] at same
  split_ifs <;> exact same

lemma flushMeta_ibitmap (vol : Volume) : (flushMeta vol).ibitmap = vol.ibitmap := by
  have flushed := (DiskOnly.flushBitmaps (wrState vol 1)).trans (.wrGdt _)
  change (wrGdt (flushBitmaps (wrState vol 1))).ibitmap = vol.ibitmap
  rw [flushed.1]
  rfl

lemma syncForest_clean (clean : f.All (·.dirty = false)) : syncForest f vol = (false, f, vol) := by
  induction f generalizing vol with
  | nil => rfl
  | cons v child sibling ihChild ihSibling =>
    rw [Forest.all_cons] at clean
    unfold syncForest
    simp [ihChild clean.2.1, syncNode, clean.1, ihSibling clean.2.2, Bool.false_eq_true, Bool.or_self]

/-- The first dirty node in the order of the walk takes the root's number. -/
lemma syncForest_takes_root (groups : 0 < vol.sb.totalGroups) (free : ibit vol rootIno = false)
    (noInos : f.All (·.ino = 0)) (dirty : ¬ f.All (·.dirty = false)) :
    ∃ v ∈ (syncForest f vol).2.1.nodes, v.ino = rootIno := by
  induction f with
  | nil => exact absurd Forest.all_nil dirty
  | cons v child sibling ihChild ihSibling =>
    rw [Forest.all_cons] at noInos dirty
    unfold syncForest
    by_cases hChild : child.All (·.dirty = false)
    · simp only [syncForest_clean hChild]
      by_cases hv : v.dirty = true
      · have hTake : (takeIno false v vol).1 = rootIno := by
          unfold takeIno
          rw [if_neg (by simp [noInos.1]), if_neg Bool.false_ne_true]
          exact allocIno_first groups free
        have hIno := persistNode_ino false v child vol hTake
        simp only [syncNode, Bool.false_eq_true, if_false, hv, if_true]
        exact ⟨_, mem_cons_self, hIno⟩
      · have hSibling : ¬ sibling.All (·.dirty = false) := fun h =>
          dirty ⟨Bool.eq_false_iff.mpr hv, hChild, h⟩
        simp only [syncNode, Bool.false_eq_true, if_false, hv]
        obtain ⟨u, hu, h⟩ := ihSibling noInos.2.2 hSibling
        exact ⟨u, by simp [Forest.nodes, hu], h⟩
    · obtain ⟨u, hu, h⟩ := ihChild noInos.2.1 hChild
      exact ⟨u, by simp [Forest.nodes, hu], h⟩

namespace Unsynced

section

variable (un : Unsynced s)

include un

lemma numbersOk : InodeNumbersOk s := by
  have zero := Tree.all_iff.mp un.noInos
  refine ⟨?_, fun v hv h => ?_, fun v hv h => absurd (zero v hv) h⟩
  · have : (s.tree.nodes.map (·.ino)).filter (· ≠ 0) = [] := by
      rw [filter_eq_nil_iff]
      intro ino hIno
      obtain ⟨v, hv, rfl⟩ := mem_map.mp hIno
      simp [zero v hv]
    rw [this]
    exact nodup_nil
  · have := zero v (mem_cons_of_mem _ hv)
    rw [this] at h
    cases h

lemma freeDeleted_eq : freeDeleted s.vol = s.vol := by
  unfold freeDeleted
  rw [un.noDeletes]
  simp only [foldl_nil]
  rw [← un.noDeletes]

/-- A sync of a clean tree does nothing. -/
lemma sync_of_clean (clean : Clean s.tree) : blkfsSync s = s := by
  have all := Tree.all_iff.mpr clean
  unfold blkfsSync syncTree
  simp only [un.active, un.freeDeleted_eq, un.noDeletes, syncForest_clean all.2, syncNode, all.1,
    Bool.not_true, Bool.false_eq_true, if_false, length_nil, Nat.sub_self, and_self, if_true]

lemma sync_eq : (blkfsSync s).tree = (syncTree s.tree s.vol).1 ∧
    (blkfsSync s).vol.ibitmap = (syncTree s.tree s.vol).2.ibitmap := by
  unfold blkfsSync
  simp only [un.active, un.freeDeleted_eq, Bool.not_true, Bool.false_eq_true, if_false]
  split_ifs
  · exact ⟨rfl, rfl⟩
  · exact ⟨rfl, flushMeta_ibitmap _⟩

/-- Any other sync gives the root's number away, or leaves it unmarked. -/
lemma sync_of_dirty (dirty : ¬ Clean s.tree) : ¬ InodeNumbersOk (blkfsSync s) := by
  intro ok
  obtain ⟨hTree, hBits⟩ := un.sync_eq
  by_cases hChild : s.tree.child.All (·.dirty = false)
  · have hRoot : s.tree.root.dirty = true := by
      by_contra h
      exact dirty (Tree.all_iff.mp ⟨Bool.eq_false_iff.mpr h, hChild⟩)
    have hSync : syncTree s.tree s.vol =
        ({ root := (persistNode true s.tree.root s.tree.child s.vol).2.1, child := s.tree.child },
          (persistNode true s.tree.root s.tree.child s.vol).2.2) := by
      unfold syncTree
      simp [syncForest_clean hChild, syncNode, Bool.false_eq_true, hRoot]
    rw [hSync] at hTree hBits
    rw [persistNode_root_ibitmap un.noInos.1] at hBits
    have hTake : (takeIno true s.tree.root s.vol).1 = rootIno := by
      unfold takeIno
      rw [if_neg (not_not.mpr un.noInos.1), if_pos rfl]
    have hIno := persistNode_ino true s.tree.root s.tree.child s.vol hTake
    have hMarked := ok.marked (blkfsSync s).tree.root mem_cons_self
    rw [hTree, hIno] at hMarked
    have hBit := hMarked (by decide)
    unfold ibit at hBit
    rw [hBits] at hBit
    exact absurd hBit (Bool.eq_false_iff.mp un.firstFree)
  · obtain ⟨v, hv, hIno⟩ := syncForest_takes_root un.groups un.firstFree un.noInos.2 hChild
    apply ok.rootOnly v _ hIno
    rw [hTree]
    exact hv

lemma apply_tree {change : Vnode → Forest → Vnode × Forest} (keeps : Forest.Keeps (·.ino = 0) change)
    (path : List Nat) : Unsynced { s with tree := s.tree.update change path } :=
  ⟨un.active, un.groups, un.firstFree, un.noDeletes, un.noInos.update keeps path⟩

end

lemma find_ino {f : Forest} {i : Nat} {path : List Nat} {v : Vnode} {child : Forest}
    (noInos : f.All (·.ino = 0)) (h : f.find i path = some (v, child)) : v.ino = 0 := by
  induction f generalizing i path with
  | nil => cases h
  | cons u below sibling ihChild ihSibling =>
    rw [Forest.all_cons] at noInos
    cases i with
    | succ i => exact ihSibling noInos.2.2 h
    | zero =>
      cases path with
      | nil =>
        obtain ⟨rfl, -⟩ := Prod.mk.inj (Option.some.inj h)
        exact noInos.1
      | cons j path => exact ihChild noInos.2.1 h

/-- A call other than a sync persists nothing. -/
lemma apply (un : Unsynced s) {op : Op} (hOp : op ≠ .sync) : Unsynced (s.apply op) := by
  cases op with
  | create env parent name kind =>
    exact un.apply_tree (vfsCreate_keeps (fun _ _ => rfl) (fun _ h => h) name kind) parent
  | symlink env parent name target =>
    apply un.apply_tree _ parent
    intro v child hv h
    unfold vfsSymlink
    split_ifs
    · exact ⟨hv, h⟩
    · exact ⟨hv, h.attach rfl Forest.all_nil⟩
  | write env node buf off n =>
    apply un.apply_tree _ node
    intro v child hv h
    unfold vfsWrite
    split
    · exact ⟨hv, h⟩
    · exact ⟨hv, h⟩
  | truncate env node n =>
    apply un.apply_tree _ node
    intro v child hv h
    unfold vfsTruncate
    split
    · exact ⟨hv, h⟩
    · exact ⟨hv, h⟩
  | unlink parent i =>
    change Unsynced (vfsUnlink s parent i)
    unfold vfsUnlink
    cases hFind : s.tree.find (parent ++ [i]) with
    | none => exact un
    | some found =>
      obtain ⟨v, child⟩ := found
      have hIno : v.ino = 0 := by
        cases parent with
        | nil => exact find_ino un.noInos.2 hFind
        | cons j path => exact find_ino un.noInos.2 hFind
      simp only
      split_ifs
      · exact un
      · exact un.apply_tree (fun v child hv h => ⟨hv, h.erase i⟩) parent
  | sync => exact absurd rfl hOp

end Unsynced

lemma Unsynced.start {v : Volume} {total size : Nat} {sb : Superblock} {desc : Nat → Gdesc} (hTotal : total < 2 ^ 32)
    (h : computeLayout v.sb total = some (sb, desc)) (noDeletes : v.deleted = []) (env : Caller) (initrd : Buffer) :
    Unsynced { vol := format v total, tree := vfsInit env initrd size } := by
  have groups : 0 < sb.totalGroups := by
    obtain ⟨last, tail, crcBlocks, geo⟩ := computeLayout_some hTotal h
    rw [geo.totalGroups]
    exact Nat.succ_pos last
  have hFormat := format_eq h
  refine ⟨by rw [hFormat], by rw [hFormat]; exact groups, ?_, by rw [hFormat]; exact noDeletes, ?_⟩
  · have hBits : (format v total).ibitmap 0 = zeros := by
      rw [hFormat]
      exact if_pos groups
    change getBit ((format v total).ibitmap 0) 0 = false
    rw [hBits, getBit_zeros]
  · refine vfsInit_all (fun _ _ => rfl) (fun _ h => h) (fun _ _ _ _ h => ?_) (fun _ _ _ _ hv h => ?_) initrd size
    · unfold fillFile
      split_ifs <;> exact h
    · unfold setContent
      split <;> exact ⟨hv, h⟩

lemma Unsynced.numbersOk_iff (un : Unsynced s) (ops : List Op) :
    Along Mounted.apply (fun _ op s' => op = .sync → InodeNumbersOk s') s ops ↔
      Along Mounted.apply (fun s op _ => op = .sync → Clean s.tree) s ops := by
  induction ops generalizing s with
  | nil => exact Iff.rfl
  | cons op ops ih =>
    unfold Along
    by_cases hOp : op = .sync
    · subst hOp
      by_cases clean : Clean s.tree
      · have hSync : s.apply .sync = s := un.sync_of_clean clean
        rw [hSync, ih un]
        exact and_congr_left' (iff_of_true (fun _ => un.numbersOk) fun _ => clean)
      · constructor
        · intro h
          exact absurd (h.1 rfl) (un.sync_of_dirty clean)
        · intro h
          exact absurd (h.1 rfl) clean
    · rw [ih (un.apply hOp)]
      exact and_congr_left' (iff_of_true (fun h => absurd h hOp) fun h => absurd h hOp)

/-- From a fresh volume and the tree of `vfs_init`, inode numbers are right after every sync iff no
sync finds a dirty node. -/
theorem inodeNumbers_ok_iff {v : Volume} {sectors swap size : Nat} {sb : Superblock}
    {desc : Nat → Gdesc} (h : computeLayout v.sb (diskTotalBlocks sectors swap) = some (sb, desc))
    (noDeletes : v.deleted = []) (env : Caller) (initrd : Buffer) (ops : List Op) :
    Along Mounted.apply (fun _ op s' => op = .sync → InodeNumbersOk s')
        { vol := format v (diskTotalBlocks sectors swap), tree := vfsInit env initrd size } ops ↔
      Along Mounted.apply (fun s op _ => op = .sync → Clean s.tree)
        { vol := format v (diskTotalBlocks sectors swap), tree := vfsInit env initrd size } ops :=
  (Unsynced.start (diskTotalBlocks_lt _ _) h noDeletes env initrd).numbersOk_iff ops

theorem inodeNumbers_wrong_on_four_mebibytes :
    (∃ sb desc, computeLayout {} (diskTotalBlocks 8192 0) = some (sb, desc)) ∧
      ¬ Along Mounted.apply (fun _ op s' => op = .sync → InodeNumbersOk s')
        { vol := format { disk := fun _ => zeros } (diskTotalBlocks 8192 0)
          tree := vfsInit {} zeros 0 } [.sync] := by
  obtain ⟨⟨sb, desc⟩, h⟩ := Option.isSome_iff_exists.mp
    (show (computeLayout {} (diskTotalBlocks 8192 0)).isSome by decide)
  refine ⟨⟨sb, desc, h⟩, ?_⟩
  have numbers := @inodeNumbers_ok_iff { disk := fun _ => zeros } 8192 0 0 sb desc h rfl {} zeros
  rw [numbers]
  intro clean
  have trace : (vfsInit {} zeros 0).nodes.any (·.dirty) = true := by decide +kernel
  rw [any_eq_true] at trace
  obtain ⟨v, hv, hDirty⟩ := trace
  have := clean.1 rfl v hv
  rw [hDirty] at this
  cases this

/-- The seeded files are dirty, so the first sync gives the root's number to one of them. -/
theorem first_sync_shares_root_number : ∃ s, s = Mounted.apply
      { vol := format { disk := fun _ => zeros } (diskTotalBlocks 8192 0)
        tree := vfsInit {} zeros 0 } .sync ∧
      s.vol.failed = false ∧ s.tree.root.ino = rootIno ∧ ¬ InodeNumbersOk s := by
  refine ⟨_, rfl, ?_⟩
  generalize hs : Mounted.apply _ _ = s
  have trace : s.vol.failed = false ∧ s.tree.root.ino = rootIno ∧ s.tree.child.nodes.any (·.ino == rootIno) = true := by
    rw [← hs]
    decide +kernel
  obtain ⟨ok, hRoot, hShared⟩ := trace
  refine ⟨ok, hRoot, fun numbers => ?_⟩
  obtain ⟨v, hv, hIno⟩ := any_eq_true.mp hShared
  exact numbers.rootOnly v hv (eq_of_beq hIno)

end YartOS.Fs
