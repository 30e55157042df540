import YartOS.Fs.Tracking

/-! Deleted files: `vfs_unlink` queues inode numbers for `blkfs_sync`. A number that finds the
queue full is lost. -/
namespace YartOS.Fs

open Bytes List Forest Option

variable {s : Mounted} {f : Forest} {v : Vnode} {child : Forest} {a i j : Nat} {path lost : List Nat}

def Forest.DirsOnly : Forest → Prop
  | .nil => True
  | .cons v child sibling => (v.kind ≠ .dir → child = .nil) ∧ child.DirsOnly ∧ sibling.DirsOnly

lemma Forest.DirsOnly.find (only : f.DirsOnly) (h : f.find j path = some (v, child))
    (hv : v.kind ≠ .dir) : child = .nil := by
  induction f generalizing j path with
  | nil => cases h
  | cons u below sibling ihChild ihSibling =>
    cases j with
    | succ j => exact ihSibling only.2.2 h
    | zero =>
      cases path with
      | nil =>
        obtain ⟨rfl, rfl⟩ := Prod.mk.inj (some.inj h)
        exact only.1 hv
      | cons k path => exact ihChild only.2.1 h

lemma Forest.DirsOnly.erase (only : f.DirsOnly) (i : Nat) : (f.erase i).DirsOnly := by
  induction f generalizing i with
  | nil => exact only
  | cons u below sibling _ ih =>
    cases i with
    | zero => exact only.2.2
    | succ i => exact ⟨only.1, only.2.1, ih only.2.2 i⟩

lemma Forest.DirsOnly.detach (only : f.DirsOnly) (i j : Nat) (path : List Nat) :
    (f.update (detach i) j path).DirsOnly := by
  induction f generalizing j path with
  | nil => exact only
  | cons u below sibling ihChild ihSibling =>
    obtain ⟨hu, hBelow, hSibling⟩ := only
    cases j with
    | succ j => exact ⟨hu, hBelow, ihSibling hSibling j path⟩
    | zero =>
      cases path with
      | nil =>
        refine ⟨fun h => ?_, hBelow.erase i, hSibling⟩
        rw [hu h]
        rfl
      | cons k path =>
        refine ⟨fun h => ?_, ihChild hBelow k path, hSibling⟩
        rw [hu h]
        rfl

lemma inos_erase (h : f.find i [] = some (v, child)) :
    (inos f.nodes).Perm (inos (v :: child.nodes) ++ inos (f.erase i).nodes) := by
  induction f generalizing i with
  | nil => cases h
  | cons u below sibling _ ih =>
    cases i with
    | zero =>
      obtain ⟨rfl, rfl⟩ := Prod.mk.inj (some.inj h)
      rw [nodes, ← cons_append, inos_append]
      rfl
    | succ i =>
      have := perm_iff_count.mp (ih h)
      rw [perm_iff_count]
      intro a
      have := this a
      simp only [nodes, erase, inos_append, inos_cons, count_append] at *
      omega

/-- A node that is detached takes its number and those below it along. -/
lemma inos_detach (h : f.find j (path ++ [i]) = some (v, child)) :
    (inos f.nodes).Perm (inos (v :: child.nodes) ++ inos (f.update (detach i) j path).nodes) := by
  induction f generalizing j path with
  | nil => cases h
  | cons u below sibling ihChild ihSibling =>
    rw [perm_iff_count]
    intro a
    cases j with
    | succ j =>
      have := perm_iff_count.mp (ihSibling h) a
      simp only [nodes, update, inos_append, inos_cons, count_append] at *
      omega
    | zero =>
      cases path with
      | nil =>
        have := perm_iff_count.mp (inos_erase h) a
        simp only [nodes, update, detach, inos_append, inos_cons, count_append] at *
        change _ = _ + (count a u.inos + _)
        omega
      | cons k path =>
        have := perm_iff_count.mp (ihChild h) a
        simp only [nodes, update, inos_append, inos_cons, count_append] at *
        omega

lemma Tree.inos_detach {t : Tree} (h : t.find (path ++ [i]) = some (v, child)) :
    (inos t.nodes).Perm (inos (v :: child.nodes) ++ inos (t.update (detach i) path).nodes) := by
  rw [perm_iff_count]
  intro a
  cases path with
  | nil =>
    have := perm_iff_count.mp (inos_erase h) a
    simp only [Tree.nodes, Tree.update, detach, inos_cons, count_append] at *
    change _ = _ + (count a t.root.inos + _)
    omega
  | cons k path =>
    have := perm_iff_count.mp (inos_detach h) a
    simp only [Tree.nodes, Tree.update, inos_cons, count_append] at *
    omega

/-- After some `vfs_unlink`: the numbers in use are in the tree, in the queue, or found it full. -/
structure Pending (s : Mounted) (lost : List Nat) : Prop where
  active : s.vol.active = true
  root : s.tree.root.ino ≠ 0
  dirsOnly : s.tree.child.DirsOnly
  tracks : Tracks s.vol (inos s.tree.nodes ++ (s.vol.deleted ++ lost))
  length : s.vol.deleted.length ≤ 64
  full : lost ≠ [] → s.vol.deleted.length = 64

def Mounted.removed (s : Mounted) (lost : List Nat) : Nat := s.vol.deleted.length + lost.length

namespace Pending

variable (pending : Pending s lost)

include pending

/-- The node that is detached has no children. -/
lemma detached (h : s.tree.find (path ++ [i]) = some (v, child)) (bare : ¬ (v.kind = .dir ∧ !child.isNil)) :
    (inos s.tree.nodes).Perm (v.inos ++ inos (s.tree.update (detach i) path).nodes) := by
  have hChild : child = .nil := by
    by_cases hv : v.kind = .dir
    · cases child with
      | nil => rfl
      | cons u below sibling => exact absurd ⟨hv, rfl⟩ bare
    · cases path with
      | nil => exact pending.dirsOnly.find h hv
      | cons j path => exact pending.dirsOnly.find h hv
  have := s.tree.inos_detach h
  rwa [hChild, nodes, inos_cons, show inos [] = [] from rfl, append_nil] at this

lemma noteDelete_eq (ha : a ∈ inos s.tree.nodes) : noteDelete s.vol a = if s.vol.deleted.length < 64
      then { s.vol with deleted := s.vol.deleted ++ [a] } else s.vol := by
  have hNew : a ∉ s.vol.deleted := by
    intro hDel
    have apart := (nodup_append.mp pending.tracks.distinct).2.2
    exact apart a ha a (mem_append_left _ hDel) rfl
  unfold noteDelete
  simp [pending.active, (mem_inos.mp ha).1, hNew]

lemma unlink (path : List Nat) (i : Nat) : ∃ lost', Pending (vfsUnlink s path i) lost' ∧
      (inos (vfsUnlink s path i).tree.nodes).length + (vfsUnlink s path i).removed lost' =
        (inos s.tree.nodes).length + s.removed lost := by
  unfold vfsUnlink
  cases hFind : s.tree.find (path ++ [i]) with
  | none => exact ⟨lost, pending, rfl⟩
  | some found =>
  obtain ⟨v, child⟩ := found
  by_cases bare : v.kind = .dir ∧ !child.isNil
  · simp only [if_pos bare]
    exact ⟨lost, pending, rfl⟩
  simp only [if_neg bare]
  have perm := pending.detached hFind bare
  have hLength := perm.length_eq
  have count := perm_iff_count.mp perm
  have root : (s.tree.update (detach i) path).root.ino ≠ 0 := by cases path <;> exact pending.root
  have only : (s.tree.update (detach i) path).child.DirsOnly := by
    cases path with
    | nil => exact pending.dirsOnly.erase i
    | cons j path => exact pending.dirsOnly.detach i j path
  generalize s.tree.update (detach i) path = t at *
  by_cases hv : v.ino = 0
  · rw [if_pos hv]
    rw [Vnode.inos, if_pos hv] at perm
    exact ⟨lost, ⟨pending.active, root, only, pending.tracks.perm (perm.append_right _),
      pending.length, pending.full⟩, congrArg (· + _) perm.length_eq.symm⟩
  have ha : v.ino ∈ inos s.tree.nodes := by
    rw [perm.mem_iff, Vnode.inos_of_ne rfl hv]
    exact mem_append_left _ mem_cons_self
  rw [if_neg hv, pending.noteDelete_eq ha]
  rw [Vnode.inos_of_ne rfl hv] at hLength count
  unfold Mounted.removed
  by_cases room : s.vol.deleted.length < 64
  · -- the number goes into the queue; nothing has been lost so far
    have hLost : lost = [] := by
      by_contra h
      exact absurd (pending.full h) (ne_of_lt room)
    subst hLost
    rw [if_pos room]
    have tracks : Tracks s.vol (inos t.nodes ++ (s.vol.deleted ++ [v.ino] ++ [])) :=
      pending.tracks.reorder fun a => by
        have := count a
        simp only [count_append] at *
        omega
    refine ⟨[], ⟨pending.active, root, only, tracks.of_eq rfl rfl rfl rfl rfl, ?_, fun h => absurd rfl h⟩, ?_⟩
    · rw [length_append, length_singleton]
      exact room
    · simp only [length_append, length_singleton] at hLength ⊢
      omega
  · rw [if_neg room]
    have hFull : s.vol.deleted.length = 64 := Nat.le_antisymm pending.length (Nat.le_of_not_lt room)
    have tracks : Tracks s.vol (inos t.nodes ++ (s.vol.deleted ++ (lost ++ [v.ino]))) :=
      pending.tracks.reorder fun a => by
        have := count a
        simp only [count_append] at *
        omega
    refine ⟨lost ++ [v.ino], ⟨pending.active, root, only, tracks, pending.length, fun _ => hFull⟩, ?_⟩
    simp only [length_append, length_singleton] at hLength ⊢
    omega

/-- A sync frees what is in the queue; what was lost stays in use. -/
lemma sync (ok : (blkfsSync s).vol.failed = false) :
    Tracks (blkfsSync s).vol (inos (blkfsSync s).tree.nodes ++ lost) := by
  have nonzero : 0 ∉ s.vol.deleted := by
    intro h
    have := pending.tracks.files.valid 0 (mem_append_right _ (mem_append_left _ h))
    exact absurd this.1 (by decide)
  have freed : Tracks (freeDeleted s.vol) (inos s.tree.nodes ++ lost) :=
    freeDeleted_tracks (pending.tracks.reorder fun a => by
      simp only [count_append]
      omega) nonzero
  rcases hSync : syncTree s.tree (freeDeleted s.vol) with ⟨t, vol'⟩
  have after : vol'.failed = false → Tracks vol' (inos t.nodes ++ lost) := syncTree_tracks pending.root freed hSync
  unfold blkfsSync at ok ⊢
  simp only [pending.active, hSync, Bool.not_true, Bool.false_eq_true, if_false] at ok ⊢
  split_ifs at ok ⊢
  · exact after ok
  · apply flushMeta_tracks (after _)
    have hFlush : (flushMeta vol').failed = (wrGdt (flushBitmaps (wrState vol' 1))).failed := rfl
    have flushed := (DiskOnly.flushBitmaps (wrState vol' 1)).trans (.wrGdt _)
    rw [hFlush, flushed.1] at ok
    exact ok

end Pending

/-- Inode numbers in use belong to nodes of the tree, and unreferenced data blocks are free. -/
structure NoLeak (s : Mounted) : Prop where
  numbers : ∀ a, ValidIno s.vol a → ibit s.vol a = true → ∃ v ∈ s.tree.nodes, v.ino = a
  blocks : ∀ x, IsData s.vol x → (∀ v ∈ s.tree.nodes, v.ino ≠ 0 → x ∉ inodeBlocks s.vol.disk (rdInode s.vol v.ino)) →
      bbit s.vol x = false

lemma Tracks.noLeak_iff_lost (tracks : Tracks s.vol (inos s.tree.nodes ++ lost)) : NoLeak s ↔ lost = [] := by
  constructor
  · intro noLeak
    rw [eq_nil_iff_forall_not_mem]
    intro a ha
    have hIn := mem_append_right (inos s.tree.nodes) ha
    have valid := tracks.files.valid a hIn
    obtain ⟨v, hv, hIno⟩ := noLeak.numbers a valid ((tracks.bits a valid).mpr hIn)
    have hTree : a ∈ inos s.tree.nodes := mem_inos.mpr ⟨Nat.one_le_iff_ne_zero.mp valid.1, v, hv, hIno⟩
    exact (nodup_append.mp tracks.distinct).2.2 a hTree a ha rfl
  · rintro rfl
    rw [append_nil] at tracks
    refine ⟨fun a ha h => (mem_inos.mp ((tracks.bits a ha).mp h)).2, fun x hx none => ?_⟩
    rw [Bool.eq_false_iff]
    intro used
    obtain ⟨a, t, ht, h⟩ := (tracks.files.own.bits x hx).mp used
    have hx0 : x ≠ 0 := fun h0 => tracks.files.own.nonzero (h0 ▸ hx)
    by_cases ha : a ∈ inos s.tree.nodes
    · obtain ⟨hne, v, hv, rfl⟩ := mem_inos.mp ha
      simp only [Files.inodes, if_pos ha] at h
      exact none v hv hne ((mem_inodeBlocks hx0).mpr ⟨t, ht, h⟩)
    · simp only [Files.inodes, if_neg ha, ptr_empty] at h
      exact hx0 h.symm

/-- A volume after a sync: the numbers in use are those of the nodes, only directories have
children, and no deletion waits. -/
structure Synced (s : Mounted) : Prop where
  active : s.vol.active = true
  root : s.tree.root.ino = rootIno
  dirsOnly : s.tree.child.DirsOnly
  tracks : Tracks s.vol (inos s.tree.nodes)
  noDeletes : s.vol.deleted = []

def unlinkAll (s : Mounted) (nodes : List (List Nat × Nat)) : Mounted :=
  nodes.foldl (fun s node => vfsUnlink s node.1 node.2) s

lemma Synced.pending (synced : Synced s) : Pending s [] := by
  refine ⟨synced.active, by rw [synced.root]; decide, synced.dirsOnly, ?_, ?_, fun h => absurd rfl h⟩
  · rw [synced.noDeletes, append_nil, append_nil]
    exact synced.tracks
  · rw [synced.noDeletes]
    exact Nat.zero_le 64

lemma Pending.unlinkAll (pending : Pending s lost) (nodes : List (List Nat × Nat)) : ∃ lost',
    Pending (unlinkAll s nodes) lost' ∧
    (inos (unlinkAll s nodes).tree.nodes).length + (unlinkAll s nodes).removed lost' = (inos s.tree.nodes).length + s.removed lost := by
  induction nodes generalizing s lost with
  | nil => exact ⟨lost, pending, rfl⟩
  | cons node nodes ih =>
    obtain ⟨lost₁, first, hFirst⟩ := pending.unlink node.1 node.2
    obtain ⟨lost₂, later, hLater⟩ := ih first
    exact ⟨lost₂, later, hLater.trans hFirst⟩

/-- Lost are the nodes with an inode number removed after the first 64. -/
lemma Synced.lost_iff (synced : Synced s) (nodes : List (List Nat × Nat)) : ∃ lost, Pending (unlinkAll s nodes) lost ∧
      (lost = [] ↔ (inos s.tree.nodes).length ≤ (inos (unlinkAll s nodes).tree.nodes).length + 64) := by
  obtain ⟨lost, pending, hCount⟩ := synced.pending.unlinkAll nodes
  refine ⟨lost, pending, ?_⟩
  unfold Mounted.removed at hCount
  rw [synced.noDeletes] at hCount
  simp only [length_nil, add_zero] at hCount
  have := pending.length
  constructor
  · rintro rfl
    rw [length_nil] at hCount
    omega
  · intro few
    by_contra hLost
    have hFull := pending.full hLost
    have := length_pos_of_ne_nil hLost
    omega

/-- After calls of `vfs_unlink` and a sync without allocation failure, nothing has leaked iff they
removed at most 64 nodes with an inode number. -/
theorem noLeak_iff (synced : Synced s) (nodes : List (List Nat × Nat))
    (ok : (blkfsSync (unlinkAll s nodes)).vol.failed = false) : NoLeak (blkfsSync (unlinkAll s nodes)) ↔
      (inos s.tree.nodes).length ≤ (inos (unlinkAll s nodes).tree.nodes).length + 64 := by
  obtain ⟨lost, pending, hLost⟩ := synced.lost_iff nodes
  rw [(pending.sync ok).noLeak_iff_lost, hLost]

def emptyFiles : Nat → Forest
  | 0 => .nil
  | n + 1 => .cons { name := text "f", kind := .file, ino := n + 2 } .nil (emptyFiles n)

def firstBits : Nat → Buffer
  | 0 => zeros
  | n + 1 => setBit (firstBits n) n true

/-- A volume with a root and `n` empty files in use. -/
def fullTree (n : Nat) : Mounted where
  vol := { oneGroup 900 1 with ibitmap := fun _ => firstBits (n + 1) }
  tree := { root := { name := text "/", kind := .dir, ino := rootIno }, child := emptyFiles n }

lemma getBit_firstBits (n i : Nat) : getBit (firstBits n) i = decide (i < n) := by
  induction n with
  | zero => exact getBit_zeros i
  | succ n ih =>
    rw [firstBits, getBit_setBit, ih]
    by_cases h : n = i
    · simp [h]
    · rw [if_neg h, decide_eq_decide]
      omega

lemma inos_emptyFiles (n : Nat) :
    (inos (emptyFiles n).nodes).Nodup ∧ ∀ a, a ∈ inos (emptyFiles n).nodes ↔ 2 ≤ a ∧ a ≤ n + 1 := by
  induction n with
  | zero =>
    refine ⟨nodup_nil, fun a => ?_⟩
    simp only [emptyFiles, nodes, inos, flatMap_nil, not_mem_nil, false_iff]
    omega
  | succ n ih =>
    have hNodes : inos (emptyFiles (n + 1)).nodes = (n + 2) :: inos (emptyFiles n).nodes := rfl
    rw [hNodes, nodup_cons]
    refine ⟨⟨fun h => ?_, ih.1⟩, fun a => ?_⟩
    · have := (ih.2 (n + 2)).mp h
      omega
    · rw [mem_cons, ih.2]
      omega

lemma emptyFiles_dirsOnly (n : Nat) : (emptyFiles n).DirsOnly := by
  induction n with
  | zero => trivial
  | succ n ih => exact ⟨fun _ => rfl, trivial, ih⟩

lemma inos_fullTree (n : Nat) : (inos (fullTree n).tree.nodes).Nodup ∧
    ∀ a, a ∈ inos (fullTree n).tree.nodes ↔ 1 ≤ a ∧ a ≤ n + 1 := by
  obtain ⟨distinct, mem⟩ := inos_emptyFiles n
  have hNodes : inos (fullTree n).tree.nodes = 1 :: inos (emptyFiles n).nodes := rfl
  rw [hNodes, nodup_cons]
  refine ⟨⟨fun h => ?_, distinct⟩, fun a => ?_⟩
  · have := (mem 1).mp h
    omega
  · rw [mem_cons, mem]
    omega

lemma rdInode_zeros (v : Volume) (disk : v.disk = fun _ => zeros) (a : Nat) : rdInode v a = {} := by
  have words : wordsAt zeros (inodeSlotOff a) = fun _ => 0 := rfl
  unfold rdInode rdBlk
  rw [disk, words]
  unfold Inode.ofWords
  congr 1 <;> funext i <;> exact ite_self 0

lemma fullTree_synced {n : Nat} (hn : n < inodesPerGroup) : Synced (fullTree n) := by
  obtain ⟨distinct, mem⟩ := inos_fullTree n
  have wf₀ : WellFormed (oneGroup 900 1) := oneGroup_wellFormed (by decide) le_rfl (by decide)
  have wf : WellFormed (fullTree n).vol := ⟨wf₀.layout, wf₀.small, wf₀.groups, wf₀.bits⟩
  have valid : ∀ a, ValidIno (fullTree n).vol a ↔ 1 ≤ a ∧ a ≤ inodesPerGroup := by
    intro a
    unfold ValidIno
    rw [show (fullTree n).vol.sb.totalGroups = 1 from rfl, one_mul]
  have free : ∀ x, IsData (fullTree n).vol x → bbit (fullTree n).vol x = false := by
    intro x hx
    obtain ⟨g, hg⟩ := isSome_iff_exists.mp (isData_iff.mp hx)
    unfold bbit
    rw [hg]
    exact getBit_zeros _
  have own : Own (fullTree n).vol (Files.inodes ⟨(fullTree n).vol, inos (fullTree n).tree.nodes⟩) :=
    Own.empty wf free fun a => by
      unfold Files.inodes
      rw [rdInode_zeros _ rfl, ite_self]
  refine ⟨rfl, rfl, emptyFiles_dirsOnly n, ⟨⟨wf, fun a ha => ?_, own⟩, distinct, fun a ha => ?_⟩, rfl⟩
  · have := (mem a).mp ha
    rw [valid]
    omega
  rw [valid] at ha
  rw [mem]
  change getBit (firstBits (n + 1)) (sub32 a 1 % inodesPerGroup) = true ↔ _
  rw [sub32_eq ha.1, getBit_firstBits, decide_eq_true_eq]
  unfold inodesPerGroup at *
  omega

theorem noLeak_of_one_unlink : NoLeak (blkfsSync (unlinkAll (fullTree 2) [([], 0)])) := by
  have trace : (blkfsSync (unlinkAll (fullTree 2) [([], 0)])).vol.failed = false := by decide +kernel
  exact (noLeak_iff (fullTree_synced (by decide)) _ trace).mpr (by decide)

/-- Of 65 deleted files the last one keeps its inode number for ever. -/
theorem sixty_five_unlinks_leak : ∃ s nodes, Synced s ∧ nodes.length = 65 ∧
    (blkfsSync (unlinkAll s nodes)).vol.failed = false ∧ ¬ NoLeak (blkfsSync (unlinkAll s nodes)) := by
  have synced : Synced (fullTree 65) := fullTree_synced (by decide)
  have ok : (blkfsSync (unlinkAll (fullTree 65) (replicate 65 ([], 0)))).vol.failed = false := by decide +kernel
  refine ⟨fullTree 65, replicate 65 ([], 0), synced, rfl, ok, ?_⟩
  obtain ⟨lost, pending, hLost⟩ := synced.lost_iff (replicate 65 ([], 0))
  rw [(pending.sync ok).noLeak_iff_lost, hLost]
  decide +kernel

end YartOS.Fs
