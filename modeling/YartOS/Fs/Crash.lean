import YartOS.Fs.Erase
import YartOS.Fs.Mount

/-! A crash inside `blkfs_sync`, after a first part of its writes. The superblock is marked dirty
only after the tree. -/
namespace YartOS.Fs

open Bytes Function List Mounted Option

variable {s : Mounted} {vol v : Volume} {k : Nat}

/-- The bitmaps and the descriptors are not in block 0. -/
lemma flush_not_superblock (wf : WellFormed v) : WroteOn (· ≠ 0) v (wrGdt (flushBitmaps v)) := by
  refine (flush_wroteOn v).mono ?_
  rintro x ⟨p, flushed, hp⟩ rfl
  rw [wf.part_unique hp (WellFormed.superblock_holds v)] at flushed
  exact flushed

namespace Logged

lemma allocIno (v : Volume) : Logged v (allocIno v).2 := by
  unfold Fs.allocIno
  split
  · exact .of_eq rfl rfl rfl rfl
  · exact .of_eq rfl rfl rfl rfl

lemma persistNode (isRoot : Bool) (u : Vnode) (child : Forest) (v : Volume) :
    Logged v (persistNode isRoot u child v).2.2 := by
  have taken : Logged v (takeIno isRoot u v).2 := by
    unfold takeIno
    split_ifs
    · exact .refl v
    · exact .refl v
    · exact allocIno v
  unfold Fs.persistNode
  rcases hTake : takeIno isRoot u v with ⟨ino, v₁⟩
  rw [hTake] at taken
  have stored := (DataOnly.persistInode v₁ ino (decide (u.ino = 0)) u.attrs (u.contents child).1
    (u.contents child).2).logged
  rcases hPersist : persistInode v₁ ino (decide (u.ino = 0)) u.attrs (u.contents child).1
    (u.contents child).2 with ⟨done, v₂⟩
  rw [hPersist] at stored
  simp only [hPersist]
  split_ifs
  · exact taken
  · exact (taken.trans stored).trans (.of_eq rfl rfl rfl rfl)
  · exact taken.trans stored

lemma syncNode (isRoot childSynced : Bool) (u : Vnode) (child : Forest) (v : Volume) :
    Logged v (syncNode isRoot childSynced u child v).2.2 := by
  unfold Fs.syncNode
  simp only
  split_ifs
  · exact persistNode _ _ _ _
  · exact .refl v
  · exact persistNode _ _ _ _
  · exact .refl v

lemma syncForest (f : Forest) (v : Volume) : Logged v (syncForest f v).2.2 := by
  induction f generalizing v with
  | nil => exact .refl v
  | cons u child sibling ihChild ihSibling =>
    exact ((ihChild v).trans (syncNode false _ u _ _)).trans (ihSibling _)

lemma syncTree (t : Tree) (v : Volume) : Logged v (syncTree t v).2 :=
  (syncForest t.child v).trans (syncNode true _ t.root _ _)

lemma freeDeleted (v : Volume) : Logged v (freeDeleted v) := by
  have frees : ∀ (inos : List Nat) (w : Volume), Logged w
      (inos.foldl (fun vol ino => if ino = 0 then vol else Fs.inodeFree vol ino) w) := by
    intro inos
    induction inos with
    | nil => exact fun w => .refl w
    | cons ino inos ih =>
      intro w
      have first : Logged w (if ino = 0 then w else Fs.inodeFree w ino) := by
        split_ifs
        · exact .refl w
        · exact inodeFree w ino
      exact first.trans (ih _)
  exact (frees v.deleted v).trans (.of_eq rfl rfl rfl rfl)

end Logged

variable (s : Mounted)

def Mounted.written : Volume := (syncTree s.tree (freeDeleted s.vol)).2

def Mounted.syncWrites : List (Nat × Buffer) := (blkfsSync s).vol.writes.drop s.vol.writes.length

def Mounted.crashDisk (k : Nat) : Nat → Buffer := replay s.vol.disk (s.syncWrites.take k)

/-- What `blkfs_init` makes of a disk, on top of the tree `t`. -/
def mountsTo (env : Caller) (total : Nat) (t : Tree) (disk : Nat → Buffer) (depth : Nat) : Option Tree :=
  (blkfsInit depth env disk total t).map (·.1.tree)

/-- The crash is detected, or the disk mounts to the tree before or after the sync. -/
def CrashOk (k : Nat) (env : Caller) (total : Nat) (t : Tree) : Prop :=
  (rdSb (s.crashDisk k)).state = 1 ∨ mountsTo env total t (s.crashDisk k) = mountsTo env total t s.vol.disk ∨
    mountsTo env total t (s.crashDisk k) = mountsTo env total t (blkfsSync s).vol.disk

lemma wrState_writes (vol : Volume) (state : Nat) : ∃ buf, (wrState vol state).writes = vol.writes ++ [(0, buf)] ∧
      (wrState vol state).disk = update vol.disk 0 buf := ⟨_, rfl, rfl⟩

/-- The state that `wrState` leaves in block 0 is the one that is read back. -/
lemma rdSb_state {disk : Nat → Buffer} {state : Nat} (hState : state < 2 ^ 32)
    (h : disk 0 = (wrState vol state).disk 0) : (rdSb disk).state = state := by
  change wordsAt (disk 0) 0 14 = state
  rw [h, wrState, wrSb, wrBlk_disk, update_self, wordsAt, getU32_copyTo_of_inside (by unfold sizeofSb; omega)]
  change getU32 (packWords _) (4 * 14) = state
  rw [getU32_packWords]
  exact Nat.mod_eq_of_lt hState

lemma Mounted.written_logged : Logged s.vol s.written := (Logged.freeDeleted s.vol).trans (.syncTree s.tree _)

variable {s}

lemma Mounted.sync_vol (hActive : s.vol.active = true) :
    (blkfsSync s).vol = s.written ∨ (blkfsSync s).vol = flushMeta s.written := by
  unfold blkfsSync
  simp only [hActive, Bool.not_true, Bool.false_eq_true, if_false]
  split_ifs
  · exact .inl rfl
  · exact .inr rfl

lemma flushMeta_writes (v : Volume) : ∃ ws, (flushMeta v).writes = v.writes ++ ws := by
  obtain ⟨dirty, hDirty, _⟩ := wrState_writes v 1
  obtain ⟨mid, hMid, _⟩ := ((DiskOnly.flushBitmaps (wrState v 1)).trans (.wrGdt _)).2.writes
  obtain ⟨clean, hClean, _⟩ := wrState_writes (wrGdt (flushBitmaps (wrState v 1))) 0
  refine ⟨(0, dirty) :: (mid ++ [(0, clean)]), ?_⟩
  rw [flushMeta, hClean, hMid, hDirty]
  simp [append_assoc, cons_append, nil_append]

/-- A sync frees the deleted inodes before it writes anything else. -/
lemma Mounted.crashDisk_freeDeleted (hActive : s.vol.active = true)
    (hk : (freeDeleted s.vol).writes.length = s.vol.writes.length + k) : s.crashDisk k = (freeDeleted s.vol).disk := by
  obtain ⟨ws, hFreed, hDisk⟩ := (Logged.freeDeleted s.vol).writes
  obtain ⟨ws', hTree, _⟩ := (Logged.syncTree s.tree (freeDeleted s.vol)).writes
  obtain ⟨ws'', hMeta⟩ := flushMeta_writes s.written
  have hWritten : s.written.writes = s.vol.writes ++ (ws ++ ws') := by rw [written, hTree, hFreed, append_assoc]
  have hAll : ∃ rest, s.syncWrites = ws ++ rest := by
    cases sync_vol hActive with
    | inl h => exact ⟨ws', by rw [syncWrites, h, hWritten, drop_left]⟩
    | inr h =>
      refine ⟨ws' ++ ws'', ?_⟩
      rw [syncWrites, h, hMeta, hWritten]
      simp [append_assoc]
  obtain ⟨rest, hAll⟩ := hAll
  have hLength : k = ws.length := by
    rw [hFreed, length_append] at hk
    exact (Nat.add_left_cancel hk).symm
  rw [crashDisk, hAll, hLength, take_left, hDisk]

/-- A crash before the first write, or after the dirty mark, is detected or leaves one of the
trees. -/
theorem crashOk_of_marked (wf : WellFormed s.vol) (env : Caller) (total : Nat) (t : Tree)
    (hk : k = 0 ∨ s.written.writes.length - s.vol.writes.length < k) : CrashOk s k env total t := by
  -- the disk before, and the disk when all writes are done
  have unchanged : (s.syncWrites.take k = []) → CrashOk s k env total t := by
    intro h
    refine .inr (.inl ?_)
    rw [crashDisk, h]
    rfl
  have complete : s.crashDisk k = (blkfsSync s).vol.disk → CrashOk s k env total t := by
    intro h
    exact .inr (.inr (by rw [h]))
  cases hk with
  | inl hk => exact unchanged (by rw [hk, take_zero])
  | inr hk =>
    by_cases hActive : s.vol.active = true
    case neg =>
      have hSync : blkfsSync s = s := by
        unfold blkfsSync
        rw [if_pos (by simpa using hActive)]
      apply unchanged
      rw [syncWrites, hSync, drop_length, take_nil]
    obtain ⟨ws, hWrites, hDisk⟩ := s.written_logged.writes
    have hLength : ws.length < k := by
      rw [hWrites, length_append, Nat.add_sub_cancel_left] at hk
      exact hk
    cases sync_vol hActive with
    | inl hSync =>
      apply complete
      rw [crashDisk, syncWrites, hSync, hWrites, drop_left, take_of_length_le hLength.le, hDisk]
    | inr hSync =>
      have wfMarked : WellFormed (wrState s.written 1) := by
        obtain ⟨layout, small, groups, bits⟩ := wf
        rw [← s.written_logged.sb, ← s.written_logged.desc] at layout bits
        rw [← s.written_logged.sb] at small groups
        exact ⟨⟨layout.apart, layout.inside, layout.ordered, layout.crcRoom⟩, small, groups, bits⟩
      obtain ⟨mid, hMid, hMidDisk, hOn⟩ := flush_not_superblock wfMarked
      obtain ⟨dirty, hDirty, hDirtyDisk⟩ := wrState_writes s.written 1
      obtain ⟨clean, hClean, hCleanDisk⟩ := wrState_writes (wrGdt (flushBitmaps (wrState s.written 1))) 0
      have hAll : s.syncWrites = ws ++ (0, dirty) :: (mid ++ [(0, clean)]) := by
        rw [syncWrites, hSync, flushMeta, hClean, hMid, hDirty, hWrites]
        simp [append_assoc, cons_append, nil_append]
      by_cases hEnd : s.syncWrites.length ≤ k
      · apply complete
        rw [crashDisk, take_of_length_le hEnd, hAll, hSync, flushMeta, hCleanDisk,
          hMidDisk, hDirtyDisk, hDisk, replay_append]
        change replay (replay (replay s.vol.disk ws) [(0, dirty)]) (mid ++ [(0, clean)]) = _
        rw [replay_append]
        rfl
      left
      apply @rdSb_state s.written _ 1 (by decide)
      obtain ⟨j, rfl⟩ : ∃ j, k = ws.length + (j + 1) := ⟨k - ws.length - 1, by omega⟩
      rw [hAll] at hEnd
      simp only [length_append, length_cons, length_nil] at hEnd
      rw [crashDisk, hAll, take_length_add_append, take_succ_cons,
        take_append_of_le_length (by omega), replay_append, hDirtyDisk, update_self]
      change replay (update (replay s.vol.disk ws) 0 dirty) (mid.take j) 0 = dirty
      rw [replay_of_not_mem _ fun w hw => hOn w (mem_of_mem_take hw), update_self]

theorem crashOk_after_marking_root : ∃ s : Mounted, WellFormed s.vol ∧
    s.syncWrites.length = 6 ∧ (rdSb (s.crashDisk 2)).state = 1 ∧ CrashOk s 2 {} 1024 (vfsInit {} zeros 0) := by
  obtain ⟨s, hs⟩ : ∃ s : Mounted, s =
    { vol := fourMebibytes
      tree := { root := { mknode {} (text "/") .dir with dirty := true } } } := ⟨_, rfl⟩
  have trace : s.syncWrites.length = 6 ∧ s.written.writes.length - s.vol.writes.length < 2 ∧
      (rdSb (s.crashDisk 2)).state = 1 := by
    rw [hs]
    decide +kernel
  have hVol : s.vol = fourMebibytes := by rw [hs]
  have wf : WellFormed s.vol := hVol ▸ fourMebibytes_ok.1
  generalize vfsInit {} zeros 0 = t
  exact ⟨s, wf, trace.1, trace.2.2, crashOk_of_marked wf {} 1024 t (.inr trace.2.1)⟩

def oneFileDisk : Nat → Buffer :=
  let vol := iset (format { disk := fun _ => zeros } 1024) rootIno true
  let s : Mounted := { vol := vol, tree := { root := mknode {} (text "/") .dir } }
  let s := s.apply (.create {} [] (text "a") .file)
  let s := s.apply (.write {} [0] (fun _ => 120) 0 1)
  (s.apply .sync).vol.disk

def mountedMode (t : Tree) (disk : Nat → Buffer) : Option (Option Nat) :=
  (mountsTo {} 1024 t disk 2).map fun t => (t.find [13]).map (·.1.mode)

def cleared (disk : Nat → Buffer) : Nat → Buffer :=
  update disk 4 (copyTo (disk 4) 128 (packWords ({} : Inode).words) 128)

theorem crash_mounts_to_neither : ∃ s s' : Mounted,
    blkfsInit 2 {} oneFileDisk 1024 (vfsInit {} zeros 0) = some (s, false) ∧
    (rdSb s.vol.disk).state = 0 ∧ s' = s.apply (.unlink [] 13) ∧ ¬ CrashOk s' 1 {} 1024 (vfsInit {} zeros 0) := by
  obtain ⟨t, ht⟩ : ∃ t, t = vfsInit {} zeros 0 := ⟨_, rfl⟩
  have trace : ((blkfsInit 2 {} oneFileDisk 1024 t).bind fun r =>
      some (r.1.apply (.unlink [] 13)) |>.map fun s' =>
      decide (r.2 = false ∧ (rdSb r.1.vol.disk).state = 0 ∧
        s'.vol.active = true ∧ (freeDeleted s'.vol).writes.length = s'.vol.writes.length + 1 ∧
        s'.vol.deleted = [2] ∧ inodeBlock s'.vol 2 = 4 ∧
        (rdSb (cleared s'.vol.disk)).state = 0 ∧
        mountedMode t (cleared s'.vol.disk) = some (some 0) ∧
        mountedMode t s'.vol.disk = some (some 0o644) ∧
        mountedMode t (blkfsSync s').vol.disk = some none)) = some true := by
    rw [ht]
    decide +kernel
  rw [← ht]
  clear ht
  generalize oneFileDisk = disk at *
  simp only [bind_eq_some_iff, map_eq_some_iff, decide_eq_true_eq, some.injEq]
    at trace
  obtain ⟨⟨s, wild⟩, hMount, s', rfl, rfl, hClean, hActive, hOne, hDeleted, hBlock, hState, hCrash, hBefore, hAfter⟩ :=
    trace
  refine ⟨s, s.apply (.unlink [] 13), hMount, hClean, rfl, ?_⟩
  generalize s.apply (.unlink [] 13) = s' at *
  have hCleared : s'.crashDisk 1 = cleared s'.vol.disk := by
    rw [crashDisk_freeDeleted hActive hOne, freeDeleted, hDeleted]
    change (inodeFree s'.vol 2).disk = _
    rw [inodeFree_disk, wrInode, hBlock]
    rfl
  rw [← hCleared] at hState hCrash
  rintro (h | h | h)
  · rw [hState] at h
    cases h
  · have : mountedMode t (s'.crashDisk 1) = mountedMode t s'.vol.disk := by simp [mountedMode, h]
    rw [hCrash, hBefore] at this
    cases this
  · have : mountedMode t (s'.crashDisk 1) = mountedMode t (blkfsSync s').vol.disk := by simp [mountedMode, h]
    rw [hCrash, hAfter] at this
    cases this
end YartOS.Fs
