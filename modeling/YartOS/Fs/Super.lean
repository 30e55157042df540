import YartOS.Fs.Parts

/-! The superblock, the group descriptors and the bitmaps on disk, and `format`. -/
namespace YartOS.Fs

open Bytes List

variable {v v' v'' : Volume} {sb : Superblock} {desc : Nat → Gdesc} {total x : Nat}

def packGdescs (desc : Nat → Gdesc) : Buffer :=
  fun i => packWords (desc (i / sizeofGdesc)).words (i % sizeofGdesc)

section

variable (v : Volume)

def wrSb : Volume := wrBlk v 0 (copyTo zeros 0 (packWords v.sb.words) sizeofSb)

def wrGdt : Volume := wrBlk v 1 (copyTo zeros 0 (packGdescs v.desc) (v.sb.totalGroups * sizeofGdesc))

def flushGroup (g : Nat) : Volume :=
  wrBlk (wrBlk v (v.desc g).blockBitmap (v.bbitmap g)) (v.desc g).inodeBitmap (v.ibitmap g)

def flushBitmaps : Volume := (range v.sb.totalGroups).foldl flushGroup v

def clearBitmaps : Volume :=
  { v with
    bbitmap := fun g => if g < v.sb.totalGroups then zeros else v.bbitmap g
    ibitmap := fun g => if g < v.sb.totalGroups then zeros else v.ibitmap g }

def clearBlocks (first count : Nat) : Volume := (range count).foldl (fun v i => wrBlk v (first + i) zeros) v

/-- `total` is the size of the disk without the swap area, in blocks. -/
def format (total : Nat) : Volume :=
  match computeLayout v.sb total with
  | none => v
  | some (sb, desc) =>
    let v := clearBitmaps { v with sb := sb, desc := desc }
    let v := clearBlocks v sb.crcStart (u32 (sb.journalStart + sb.journalBlocks) - sb.crcStart)
    let v := { v with
      sb := { sb with magic := yfsMagic, version := yfsVersion, state := 0, mountCount := 0 } }
    { flushBitmaps (wrGdt (wrSb v)) with active := true }

end

/-- Only the disk changed, by the writes that were logged. -/
def DiskOnly (v v' : Volume) : Prop := v' = { v with disk := v'.disk, writes := v'.writes } ∧ Logged v v'

namespace DiskOnly

lemma refl (v : Volume) : DiskOnly v v := ⟨rfl, .refl v⟩

lemma trans (first : DiskOnly v v') (second : DiskOnly v' v'') : DiskOnly v v'' := by
  refine ⟨?_, first.2.trans second.2⟩
  rw [second.1, first.1]

lemma wrBlk (v : Volume) (b : Nat) (buf : Buffer) : DiskOnly v (wrBlk v b buf) := ⟨rfl, .wrBlk v b buf⟩

lemma foldl {f : Volume → Nat → Volume} (each : ∀ v i, DiskOnly v (f v i)) (l : List Nat)
    (v : Volume) : DiskOnly v (l.foldl f v) := by
  induction l generalizing v with
  | nil => exact refl v
  | cons i l ih => exact (each v i).trans (ih (f v i))

lemma wrSb (v : Volume) : DiskOnly v (wrSb v) := wrBlk _ _ _

lemma wrGdt (v : Volume) : DiskOnly v (wrGdt v) := wrBlk _ _ _

lemma flushGroup (v : Volume) (g : Nat) : DiskOnly v (flushGroup v g) := (wrBlk _ _ _).trans (wrBlk _ _ _)

lemma flushBitmaps (v : Volume) : DiskOnly v (flushBitmaps v) := foldl flushGroup _ v

lemma clearBlocks (v : Volume) (first count : Nat) : DiskOnly v (clearBlocks v first count) :=
  foldl (fun v i => wrBlk v (first + i) zeros) _ v

end DiskOnly

/-- The logged writes since `v` all go to blocks with the property. -/
def WroteOn (p : Nat → Prop) (v v' : Volume) : Prop :=
  ∃ ws, v'.writes = v.writes ++ ws ∧ v'.disk = replay v.disk ws ∧ ∀ w ∈ ws, p w.1

namespace WroteOn

variable {p : Nat → Prop}

lemma refl (v : Volume) : WroteOn p v v := ⟨[], by simp, rfl, by simp⟩

lemma trans (first : WroteOn p v v') (second : WroteOn p v' v'') : WroteOn p v v'' := by
  obtain ⟨ws, hWrites, hDisk, hOn⟩ := first
  obtain ⟨ws', hWrites', hDisk', hOn'⟩ := second
  refine ⟨ws ++ ws', ?_, ?_, ?_⟩
  · rw [hWrites', hWrites, append_assoc]
  · rw [hDisk', hDisk, replay_append]
  · intro w hw
    cases mem_append.mp hw with
    | inl h => exact hOn w h
    | inr h => exact hOn' w h

lemma wrBlk {b : Nat} (hb : p b) (v : Volume) (buf : Buffer) : WroteOn p v (wrBlk v b buf) :=
  ⟨[(b, buf)], rfl, rfl, by simpa using hb⟩

lemma mono {q : Nat → Prop} (h : WroteOn p v v') (imp : ∀ x, p x → q x) : WroteOn q v v' := by
  obtain ⟨ws, hWrites, hDisk, hOn⟩ := h
  exact ⟨ws, hWrites, hDisk, fun w hw => imp w.1 (hOn w hw)⟩

end WroteOn

lemma replay_of_not_mem {x : Nat} {ws : List (Nat × Buffer)} (disk : Nat → Buffer)
    (h : ∀ w ∈ ws, w.1 ≠ x) : replay disk ws x = disk x := by
  induction ws generalizing disk with
  | nil => rfl
  | cons w ws ih =>
    rw [forall_mem_cons] at h
    change replay (Function.update disk w.1 w.2) ws x = disk x
    rw [ih _ h.2, Function.update_of_ne h.1.symm]

lemma WroteOn.disk_eq {p : Nat → Prop} (h : WroteOn p v v') (hx : ¬ p x) : v'.disk x = v.disk x := by
  obtain ⟨ws, -, hDisk, hOn⟩ := h
  rw [hDisk]
  apply replay_of_not_mem
  rintro w hw rfl
  exact hx (hOn w hw)

def Part.Flushed : Part → Prop
  | .descriptors | .blockBitmap _ | .inodeBitmap _ => True
  | _ => False

lemma flush_wroteOn (v : Volume) :
    WroteOn (fun x => ∃ p : Part, p.Flushed ∧ p.Holds v x) v (wrGdt (flushBitmaps v)) := by
  have bitmaps : ∀ (l : List Nat) (w : Volume), (∀ g ∈ l, g < v.sb.totalGroups) → w.desc = v.desc →
      WroteOn (fun x => ∃ p : Part, p.Flushed ∧ p.Holds v x) w (l.foldl flushGroup w) := by
    intro l
    induction l with
    | nil => exact fun w _ _ => .refl w
    | cons g l ih =>
      intro w hl hDesc
      rw [forall_mem_cons] at hl
      have first : WroteOn (fun x => ∃ p : Part, p.Flushed ∧ p.Holds v x) w (flushGroup w g) := by
        refine (WroteOn.wrBlk ?_ _ _).trans (.wrBlk ?_ _ _)
        · rw [hDesc]
          exact ⟨.blockBitmap g, trivial, hl.1, le_rfl, Nat.lt_succ_self _⟩
        · rw [hDesc]
          exact ⟨.inodeBitmap g, trivial, hl.1, le_rfl, Nat.lt_succ_self _⟩
      exact first.trans (ih _ hl.2 ((DiskOnly.flushGroup w g).2.desc.trans hDesc))
  have flushed := bitmaps _ v (fun g hg => mem_range.mp hg) rfl
  exact flushed.trans (.wrBlk ⟨.descriptors, trivial, trivial, le_rfl, Nat.lt_succ_self _⟩ _ _)

/-- A formatted volume has the computed layout and empty bitmaps. -/
lemma format_eq (h : computeLayout v.sb total = some (sb, desc)) : format v total = { v with
      disk := (format v total).disk
      writes := (format v total).writes
      sb := { sb with magic := yfsMagic, version := yfsVersion, state := 0, mountCount := 0 }
      desc := desc
      bbitmap := fun g => if g < sb.totalGroups then zeros else v.bbitmap g
      ibitmap := fun g => if g < sb.totalGroups then zeros else v.ibitmap g
      active := true } := by
  unfold format
  rw [h]
  simp only
  have cleared := DiskOnly.clearBlocks (clearBitmaps { v with sb := sb, desc := desc }) sb.crcStart
    (u32 (sb.journalStart + sb.journalBlocks) - sb.crcStart)
  generalize clearBlocks _ _ _ = v₁ at *
  have written := fun w => ((DiskOnly.wrSb w).trans (.wrGdt _)).trans (.flushBitmaps _)
  rw [(written { v₁ with
    sb := { sb with magic := yfsMagic, version := yfsVersion, state := 0, mountCount := 0 } }).1]
  rw [cleared.1]
  rfl

lemma format_wellFormed (hTotal : total < 2 ^ 32) (h : computeLayout v.sb total = some (sb, desc))
    (room : RoomForCrc total) : WellFormed (format v total) := by
  have ok := (layoutOk_iff_room hTotal h).mpr room
  obtain ⟨last, tail, crcBlocks, geo⟩ := computeLayout_some hTotal h
  have hGroups := geo.totalGroups
  have hLast := geo.lastLt
  rw [format_eq h]
  refine ⟨⟨ok.apart, ok.inside, ok.ordered, ok.crcRoom⟩, ?_, ?_, fun g hg => ?_⟩
  · simp only [geo.totalBlocks]
    exact hTotal
  · simp only [hGroups, maxGroups]
    omega
  · simp only [hGroups] at hg
    simp only [geo.groups g (by omega), plainGroup, blockSize]
    omega

lemma format_blocks_free (h : computeLayout v.sb total = some (sb, desc))
    (hx : IsData (format v total) x) : bbit (format v total) x = false := by
  obtain ⟨g, hg⟩ := Option.isSome_iff_exists.mp (isData_iff.mp hx)
  have hIn := (groupOfDataBlock_some hg).1
  unfold bbit
  rw [hg]
  rw [format_eq h] at hIn ⊢
  simp [if_pos hIn, getBit_zeros]

def fourMebibytes : Volume := format { disk := fun _ => zeros } 1024

lemma fourMebibytes_ok : WellFormed fourMebibytes ∧ ∀ x, IsData fourMebibytes x → bbit fourMebibytes x = false := by
  obtain ⟨⟨sb, desc⟩, h⟩ := Option.isSome_iff_exists.mp (show (computeLayout {} 1024).isSome by decide)
  exact ⟨format_wellFormed (by decide) h (by unfold RoomForCrc; decide), fun x => format_blocks_free h⟩

end YartOS.Fs
