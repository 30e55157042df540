import YartOS.Fs.Erase
import YartOS.Fs.Mount

/-! Reading a file back: `mount_dir` finds in every inode the bytes of its last `persist_data`. -/
namespace YartOS.Fs

open Bytes Function

variable {v : Volume} {vol vol' : Volume} {ino ino' : Inode} {data buf : Buffer} {size : Nat}

def Holds (vol : Volume) (ino : Inode) (data : Buffer) (size : Nat) : Prop :=
  ∀ j < blocksFor size, ptr vol.disk ino (slotOf j) ≠ 0 ∧ vol.disk (ptr vol.disk ino (slotOf j)) = dataBlock data size j

lemma dataBlock_apply {b i : Nat} (small : size < 2 ^ 32 - blockSize) (hb : blockSize * b < size)
    (hi : i < min (size - blockSize * b) blockSize) : dataBlock data size b i = data (blockSize * b + i) := by
  have hOff : u32 (blockSize * b) = blockSize * b := u32_eq (by omega)
  unfold dataBlock copyTo
  simp only [hOff, sub32_eq (Nat.le_of_lt hb)]
  rw [if_pos (by omega), Nat.sub_zero]

def MappedTo (vol : Volume) (ino : Inode) (j : Nat) : Prop :=
  ∀ m ≤ j, m < mappedBlocks ∧ ptr vol.disk ino (slotOf m) ≠ 0

instance (vol : Volume) (ino : Inode) (j : Nat) : Decidable (MappedTo vol ino j) :=
  inferInstanceAs (Decidable (∀ m ≤ j, m < mappedBlocks ∧ ptr vol.disk ino (slotOf m) ≠ 0))

/-- The loop from block `b` on copies up to the first unmapped block. -/
lemma readBlocks_eq {fuel b : Nat} (enough : ino.size < blockSize * (b + fuel))
    (before : ∀ m < b, m < mappedBlocks ∧ ptr vol.disk ino (slotOf m) ≠ 0) (i : Nat) :
    (readBlocks vol ino fuel b (min (blockSize * b) ino.size) buf).1 i =
      if blockSize * b ≤ i ∧ i < ino.size ∧ MappedTo vol ino (i / blockSize) then
        vol.disk (ptr vol.disk ino (slotOf (i / blockSize))) (i % blockSize) else buf i := by
  induction fuel generalizing b buf with
  | zero =>
    rw [add_zero] at enough
    rw [readBlocks, if_neg (by omega)]
  | succ fuel ih =>
    rw [readBlocks]
    by_cases hEnd : ino.size ≤ blockSize * b
    · rw [if_pos (by omega), if_neg (by omega)]
    have hb : blockSize * b < ino.size := Nat.lt_of_not_le hEnd
    have hStart : min (blockSize * b) ino.size = blockSize * b := Nat.min_eq_left hb.le
    simp only [hStart, inodeGetBlock_reads, if_neg hEnd]
    by_cases hHere : b < mappedBlocks ∧ ptr vol.disk ino (slotOf b) ≠ 0
    · have hNext : blockSize * b + min (ino.size - blockSize * b) blockSize = min (blockSize * (b + 1)) ino.size := by
        rw [Nat.mul_succ]
        omega
      have through : ∀ m < b + 1, m < mappedBlocks ∧ ptr vol.disk ino (slotOf m) ≠ 0 := by
        intro m hm
        rcases Nat.lt_succ_iff_lt_or_eq.mp hm with h | rfl
        · exact before m h
        · exact hHere
      rw [if_pos hHere.1, if_neg hHere.2, hNext, ih (by rwa [Nat.add_right_comm, add_assoc] at *) through]
      by_cases hLater : blockSize * (b + 1) ≤ i ∧ i < ino.size ∧ MappedTo vol ino (i / blockSize)
      · rw [if_pos hLater, if_pos ⟨by omega, hLater.2⟩]
      rw [if_neg hLater]
      unfold copyTo
      by_cases hIn : blockSize * b ≤ i ∧ i < blockSize * (b + 1) ∧ i < ino.size
      · -- byte `i` is in this block
        have hBlock : i / blockSize = b := by
          unfold blockSize at *
          omega
        have hOff : i - blockSize * b = i % blockSize := by
          unfold blockSize at *
          omega
        have reached : MappedTo vol ino (i / blockSize) := fun m hm => through m (by omega)
        rw [if_pos (by omega), if_pos ⟨hIn.1, hIn.2.2, reached⟩, hBlock, hOff]
        rfl
      · rw [if_neg (by omega), if_neg]
        rintro ⟨hlo, hhi, reached⟩
        exact hLater ⟨by omega, hhi, reached⟩
    · -- the loop stops at a hole
      have hNone : (if b < mappedBlocks then ptr vol.disk ino (slotOf b) else 0) = 0 := by
        split_ifs with h
        · exact not_not.mp fun hne => hHere ⟨h, hne⟩
        · rfl
      rw [if_pos hNone, if_neg]
      rintro ⟨hlo, -, reached⟩
      exact hHere (reached b ((Nat.le_div_iff_mul_le (by decide)).mpr (by rwa [mul_comm])))

lemma readFile_eq {i : Nat} (hi : i < ino.size) :
    (readFile vol ino buf).1 i = if MappedTo vol ino (i / blockSize) then
      vol.disk (ptr vol.disk ino (slotOf (i / blockSize))) (i % blockSize) else buf i := by
  have enough : ino.size < blockSize * (0 + (ino.size / blockSize + 1)) := by
    unfold blockSize
    omega
  have := @readBlocks_eq vol ino buf _ 0 enough (fun m hm => absurd hm (Nat.not_lt_zero m)) i
  simp only [Nat.mul_zero, Nat.zero_min, zero_le, hi, true_and] at this
  exact this

lemma readFile_apply (small : size < 2 ^ 32 - blockSize) (hSize : ino.size = size)
    (holds : Holds vol ino data size) {i : Nat} (hi : i < size) :
    (readFile vol ino buf).1 i = data i := by
  have hCount : i / blockSize < blocksFor size := by
    unfold blocksFor
    rw [u32_eq (by omega)]
    unfold blockSize at *
    omega
  have hIn : blockSize * (i / blockSize) + i % blockSize = i := Nat.div_add_mod i blockSize
  have hOff : i % blockSize < blockSize := Nat.mod_lt i (by decide)
  have mapped : MappedTo vol ino (i / blockSize) := by
    intro m hm
    have hm : m < blocksFor size := Nat.lt_of_le_of_lt hm hCount
    exact ⟨lt_of_lt_of_le hm (blocksFor_le size), (holds m hm).1⟩
  rw [readFile_eq (hSize ▸ hi), if_pos mapped, (holds _ hCount).2, dataBlock_apply small (by omega) (by omega), hIn]

/-- The loop reads the size, the slots of the inode and the blocks in them. -/
lemma readBlocks_congr (hSize : ino'.size = ino.size)
    (slots : ∀ j < mappedBlocks, ptr vol'.disk ino' (slotOf j) = ptr vol.disk ino (slotOf j))
    (blocks : ∀ j < mappedBlocks, ptr vol.disk ino (slotOf j) ≠ 0 →
      vol'.disk (ptr vol.disk ino (slotOf j)) = vol.disk (ptr vol.disk ino (slotOf j)))
    (fuel b got : Nat) : readBlocks vol' ino' fuel b got buf = readBlocks vol ino fuel b got buf := by
  induction fuel generalizing b got buf with
  | zero => rfl
  | succ fuel ih =>
    rw [readBlocks, readBlocks, hSize]
    simp only [inodeGetBlock_reads]
    by_cases hIndex : b < mappedBlocks
    · rw [if_pos hIndex, if_pos hIndex, slots b hIndex]
      by_cases hMapped : ptr vol.disk ino (slotOf b) = 0
      · rw [if_pos hMapped, if_pos hMapped]
      · have hBlock : rdBlk vol' (ptr vol.disk ino (slotOf b)) =
            rdBlk vol (ptr vol.disk ino (slotOf b)) := blocks b hIndex hMapped
        rw [if_neg hMapped, if_neg hMapped, hBlock, ih]
    · rw [if_neg hIndex, if_neg hIndex]
      rfl

structure Saved where
  vol : Volume
  inodes : Nat → Inode := fun _ => {}

structure Write where
  ino : Nat
  data : Buffer
  size : Nat

def Write.Small (w : Write) : Prop := w.size < 2 ^ 32 - blockSize

namespace Saved

def persist (s : Saved) (w : Write) : Saved :=
  let r := persistData s.vol w.ino (s.inodes w.ino) w.data w.size
  { vol := r.2.2, inodes := update s.inodes w.ino r.2.1 }

def run (v : Volume) (ws : List Write) : Saved := ws.foldl persist { vol := v }

/-- What a mount reads, into memory that held `memory`. -/
def read (s : Saved) (memory : Buffer) (a : Nat) : Buffer := (readFile s.vol (s.inodes a) memory).1

def lastWrite (ws : List Write) (a : Nat) : Option Write := ws.reverse.find? fun w => w.ino = a

lemma run_concat (v : Volume) (ws : List Write) (w : Write) : run v (ws ++ [w]) = (run v ws).persist w := by
  unfold run
  rw [List.foldl_concat]

/-- The block map is consistent, and every inode holds the data of its last call. -/
structure Inv (s : Saved) (last : Nat → Option Write) : Prop where
  wellFormed : WellFormed s.vol
  own : Own s.vol s.inodes
  sizes : ∀ a w, last a = some w → w.Small ∧ (s.inodes a).size = w.size
  holds : ∀ a w, last a = some w → Holds s.vol (s.inodes a) w.data w.size

variable {s : Saved} {w : Write} {last : Nat → Option Write} {ws : List Write}

section

variable (wf : WellFormed s.vol) (own : Own s.vol s.inodes) (ok : (s.persist w).vol.failed = false)

include wf own ok

lemma persist_spec : ((s.persist w).inodes w.ino).size = w.size ∧
      Rewritten w.ino (blocksFor w.size) (dataBlock w.data w.size) s.vol s.inodes (s.persist w).vol
        (s.persist w).inodes := by
  have own₀ : Own s.vol (update s.inodes w.ino (s.inodes w.ino)) := by rwa [update_eq_self]
  unfold persist at ok ⊢
  rcases h : persistData s.vol w.ino (s.inodes w.ino) w.data w.size with ⟨done, ino', v'⟩
  rw [h] at ok
  obtain ⟨-, hSize, rewritten⟩ := persistData_spec wf own₀ h ok
  rw [update_eq_self] at rewritten
  refine ⟨?_, rewritten⟩
  change (update s.inodes w.ino ino' w.ino).size = w.size
  rw [update_self, hSize]

/-- The slots and blocks of the other inodes stay as they are. -/
lemma persist_others {c : Nat} (hc : c ≠ w.ino) : (s.persist w).inodes c = s.inodes c ∧
      ∀ j < mappedBlocks, ptr (s.persist w).vol.disk (s.inodes c) (slotOf j) =
          ptr s.vol.disk (s.inodes c) (slotOf j) ∧ (ptr s.vol.disk (s.inodes c) (slotOf j) ≠ 0 →
          (s.persist w).vol.disk (ptr s.vol.disk (s.inodes c) (slotOf j)) =
            s.vol.disk (ptr s.vol.disk (s.inodes c) (slotOf j))) := by
  have rewritten := (persist_spec wf own ok).2
  have hSame : (s.persist w).inodes c = s.inodes c := update_of_ne hc _ _
  refine ⟨hSame, fun j hj => ?_⟩
  obtain ⟨valid, leaf⟩ := slotOf_valid hj
  have hSlot := rewritten.others c (slotOf j) valid hc
  rw [hSame] at hSlot
  exact ⟨hSlot, rewritten.kept c (slotOf j) valid leaf hc⟩

lemma read_persist_of_ne {c : Nat} (hc : c ≠ w.ino) : (s.persist w).read buf c = s.read buf c := by
  obtain ⟨hSame, others⟩ := persist_others wf own ok hc
  unfold read readFile
  rw [hSame]
  rw [readBlocks_congr rfl (fun j hj => (others j hj).1) (fun j hj => (others j hj).2)]

end

lemma Inv.step (inv : s.Inv last) (small : w.Small) (ok : (s.persist w).vol.failed = false) :
    (s.persist w).Inv fun a => if w.ino = a then some w else last a := by
  obtain ⟨hSize, rewritten⟩ := persist_spec inv.wellFormed inv.own ok
  refine ⟨inv.wellFormed.of_dataOnly rewritten.same, rewritten.own, fun a w' h => ?_, fun a w' h => ?_⟩
  · by_cases ha : w.ino = a
    · rw [if_pos ha] at h
      cases h
      exact ⟨small, ha ▸ hSize⟩
    · rw [if_neg ha] at h
      rw [(persist_others inv.wellFormed inv.own ok (Ne.symm ha)).1]
      exact inv.sizes a w' h
  · by_cases ha : w.ino = a
    · rw [if_pos ha] at h
      cases h
      exact ha ▸ rewritten.stored
    rw [if_neg ha] at h
    obtain ⟨hSame, others⟩ := persist_others inv.wellFormed inv.own ok (Ne.symm ha)
    intro j hj
    obtain ⟨hMapped, hBlock⟩ := inv.holds a w' h j hj
    obtain ⟨hSlot, hKept⟩ := others j (lt_of_lt_of_le hj (blocksFor_le w'.size))
    rw [hSame, hSlot]
    exact ⟨hMapped, (hKept hMapped).trans hBlock⟩

lemma Inv.start (wf : WellFormed v) (empty : ∀ x, IsData v x → bbit v x = false) : Inv { vol := v } fun _ => none :=
  ⟨wf, .empty wf empty fun _ => rfl, nofun, nofun⟩

/-- The invariant holds after every sequence of calls in which no allocation fails. -/
lemma inv_run (wf : WellFormed v) (empty : ∀ x, IsData v x → bbit v x = false) (small : ∀ w ∈ ws, w.Small)
    (ok : (run v ws).vol.failed = false) : (run v ws).Inv (lastWrite ws) := by
  induction ws using List.reverseRecOn with
  | nil => exact Inv.start wf empty
  | append_singleton ws w ih =>
    rw [run_concat] at ok ⊢
    have before := ih (fun w' h => small w' (List.mem_append_left _ h)) ((DataOnly.persistData ..).failed ok)
    have after := before.step (small w (by simp)) ok
    have hLast : lastWrite (ws ++ [w]) = fun a => if w.ino = a then some w else lastWrite ws a :=
      funext fun a => by by_cases h : w.ino = a <;> simp [lastWrite, h]
    rwa [hLast]

/-- After calls without allocation failure, an inode reads as its last call wrote it, and a call
for another changes nothing. -/
theorem reads_lastWrite (wf : WellFormed v) (empty : ∀ x, IsData v x → bbit v x = false)
    (small : ∀ w ∈ ws, w.Small) (ok : (run v ws).vol.failed = false) :
    (∀ a w, lastWrite ws a = some w → ((run v ws).inodes a).size = w.size ∧
      ∀ memory, ∀ i < w.size, (run v ws).read memory a i = w.data i) ∧
    ∀ w : Write, (run v (ws ++ [w])).vol.failed = false → ∀ c ≠ w.ino,
      ((run v (ws ++ [w])).inodes c).size = ((run v ws).inodes c).size ∧
        ∀ memory, (run v (ws ++ [w])).read memory c = (run v ws).read memory c := by
  have inv := inv_run wf empty small ok
  constructor
  · intro a w h
    obtain ⟨hSmall, hSize⟩ := inv.sizes a w h
    exact ⟨hSize, fun _ i hi => readFile_apply hSmall hSize (inv.holds a w h) hi⟩
  · intro w ok' c hc
    rw [run_concat] at ok' ⊢
    rw [(persist_others inv.wellFormed inv.own ok' hc).1]
    exact ⟨rfl, fun _ => read_persist_of_ne inv.wellFormed inv.own ok' hc⟩

theorem reads_lastWrite_on_four_mebibytes : ∃ v ws, WellFormed v ∧ (∀ x, IsData v x → bbit v x = false)
    ∧ (∀ w ∈ ws, Write.Small w) ∧ ws.length = 3 ∧
    (run v ws).vol.failed = false ∧ ((run v ws).inodes 1).size = 100 ∧ (∀ memory, ∀ i < 100, (run v ws).read memory 1 i = 9)
    ∧ ∀ memory, ∀ i < 5000, (run v ws).read memory 2 i = 8 := by
  let ws : List Write := [⟨1, fun _ => 7, 60000⟩, ⟨2, fun _ => 8, 5000⟩, ⟨1, fun _ => 9, 100⟩]
  obtain ⟨wf, empty⟩ := fourMebibytes_ok
  have small : ∀ w ∈ ws, w.Small := by
    unfold Write.Small
    decide
  have ok : (run fourMebibytes ws).vol.failed = false := by decide +kernel
  obtain ⟨reads, -⟩ := reads_lastWrite wf empty small ok
  obtain ⟨hSize, first⟩ := reads 1 ⟨1, fun _ => 9, 100⟩ rfl
  exact ⟨_, ws, wf, empty, small, rfl, ok, hSize, first, (reads 2 ⟨2, fun _ => 8, 5000⟩ rfl).2⟩

end Saved

end YartOS.Fs
