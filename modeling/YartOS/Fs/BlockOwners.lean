import YartOS.Fs.Erase
import YartOS.Fs.Super
import YartOS.Lib.Runs

/-! Runs of `persist_data` and `inode_free`: a data block is marked iff exactly one pointer of one
live inode refers to it. -/
namespace YartOS.Fs

open Bytes Runs Function

variable {v : Volume} {x : Nat}

structure Files where
  vol : Volume
  live : List Nat := []

inductive FileCall where
  | persist (ino : Nat) (attrs : Attrs) (data : Buffer) (size : Nat)
  | free (ino : Nat)

namespace Files

variable (s : Files)

/-- A number not in use starts from an empty inode, as for a new vnode. -/
def call : FileCall → Files
  | .persist ino attrs data size =>
    { vol := (persistInode s.vol ino (decide (ino ∉ s.live)) attrs data size).2
      live := if ino ∈ s.live then s.live else ino :: s.live }
  | .free ino => { vol := inodeFree s.vol ino, live := s.live.filter (· ≠ ino) }

/-- The inode number exists; only a number in use is freed. -/
def Allowed : FileCall → Prop
  | .persist ino _ _ _ => ValidIno s.vol ino
  | .free ino => ino ∈ s.live

def Step (c : FileCall) (s' : Files) : Prop := s.Allowed c ∧ s' = s.call c ∧ s'.vol.failed = false

def Refers (p : Nat × Slot) (x : Nat) : Prop := p.1 ∈ s.live ∧ p.2.Valid ∧ ptr s.vol.disk (rdInode s.vol p.1) p.2 = x

structure BlocksOwned (s : Files) : Prop where
  marked : ∀ x, IsData s.vol x → (bbit s.vol x = true ↔ ∃! p, s.Refers p x)
  unshared : ∀ x p q, x ≠ 0 → s.Refers p x → s.Refers q x → p = q
  inData : ∀ x p, x ≠ 0 → s.Refers p x → IsData s.vol x

def inodes (a : Nat) : Inode := if a ∈ s.live then rdInode s.vol a else {}

structure Inv (s : Files) : Prop where
  wellFormed : WellFormed s.vol
  valid : ∀ a ∈ s.live, ValidIno s.vol a
  own : Own s.vol s.inodes

variable {s s' : Files}

lemma refers_iff {p : Nat × Slot} (hx : x ≠ 0) : s.Refers p x ↔ p.2.Valid ∧ ptr s.vol.disk (s.inodes p.1) p.2 = x := by
  unfold Refers inodes
  by_cases hLive : p.1 ∈ s.live
  · simp [hLive, true_and]
  · simp only [hLive, false_and, if_false, ptr_empty, false_iff, not_and]
    exact fun _ h => hx h.symm

lemma Inv.blocksOwned (inv : s.Inv) : s.BlocksOwned := by
  have unshared : ∀ x p q, x ≠ 0 → s.Refers p x → s.Refers q x → p = q := by
    intro x p q hx hp hq
    rw [refers_iff hx] at hp hq
    have := inv.own.once p.1 p.2 q.1 q.2 hp.1 hq.1 (hp.2.trans hq.2.symm) (hp.2.trans_ne hx)
    exact Prod.ext this.1 this.2
  refine ⟨fun x hData => ?_, unshared, fun x p hx hp => ?_⟩
  · have hx : x ≠ 0 := fun h => inv.own.nonzero (h ▸ hData)
    rw [inv.own.bits x hData]
    constructor
    · rintro ⟨a, t, ht, h⟩
      have here : s.Refers (a, t) x := (refers_iff hx).mpr ⟨ht, h⟩
      exact ⟨(a, t), here, fun q hq => unshared x q _ hx hq here⟩
    · rintro ⟨p, hp, -⟩
      exact ⟨p.1, p.2, (refers_iff hx).mp hp⟩
  · rw [refers_iff hx] at hp
    have := inv.own.isData p.1 p.2 hp.1 (hp.2.trans_ne hx)
    rwa [hp.2] at this

lemma mem_live {ino b : Nat} : b ∈ (if ino ∈ s.live then s.live else ino :: s.live) ↔ b = ino ∨ b ∈ s.live := by
  split_ifs with h
  · constructor
    · exact .inr
    · rintro (rfl | hb)
      · exact h
      · exact hb
  · exact List.mem_cons

/-- Only the inode of the call is another, if no other table entry is touched. -/
lemma inodes_persist {ino : Nat} (attrs : Attrs) (data : Buffer) (size : Nat)
    (table : ∀ b ∈ s.live, b ≠ ino → rdInode (s.call (.persist ino attrs data size)).vol b = rdInode s.vol b) :
    (s.call (.persist ino attrs data size)).inodes =
      update s.inodes ino (rdInode (s.call (.persist ino attrs data size)).vol ino) := by
  funext b
  unfold inodes
  have hLive : b ∈ (s.call (.persist ino attrs data size)).live ↔ b = ino ∨ b ∈ s.live := mem_live
  simp only [hLive]
  by_cases hb : b = ino
  · rw [if_pos (.inl hb), hb, update_self]
  · rw [update_of_ne hb]
    simp only [hb, false_or]
    by_cases hbLive : b ∈ s.live
    · rw [if_pos hbLive, if_pos hbLive, table b hbLive hb]
    · rw [if_neg hbLive, if_neg hbLive]

lemma inodes_free {ino : Nat} (table : ∀ b ∈ s.live, b ≠ ino → rdInode (inodeFree s.vol ino) b = rdInode s.vol b) :
    (s.call (.free ino)).inodes = update s.inodes ino {} := by
  funext b
  unfold inodes call
  by_cases hb : b = ino
  · rw [hb, update_self, if_neg (by simp)]
  · rw [update_of_ne hb]
    by_cases hbLive : b ∈ s.live
    · rw [if_pos (by simp [hb, hbLive]), if_pos hbLive, table b hbLive hb]
    · rw [if_neg (by simp [hbLive]), if_neg hbLive]

lemma inodes_eq (s : Files) (ino : Nat) :
    s.inodes ino = if decide (ino ∉ s.live) then {} else rdInode s.vol ino := by
  unfold inodes
  by_cases hLive : ino ∈ s.live <;> simp [hLive]

lemma Inv.persist (inv : s.Inv) {ino : Nat} (ha : ValidIno s.vol ino) (attrs : Attrs) (data : Buffer)
    (size : Nat) (ok : (s.call (.persist ino attrs data size)).vol.failed = false) :
    (s.call (.persist ino attrs data size)).Inv := by
  unfold call at ok ⊢
  rcases hPersist : persistInode s.vol ino (decide (ino ∉ s.live)) attrs data size with ⟨done, v'⟩
  simp only [hPersist] at ok ⊢
  have persisted := persistInode_spec inv.wellFormed ha inv.own (s.inodes_eq ino) hPersist ok
  have valid : ∀ {b}, b = ino ∨ b ∈ s.live → ValidIno s.vol b := by
    rintro b (rfl | hb)
    · exact ha
    · exact inv.valid b hb
  refine ⟨inv.wellFormed.of_dataOnly persisted.same, fun b hb => ?_, ?_⟩
  · exact persisted.same.validIno (valid (mem_live.mp hb))
  · have hInodes := @inodes_persist s ino attrs data size
    simp only [call, hPersist] at hInodes
    rw [hInodes fun b hb hne => persisted.table b (inv.valid b hb) hne]
    exact persisted.own

lemma Inv.free (inv : s.Inv) {ino : Nat} (live : ino ∈ s.live) : (s.call (.free ino)).Inv := by
  have hNow : s.inodes ino = rdInode s.vol ino := if_pos live
  have erased := inodeFree_spec inv.wellFormed (inv.valid ino live) inv.own hNow
  have hSb : (inodeFree s.vol ino).sb = s.vol.sb := by rw [erased.rest]
  refine ⟨erased.wellFormed inv.wellFormed, fun b hb => ?_, ?_⟩
  · unfold ValidIno
    rw [call, hSb]
    exact inv.valid b (List.mem_filter.mp hb).1
  · rw [inodes_free fun b hb hne => erased.table b (inv.valid b hb) hne]
    exact erased.own

lemma Inv.step {c : FileCall} (inv : s.Inv) (last : s.Step c s') : s'.Inv := by
  obtain ⟨allowed, rfl, ok⟩ := last
  cases c with
  | persist ino attrs data size => exact inv.persist allowed attrs data size ok
  | free ino => exact inv.free allowed

lemma Inv.start (wf : WellFormed v) (empty : ∀ x, IsData v x → bbit v x = false) : Inv { vol := v } := by
  have none : ∀ a, ({ vol := v } : Files).inodes a = {} := fun a => if_neg List.not_mem_nil
  exact ⟨wf, by simp, .empty wf empty none⟩

/-- In every run without allocation failure, a data block is marked iff one pointer of one live
inode refers to it. -/
theorem blocksOwned_of_run (wf : WellFormed v) (empty : ∀ x, IsData v x → bbit v x = false)
    (run : Reaches Step { vol := v } s) : s.BlocksOwned := by
  apply Inv.blocksOwned
  apply run.invariant (Inv.start wf empty)
  intro s c s' inv last
  exact inv.step last

def secondFileLeft : Files :=
  let s : Files := { vol := fourMebibytes }
  let s := s.call (.persist 1 ⟨1, 0o644, 0, 0, 0⟩ (fun _ => 7) 5000)
  let s := s.call (.persist 2 ⟨1, 0o644, 0, 0, 0⟩ (fun _ => 8) 1)
  s.call (.free 1)

lemma reaches_secondFileLeft : Reaches Step { vol := fourMebibytes } secondFileLeft := by
  let first := FileCall.persist 1 ⟨1, 0o644, 0, 0, 0⟩ (fun _ => 7) 5000
  let second := FileCall.persist 2 ⟨1, 0o644, 0, 0, 0⟩ (fun _ => 8) 1
  let s₁ := call { vol := fourMebibytes } first
  have trace : fourMebibytes.sb.totalGroups = 1 ∧ s₁.vol.failed = false ∧
      s₁.vol.sb.totalGroups = 1 ∧ (s₁.call second).vol.failed = false ∧
      (s₁.call second).live = [2, 1] ∧ secondFileLeft.vol.failed = false := by
    decide +kernel
  obtain ⟨hGroups, ok₁, hGroups₁, ok₂, hLive₂, ok₃⟩ := trace
  refine .tail (.free 1) (.tail second (.tail first .refl ⟨?_, rfl, ok₁⟩) ⟨?_, rfl, ok₂⟩) ⟨?_, rfl, ok₃⟩
  · exact ⟨by decide, by rw [hGroups]; decide⟩
  · exact ⟨by decide, by rw [hGroups₁]; decide⟩
  · change 1 ∈ (s₁.call second).live
    decide

theorem blocksOwned_on_four_mebibytes : ∃ v s, WellFormed v ∧
    (∀ x, IsData v x → bbit v x = false) ∧ Reaches Step { vol := v } s ∧ s.live = [2] ∧
      bbit s.vol 36 = false ∧ bbit s.vol 38 = true ∧ s.BlocksOwned := by
  obtain ⟨wf, empty⟩ := fourMebibytes_ok
  obtain ⟨hLive, hFreed, hUsed⟩ : secondFileLeft.live = [2] ∧ bbit secondFileLeft.vol 36 = false ∧
      bbit secondFileLeft.vol 38 = true := by
    decide +kernel
  exact ⟨_, _, wf, empty, reaches_secondFileLeft, hLive, hFreed, hUsed,
    blocksOwned_of_run wf empty reaches_secondFileLeft⟩

end Files

end YartOS.Fs
