import YartOS.Blk.Virtio
import YartOS.Lib.Runs

/-! What the calls of the block driver that return 0 have done, whatever the device does. -/
namespace YartOS.Blk

open Bytes Runs Machine List Option

/-- A read that returned 0 has delivered its sectors, and such a write has stored its bytes and
nothing else. -/
def Finished.Kept (f : Finished) : Prop :=
  f.ok = true → match f.call with
    | .read sector count dst =>
      f.dst = copyTo dst 0 (fun i => f.after (sector.toNat * blkSectorSize + i)) (count.toNat * blkSectorSize)
    | .write sector count src =>
      f.after = copyTo f.before (sector.toNat * blkSectorSize) src (count.toNat * blkSectorSize)
    | .flush => True

def Machine.Kept (m : Machine) : Prop := ∀ f ∈ m.finished, f.Kept

def Phase.pending : Phase → Bool
  | .transferred _ => true
  | _ => false

structure Machine.Settled (m : Machine) : Prop where
  taken : m.taken = m.avail
  phase : m.phase.pending = false

instance (m : Machine) : Decidable m.Settled :=
  decidable_of_iff (m.taken = m.avail ∧ m.phase.pending = false) ⟨fun h => ⟨h.1, h.2⟩, fun h => ⟨h.taken, h.phase⟩⟩

/-- A call begins with nothing left of earlier ones, and its size fits 32 bits. -/
def Machine.Safe (m : Machine) : Event → Prop
  | .call c => m.Settled ∧ c.size < 2 ^ 32
  | _ => True

instance (m : Machine) : (e : Event) → Decidable (m.Safe e)
  | .call c => inferInstanceAs (Decidable (m.Settled ∧ c.size < 2 ^ 32))
  | .driver | .timeout | .transfer | .status | .advance | .interrupt => isTrue trivial

/-! One request. -/

/-- The bounce buffer has what is to be written. -/
def Copied (r : Running) (m : Machine) : Prop :=
  match r.call with
  | .write _ _ src => ∀ i < r.chunk, m.data i = src (r.off + i)
  | _ => True

def InRange (r : Running) (m : Machine) : Prop := r.header.sector + r.chunk / blkSectorSize ≤ m.capacity.toNat

def Effect (disk₀ : Buffer) (r : Running) (m : Machine) : Prop :=
  match r.call with
  | .read _ _ _ => InRange r m ∧ m.disk = disk₀ ∧ ∀ i < r.chunk, m.data i = disk₀ (r.header.sector * blkSectorSize + i)
  | .write _ _ src => InRange r m ∧ m.disk =
      copyTo disk₀ (r.header.sector * blkSectorSize) (fun i => src (r.off + i)) r.chunk
  | .flush => True

/-- A posted request: not taken, with its data moved, or answered. -/
inductive Served (disk₀ : Buffer) (r : Running) (m : Machine) : Prop where
  | posted (disk : m.disk = disk₀) (copied : Copied r m) (header : m.header = r.header)
      (status : m.status = 0xFF) (desc : m.desc = r.desc) (taken : m.taken + 1 = m.avail)
      (phase : m.phase.pending = false)
  | transferred (st : UInt8) (phase : m.phase = .transferred st) (taken : m.taken = m.avail)
      (status : m.status = 0xFF) (effect : st = 0 → Effect disk₀ r m)
  | answered (settled : m.Settled) (effect : m.status = 0 → Effect disk₀ r m)

def Stage (disk₀ : Buffer) (r : Running) (m : Machine) : Pc → Prop
  | .start => m.Settled ∧ m.disk = disk₀
  | .copied => m.Settled ∧ m.disk = disk₀ ∧ Copied r m
  | .headed => m.Settled ∧ m.disk = disk₀ ∧ Copied r m ∧ m.header = r.header
  | .reset => m.Settled ∧ m.disk = disk₀ ∧ Copied r m ∧ m.header = r.header ∧ m.status = 0xFF
  | .chained => m.Settled ∧ m.disk = disk₀ ∧ Copied r m ∧ m.header = r.header ∧ m.status = 0xFF ∧ m.desc = r.desc
  | .posted | .waiting | .harvested _ => Served disk₀ r m
  | .checked st => st = 0 → m.Settled ∧ Effect disk₀ r m

variable {disk₀ : Buffer} {r : Running} {m m' : Machine} {pc : Pc}

/-- The device carries out the request that the driver has prepared. -/
lemma transfer_served (disk : m.disk = disk₀) (copied : Copied r m) (header : m.header = r.header)
    (status : m.status = 0xFF) (desc : m.desc = r.desc) (taken : m.taken + 1 = m.avail) :
    Served disk₀ r m.transfer := by
  have hType : r.header.type = r.call.type := rfl
  cases hCall : r.call with
  | read sector count dst =>
    have hDesc : r.desc = .data r.chunk true := by rw [Running.desc, hCall]
    simp only [transfer, header, desc, hType, hDesc, hCall, Call.type]
    split_ifs with hRange
    · refine .transferred 0 rfl taken status fun _ => ?_
      rw [Effect, hCall]
      refine ⟨hRange, disk, fun i hi => ?_⟩
      rw [← disk]
      exact if_pos ⟨Nat.zero_le _, by omega⟩
    · exact .transferred 1 rfl taken status nofun
  | write sector count src =>
    have hDesc : r.desc = .data r.chunk false := by rw [Running.desc, hCall]
    rw [Copied, hCall] at copied
    simp only [transfer, header, desc, hType, hDesc, hCall, Call.type]
    split_ifs with hRange
    · refine .transferred 0 rfl taken status fun _ => ?_
      rw [Effect, hCall, ← disk]
      exact ⟨hRange, copyTo_congr copied⟩
    · exact .transferred 1 rfl taken status nofun
  | flush =>
    have hDesc : r.desc = .status := by rw [Running.desc, hCall]
    simp only [transfer, header, desc, hType, hDesc, hCall, Call.type]
    refine .transferred 0 rfl taken status fun _ => ?_
    rw [Effect, hCall]
    trivial

def Event.outside : Event → Bool
  | .transfer | .status | .advance | .interrupt => true
  | _ => false

structure Aside (m m' : Machine) : Prop where
  running : m'.running = m.running
  finished : m'.finished = m.finished
  capacity : m'.capacity = m.capacity

lemma transfer_aside (m : Machine) : Aside m m.transfer := by
  unfold transfer
  dsimp only
  split
  · split <;> exact ⟨rfl, rfl, rfl⟩
  · split <;> exact ⟨rfl, rfl, rfl⟩
  · exact ⟨rfl, rfl, rfl⟩
  · exact ⟨rfl, rfl, rfl⟩

lemma Effect.of_eq (h : Effect disk₀ r m) (disk : m'.disk = m.disk) (data : m'.data = m.data)
    (capacity : m'.capacity = m.capacity) : Effect disk₀ r m' := by
  unfold Effect InRange at *
  rw [disk, data, capacity]
  exact h

lemma Stage.transfer (h : Stage disk₀ r m pc) (more : m.taken ≠ m.avail) : Stage disk₀ r m.transfer pc := by
  have hServed : Served disk₀ r m → Served disk₀ r m.transfer := by
    intro h
    cases h with
    | posted disk copied header status desc taken _ =>
      exact transfer_served disk copied header status desc taken
    | transferred st _ taken => exact absurd taken more
    | answered settled => exact absurd settled.taken more
  cases pc with
  | start | copied | headed | reset | chained => exact absurd h.1.taken more
  | posted | waiting | harvested => exact hServed h
  | checked st => exact fun hZero => absurd (h hZero).1.taken more

lemma Stage.status (h : Stage disk₀ r m pc) {st : UInt8} (phase : m.phase = .transferred st) :
    Stage disk₀ r { m with status := st, phase := .answered } pc := by
  have hNot : ¬ m.Settled := by
    intro hSettled
    have hPending := hSettled.phase
    rw [phase] at hPending
    cases hPending
  have hServed : Served disk₀ r m → Served disk₀ r { m with status := st, phase := .answered } := by
    intro h
    cases h with
    | posted _ _ _ _ _ _ pending =>
      rw [phase] at pending
      cases pending
    | transferred st' phase' taken status effect =>
      cases phase.symm.trans phase'
      exact .answered ⟨taken, rfl⟩ fun hZero => (effect hZero).of_eq rfl rfl rfl
    | answered settled => exact absurd settled hNot
  cases pc with
  | start | copied | headed | reset | chained => exact absurd h.1 hNot
  | posted | waiting | harvested => exact hServed h
  | checked st => exact fun hZero => absurd (h hZero).1 hNot

/-- What a request does not depend on: used index, interrupt flag, call records. -/
structure Beside (m m' : Machine) : Prop where
  disk : m'.disk = m.disk
  data : m'.data = m.data
  header : m'.header = m.header
  desc : m'.desc = m.desc
  status : m'.status = m.status
  taken : m'.taken = m.taken
  avail : m'.avail = m.avail
  capacity : m'.capacity = m.capacity
  phase : m'.phase = m.phase ∨ m.phase = .answered ∧ m'.phase = .idle

section

variable (b : Beside m m')

include b

lemma Beside.settled (h : m.Settled) : m'.Settled := by
  refine ⟨by rw [b.taken, b.avail, h.taken], ?_⟩
  rcases b.phase with same | ⟨-, idle⟩
  · rw [same]
    exact h.phase
  · rw [idle]
    rfl

lemma Beside.copied (h : Copied r m) : Copied r m' := by
  unfold Copied at *
  rw [b.data]
  exact h

lemma Beside.effect (h : Effect disk₀ r m) : Effect disk₀ r m' := h.of_eq b.disk b.data b.capacity

lemma Beside.served (h : Served disk₀ r m) : Served disk₀ r m' := by
  cases h with
  | posted disk copied header status desc taken phase =>
    refine .posted (b.disk.trans disk) (b.copied copied) (b.header.trans header)
      (b.status.trans status) (b.desc.trans desc) (by rw [b.taken, b.avail, taken]) ?_
    rcases b.phase with same | ⟨-, idle⟩
    · rw [same]
      exact phase
    · rw [idle]
      rfl
  | transferred st phase taken status effect =>
    refine .transferred st ?_ (by rw [b.taken, b.avail, taken]) (b.status.trans status)
      fun hZero => b.effect (effect hZero)
    rcases b.phase with same | ⟨answered, -⟩
    · rw [same, phase]
    · rw [phase] at answered
      cases answered
  | answered settled effect =>
    exact .answered (b.settled settled) fun hZero => b.effect (effect (b.status ▸ hZero))

lemma Beside.stage (h : Stage disk₀ r m pc) : Stage disk₀ r m' pc := by
  cases pc with
  | start => exact ⟨b.settled h.1, b.disk.trans h.2⟩
  | copied => exact ⟨b.settled h.1, b.disk.trans h.2.1, b.copied h.2.2⟩
  | headed =>
    obtain ⟨settled, disk, copied, header⟩ := h
    exact ⟨b.settled settled, b.disk.trans disk, b.copied copied, b.header.trans header⟩
  | reset =>
    obtain ⟨settled, disk, copied, header, status⟩ := h
    exact ⟨b.settled settled, b.disk.trans disk, b.copied copied, b.header.trans header, b.status.trans status⟩
  | chained =>
    obtain ⟨settled, disk, copied, header, status, desc⟩ := h
    exact ⟨b.settled settled, b.disk.trans disk, b.copied copied, b.header.trans header,
      b.status.trans status, b.desc.trans desc⟩
  | posted | waiting | harvested => exact b.served h
  | checked st => exact fun hZero => ⟨b.settled (h hZero).1, b.effect (h hZero).2⟩

end

/-- The device and its interrupt leave the driver and its request in order. -/
lemma Stage.outside {e : Event} (out : e.outside = true) (step : m.step e = some m') :
    Aside m m' ∧ (Stage disk₀ r m pc → Stage disk₀ r m' pc) := by
  cases e with
  | call | driver | timeout => cases out
  | transfer =>
    obtain ⟨⟨-, more⟩, rfl⟩ := ite_none_right_eq_some.mp step |>.imp_right some.inj
    exact ⟨transfer_aside m, fun h => h.transfer more⟩
  | status =>
    cases hPhase : m.phase with
    | idle | answered =>
      simp only [Machine.step, hPhase] at step
      cases step
    | transferred st =>
      simp only [Machine.step, hPhase] at step
      cases step
      exact ⟨⟨rfl, rfl, rfl⟩, fun h => h.status hPhase⟩
  | advance =>
    obtain ⟨hPhase, rfl⟩ := ite_none_right_eq_some.mp step |>.imp_right some.inj
    exact ⟨⟨rfl, rfl, rfl⟩, Beside.stage ⟨rfl, rfl, rfl, rfl, rfl, rfl, rfl, rfl, .inr ⟨hPhase, rfl⟩⟩⟩
  | interrupt =>
    cases step
    exact ⟨⟨rfl, rfl, rfl⟩, Beside.stage ⟨rfl, rfl, rfl, rfl, rfl, rfl, rfl, rfl, .inl rfl⟩⟩

/-! A whole call. -/

/-- What the requests before `off` have done; `disk₀` is the disk they left. -/
structure Progress (disk₀ : Buffer) (r : Running) (m : Machine) : Prop where
  within : 0 < r.off → r.call.sector + r.off / blkSectorSize ≤ m.capacity.toNat
  done : match r.call with
    | .read sector _ dst => disk₀ = r.before ∧
        r.dst = copyTo dst 0 (fun i => r.before (sector.toNat * blkSectorSize + i)) r.off
    | .write sector _ src => disk₀ = copyTo r.before (sector.toNat * blkSectorSize) src r.off
    | .flush => True

/-- A call in progress. Beyond `2 ^ 32 - 4096` bytes `off` wraps, and it never returns 0. -/
structure InProgress (r : Running) (pc : Pc) (m : Machine) : Prop where
  size : r.call.size < 2 ^ 32
  aligned : r.off % pageSize = 0
  off : r.off < 2 ^ 32
  more : r.call.type ≠ .tFlush → r.off < r.bytes
  request : ∃ disk₀, Stage disk₀ r m pc ∧ (r.bytes ≤ 2 ^ 32 - pageSize → Progress disk₀ r m)

/-- Calls that returned 0 are right, and the one in progress is on its way. -/
structure Inv (m : Machine) : Prop where
  kept : m.Kept
  running : ∀ r pc, m.running = some (r, pc) → InProgress r pc m

variable {pc' : Pc}

lemma Inv.goOn (kept : m.Kept) (h : InProgress r pc (m.goOn r pc)) : Inv (m.goOn r pc) := by
  refine ⟨kept, fun r' pc' hr => ?_⟩
  cases hr
  exact h

lemma Inv.finish (kept : m.Kept) {ok : Bool}
    (h : Finished.Kept ⟨r.call, r.before, m.disk, r.dst, ok⟩) : Inv (m.finish r ok) := by
  refine ⟨fun f hf => ?_, nofun⟩
  rcases mem_append.mp hf with hf | hf
  · exact kept f hf
  · rw [mem_singleton.mp hf]
    exact h

lemma Inv.fail (kept : m.Kept) : Inv (m.finish r false) := .finish kept nofun

/-- The next step within a request. -/
lemma InProgress.goOn (h : InProgress r pc m) (capacity : m'.capacity = m.capacity)
    (stage : ∀ disk₀, Stage disk₀ r m pc → Stage disk₀ r m' pc') : InProgress r pc' (m'.goOn r pc') := by
  obtain ⟨disk₀, hStage, hProgress⟩ := h.request
  refine ⟨h.size, h.aligned, h.off, h.more, disk₀, ?_, fun hBytes => ?_⟩
  · have hBeside : Beside m' (m'.goOn r pc') := ⟨rfl, rfl, rfl, rfl, rfl, rfl, rfl, rfl, .inl rfl⟩
    exact hBeside.stage (stage disk₀ hStage)
  · obtain ⟨within, done⟩ := hProgress hBytes
    exact ⟨fun hPos => (within hPos).trans_eq (congrArg UInt64.toNat capacity.symm), done⟩

lemma Call.sector_lt (c : Call) : c.sector < 2 ^ 64 := by
  cases c with
  | read sector => exact sector.toNat_lt
  | write sector => exact sector.toNat_lt
  | flush => exact Nat.two_pow_pos 64

/-- The sector of the request has not wrapped around. -/
lemma Progress.header_sector (h : Progress disk₀ r m) (aligned : r.off % pageSize = 0) :
    r.header.sector * blkSectorSize = r.call.sector * blkSectorSize + r.off := by
  have hSector := r.call.sector_lt
  have hCapacity := m.capacity.toNat_lt
  have hLt : r.call.sector + r.off / blkSectorSize < 2 ^ 64 := by
    rcases Nat.eq_zero_or_pos r.off with hZero | hPos
    · rw [hZero, Nat.zero_div, add_zero]
      exact hSector
    · have hWithin := h.within hPos
      omega
  have hHeader : r.header.sector = r.call.sector + r.off / blkSectorSize := Nat.mod_eq_of_lt hLt
  rw [hHeader]
  unfold pageSize at aligned
  unfold blkSectorSize
  omega

structure Advanced (r : Running) (m : Machine) : Prop where
  within : r.call.type ≠ .tFlush → r.call.sector + (r.off + r.chunk) / blkSectorSize ≤ m.capacity.toNat
  done : match r.call with
    | .read sector _ dst => m.disk = r.before ∧ copyTo r.dst r.off m.data r.chunk =
          copyTo dst 0 (fun i => r.before (sector.toNat * blkSectorSize + i)) (r.off + r.chunk)
    | .write sector _ src =>
      m.disk = copyTo r.before (sector.toNat * blkSectorSize) src (r.off + r.chunk)
    | .flush => True

lemma Progress.advance (h : Progress disk₀ r m) (aligned : r.off % pageSize = 0)
    (effect : Effect disk₀ r m) : Advanced r m := by
  have hSector := h.header_sector aligned
  have hDone := h.done
  unfold Effect InRange at effect
  constructor
  · intro hType
    have hRange : r.header.sector + r.chunk / blkSectorSize ≤ m.capacity.toNat := by
      cases hCall : r.call with
      | read => simp only [hCall] at effect; exact effect.1
      | write => simp only [hCall] at effect; exact effect.1
      | flush => exact absurd (congrArg Call.type hCall) hType
    unfold blkSectorSize at *
    omega
  · cases hCall : r.call with
    | read sector count dst =>
      simp only [hCall] at effect hDone hSector
      obtain ⟨-, hDisk, hData⟩ := effect
      obtain ⟨rfl, hDst⟩ := hDone
      refine ⟨hDisk, ?_⟩
      rw [← copyTo_copyTo, zero_add, ← hDst]
      refine copyTo_congr fun i hi => (hData i hi).trans (congrArg r.before ?_)
      rw [hSector, Call.sector]
      omega
    | write sector count src =>
      simp only [hCall] at effect hDone hSector
      rw [effect.2, hDone, hSector]
      exact copyTo_copyTo
    | flush => trivial

/-- A call whose last request has succeeded. -/
lemma Advanced.kept (h : Advanced r m) (size : r.call.size < 2 ^ 32)
    (last : r.call.type ≠ .tFlush → r.off + r.chunk = r.bytes) {dst' : Buffer}
    (hDst : ∀ sector count dst, r.call = .read sector count dst → dst' = copyTo r.dst r.off m.data r.chunk) :
    Finished.Kept ⟨r.call, r.before, m.disk, dst', true⟩ := by
  intro _
  have hDone := h.done
  have hBytes : r.bytes = r.call.size := Nat.mod_eq_of_lt size
  cases hCall : r.call with
  | read sector count dst =>
    have hLast := last (by rw [hCall]; exact nofun)
    simp only [hCall] at hDone ⊢
    rw [hDst sector count dst hCall, hDone.2, hLast, hBytes, hCall, hDone.1, Call.size]
  | write sector count src =>
    have hLast := last (by rw [hCall]; exact nofun)
    simp only [hCall] at hDone ⊢
    rw [hDone, hLast, hBytes, hCall, Call.size]
  | flush => trivial

lemma next_eq (r : Running) (dst' : Buffer) : m.next { r with dst := dst' } = if (r.off + 4096) % 2 ^ 32 < r.bytes then
      m.goOn { r with dst := dst', off := (r.off + 4096) % 2 ^ 32 } .start
    else m.finish { r with dst := dst' } true := rfl

lemma Running.bytes_of_flush (h : r.call.type = .tFlush) : r.bytes = 0 := by
  cases hCall : r.call with
  | read | write =>
    rw [hCall] at h
    cases h
  | flush =>
    rw [Running.bytes, hCall]
    rfl

/-- The loop after a request that succeeded; `dst'` has what the request has read. -/
lemma Inv.next {dst' : Buffer} (kept : m.Kept) (h : InProgress r pc m) (settled : m.Settled)
    (hDst : ∀ sector count dst, r.call = .read sector count dst →
      dst' = copyTo r.dst r.off m.data r.chunk) (advanced : r.bytes ≤ 2 ^ 32 - pageSize → Advanced r m) :
    Inv (m.next { r with dst := dst' }) := by
  have hAligned := h.aligned
  unfold pageSize at hAligned advanced
  rw [next_eq]
  split_ifs with hMore
  · refine .goOn kept ⟨h.size, ?_, Nat.mod_lt _ (Nat.two_pow_pos 32), fun _ => hMore, m.disk,
      ⟨⟨settled.taken, settled.phase⟩, rfl⟩, fun hSmall => ?_⟩
    · change (r.off + 4096) % 2 ^ 32 % 4096 = 0
      omega
    change r.bytes ≤ 2 ^ 32 - 4096 at hSmall
    obtain ⟨within, done⟩ := advanced hSmall
    have hNotFlush : r.call.type ≠ .tFlush := fun hFlush => by
      rw [Running.bytes_of_flush hFlush] at hMore
      exact Nat.not_lt_zero _ hMore
    have hNext : r.off + r.chunk = (r.off + 4096) % 2 ^ 32 := by
      have hNow := h.more hNotFlush
      unfold Running.chunk pageSize
      split <;> omega
    rw [hNext] at within done
    refine ⟨fun _ => within hNotFlush, ?_⟩
    cases hCall : r.call with
    | read sector count dst =>
      simp only [hCall] at done ⊢
      exact ⟨done.1, (hDst sector count dst hCall).trans done.2⟩
    | write sector count src =>
      simp only [hCall] at done ⊢
      exact done
    | flush => trivial
  · refine .finish kept ((advanced (by omega)).kept h.size (fun hType => ?_) hDst)
    have hNow := h.more hType
    unfold Running.chunk pageSize
    split <;> omega

lemma Inv.conclude (kept : m.Kept) {st : UInt8} (h : InProgress r (.checked st) m) : Inv (m.conclude r st) := by
  unfold Machine.conclude
  split_ifs with hZero
  · exact .fail kept
  obtain ⟨disk₀, hStage, hProgress⟩ := h.request
  obtain ⟨settled, effect⟩ := hStage (not_not.mp hZero)
  have hAdvanced := fun hBytes => (hProgress hBytes).advance h.aligned effect
  split
  · exact .next kept h settled (fun _ _ _ _ => rfl) hAdvanced
  · rename_i hCall
    exact @Inv.next r m _ r.dst kept h settled (fun _ _ _ hRead => (hCall _ _ _ hRead).elim) hAdvanced

lemma Inv.drive (inv : Inv m) (hr : m.running = some (r, pc)) : Inv (m.drive r pc) := by
  have kept := inv.kept
  have h := inv.running r pc hr
  cases pc with
  | start =>
    rw [drive]
    split
    · exact .fail kept
    cases hCall : r.call with
    | read | flush =>
      refine .goOn kept (h.goOn rfl fun disk₀ hStage => ⟨hStage.1, hStage.2, ?_⟩)
      rw [Copied, hCall]
      trivial
    | write sector count src =>
      refine .goOn kept (h.goOn rfl fun disk₀ hStage => ⟨⟨hStage.1.taken, hStage.1.phase⟩, hStage.2, ?_⟩)
      rw [Copied, hCall]
      exact fun i hi => if_pos ⟨Nat.zero_le i, by omega⟩
  | copied =>
    exact .goOn kept (h.goOn rfl fun disk₀ ⟨settled, disk, copied⟩ =>
      ⟨⟨settled.taken, settled.phase⟩, disk, copied, rfl⟩)
  | headed =>
    exact .goOn kept (h.goOn rfl fun disk₀ ⟨settled, disk, copied, header⟩ =>
      ⟨⟨settled.taken, settled.phase⟩, disk, copied, header, rfl⟩)
  | reset =>
    exact .goOn kept (h.goOn rfl fun disk₀ ⟨settled, disk, copied, header, status⟩ =>
      ⟨⟨settled.taken, settled.phase⟩, disk, copied, header, status, rfl⟩)
  | chained =>
    exact .goOn kept (h.goOn rfl fun disk₀ ⟨settled, disk, copied, header, status, desc⟩ =>
      .posted disk copied header status desc (congrArg (· + 1) settled.taken) settled.phase)
  | posted =>
    have hBeside : Beside m { m with ioDone := false } := ⟨rfl, rfl, rfl, rfl, rfl, rfl, rfl, rfl, .inl rfl⟩
    exact .goOn kept (h.goOn rfl fun disk₀ hStage => hBeside.served hStage)
  | waiting =>
    rw [drive]
    split
    · exact inv
    · have hBeside : Beside m { m with lastUsed := m.used } := ⟨rfl, rfl, rfl, rfl, rfl, rfl, rfl, rfl, .inl rfl⟩
      exact .goOn kept (h.goOn rfl fun disk₀ hStage => hBeside.served hStage)
  | harvested fresh =>
    refine .goOn kept (h.goOn rfl fun disk₀ (hStage : Served disk₀ r m) hZero => ?_)
    cases fresh with
    | false => cases hZero
    | true =>
      cases hStage with
      | posted _ _ _ status | transferred _ _ _ status =>
        rw [if_pos rfl, status] at hZero
        cases hZero
      | answered settled effect => exact ⟨settled, effect hZero⟩
  | checked st => exact .conclude kept h

/-- A call that begins when nothing is left of the calls before it. -/
lemma Inv.begin (kept : m.Kept) (settled : m.Settled) {c : Call} (size : c.size < 2 ^ 32) : Inv (m.begin c) := by
  have hAligned : 0 % pageSize = 0 := Nat.zero_mod _
  have hFew : ∀ r : Running, r.call = c → r.off = 0 → ¬ r.off < r.bytes → c.size = 0 := by
    rintro r rfl hZero hMore
    rw [Running.bytes, Nat.mod_eq_of_lt size] at hMore
    omega
  cases c with
  | read sector count dst =>
    rw [Machine.begin]
    split_ifs with hMore
    · refine .goOn kept ⟨size, hAligned, Nat.two_pow_pos 32, fun _ => hMore, m.disk,
        ⟨⟨settled.taken, settled.phase⟩, rfl⟩, fun _ => ⟨nofun, rfl, copyTo_zero.symm⟩⟩
    · have hZero : count.toNat * blkSectorSize = 0 := hFew _ rfl rfl hMore
      refine .finish kept fun _ => ?_
      change dst = copyTo dst 0 _ (count.toNat * blkSectorSize)
      rw [hZero, copyTo_zero]
  | write sector count src =>
    simp only [Machine.begin]
    split_ifs with hMore
    · exact .goOn kept ⟨size, hAligned, Nat.two_pow_pos 32, fun _ => hMore, m.disk,
        ⟨⟨settled.taken, settled.phase⟩, rfl⟩, fun _ => ⟨nofun, copyTo_zero.symm⟩⟩
    · have hZero : count.toNat * blkSectorSize = 0 := hFew ⟨_, m.disk, zeros, 0⟩ rfl rfl hMore
      refine .finish kept fun _ => ?_
      change m.disk = copyTo m.disk _ src (count.toNat * blkSectorSize)
      rw [hZero, copyTo_zero]
  | flush =>
    rw [Machine.begin]
    split
    · exact .goOn kept ⟨size, hAligned, Nat.two_pow_pos 32, fun hType => absurd rfl hType, m.disk,
        ⟨⟨settled.taken, settled.phase⟩, rfl⟩, fun _ => ⟨nofun, trivial⟩⟩
    · exact .finish kept fun _ => trivial

lemma Inv.step (h : Inv m) {e : Event} (safe : m.Safe e) (step : m.step e = some m') : Inv m' := by
  cases e with
  | call c =>
    obtain ⟨-, rfl⟩ := ite_none_right_eq_some.mp step |>.imp_right some.inj
    exact .begin h.kept safe.1 safe.2
  | driver =>
    obtain ⟨⟨r, pc⟩, hr, rfl⟩ := map_eq_some_iff.mp step
    exact h.drive hr
  | timeout =>
    obtain ⟨⟨r, pc⟩, -, rfl⟩ := map_eq_some_iff.mp step
    exact .fail h.kept
  | transfer | status | advance | interrupt =>
    have hStage := fun disk₀ r pc => @Stage.outside disk₀ r m m' pc _ rfl step
    have hAside : Aside m m' := (hStage zeros ⟨.flush, zeros, zeros, 0⟩ .start).1
    refine ⟨fun f hf => h.kept f (hAside.finished ▸ hf), fun r pc hr => ?_⟩
    have hProgress := h.running r pc (hAside.running ▸ hr)
    obtain ⟨disk₀, hNow, hDone⟩ := hProgress.request
    refine ⟨hProgress.size, hProgress.aligned, hProgress.off, hProgress.more, disk₀,
      (hStage disk₀ r pc).2 hNow, fun hBytes => ?_⟩
    obtain ⟨within, done⟩ := hDone hBytes
    exact ⟨fun hPos => (within hPos).trans_eq (congrArg UInt64.toNat hAside.capacity.symm), done⟩

/-- Where calls find the device done and have sizes that fit 32 bits, those that return 0 did what
they were asked. -/
theorem kept_of_safe {start : Machine} (idle : start.running = none) (fresh : start.finished = [])
    (run : Reaches (Guarded Machine.Safe fun m e m' => m.step e = some m') start m) : m.Kept := by
  refine (run.invariant (P := Inv) ⟨?_, ?_⟩ fun _ _ _ h step => h.step step.1 step.2).kept
  · intro f hf
    rw [fresh] at hf
    cases hf
  · intro r pc hr
    rw [idle] at hr
    cases hr

def freshMachine : Machine where
  present := true
  capacity := 16
  disk := zeros
  header := ⟨.tIn, 0⟩
  data := zeros
  desc := .status
  status := 0
  avail := 0
  used := 0
  taken := 0
  phase := .idle
  lastUsed := 0
  ioDone := false
  running := none
  finished := []

def posting : List Event := replicate 6 .driver

def serving : List Event := [.transfer, .status, .advance]

def concluding : List Event := replicate 3 .driver

def sevens : Buffer := fun _ => 7

theorem kept_of_write_read : ∃ m : Machine, m.Kept ∧ m.finished.map (·.ok) = [true, true] ∧
    m.finished.map (·.dst 511) = [0, 7] := by
  have hRun : ((.call (.write 1 1 sevens) :: posting ++ serving ++ concluding ++
      .call (.read 1 1 zeros) :: posting ++ serving ++ concluding).foldlM
        (fun m e => if Machine.Safe m e then m.step e else none) freshMachine).any (fun m =>
          m.finished.map (·.ok) = [true, true] ∧ m.finished.map (·.dst 511) = [0, 7]) = true := by
    decide +kernel
  obtain ⟨m, run, hEnd⟩ := (any_eq_true _ _).mp hRun
  simp only [decide_eq_true_eq] at hEnd
  exact ⟨m, kept_of_safe rfl rfl (Reaches.of_guarded_foldlM run), hEnd⟩

def Finished.wrong (f : Finished) : Bool :=
  f.ok && match f.call with
    | .read sector count _ =>
      decide (0 < count.toNat) && f.dst 0 != f.after (sector.toNat * blkSectorSize)
    | .write sector count src =>
      decide (0 < count.toNat) && f.after (sector.toNat * blkSectorSize) != src 0
    | .flush => false

lemma Finished.not_kept_of_wrong {f : Finished} (h : f.wrong = true) : ¬ f.Kept := by
  obtain ⟨hOk, hWrong⟩ := (Bool.and_eq_true _ _).mp h
  intro hKept
  have hDone := hKept hOk
  cases hCall : f.call with
  | read sector count dst =>
    simp only [hCall, Bool.and_eq_true, decide_eq_true_eq, bne_iff_ne] at hWrong hDone
    have hFirst := congrFun hDone 0
    rw [copyTo, if_pos (by unfold blkSectorSize; omega), Nat.sub_self, add_zero] at hFirst
    exact hWrong.2 hFirst
  | write sector count src =>
    simp only [hCall, Bool.and_eq_true, decide_eq_true_eq, bne_iff_ne] at hWrong hDone
    have hFirst := congrFun hDone (sector.toNat * blkSectorSize)
    rw [copyTo, if_pos (by unfold blkSectorSize; omega), Nat.sub_self] at hFirst
    exact hWrong.2 hFirst
  | flush =>
    simp only [hCall] at hWrong
    cases hWrong

/-- A run after which some call is wrong. -/
lemma not_kept_of_run {start : Machine} {events : List Event}
    (run : (events.foldlM step start).any (fun m => m.finished.any (·.wrong)) = true) :
    ∃ m, Reaches (fun m e m' => step m e = some m') start m ∧ ¬ m.Kept := by
  obtain ⟨m, run, hWrong⟩ := (any_eq_true _ _).mp run
  obtain ⟨f, hf, hWrong⟩ := any_eq_true.mp hWrong
  exact ⟨m, Reaches.of_foldlM run, fun hKept => Finished.not_kept_of_wrong hWrong (hKept f hf)⟩

/-- A posted read is given up, and the device carries it out with the sevens of a later write in
the bounce buffer. -/
def overtaken (givenUp : List Event) : List Event :=
  .call (.read 0 1 zeros) :: posting ++ givenUp ++ [.call (.write 1 1 sevens), .driver] ++ serving ++
    replicate 6 .driver ++ [.transfer, .status] ++ replicate 2 .driver

/-- The write returns 0 and has stored zeros, after a timeout or a foreign interrupt. A read of 2 ^
23 sectors returns 0 and delivers nothing. -/
theorem leftover_not_kept : ∃ m₁ m₂ m₃, (Reaches (fun m e m' => step m e = some m') freshMachine m₁ ∧ ¬ m₁.Kept) ∧
    (Reaches (fun m e m' => step m e = some m') freshMachine m₂ ∧ ¬ m₂.Kept) ∧
    Reaches (fun m e m' => step m e = some m') { freshMachine with disk := sevens } m₃ ∧ ¬ m₃.Kept := by
  obtain ⟨m₁, h₁⟩ := @not_kept_of_run freshMachine (overtaken [.timeout]) (by decide +kernel)
  obtain ⟨m₂, h₂⟩ := @not_kept_of_run freshMachine
    (overtaken [.interrupt, .driver, .driver, .driver]) (by decide +kernel)
  obtain ⟨m₃, h₃⟩ := @not_kept_of_run { freshMachine with disk := sevens }
    [.call (.read 0 0x800000 zeros)] (by decide +kernel)
  exact ⟨m₁, m₂, m₃, h₁, h₂, h₃⟩

end YartOS.Blk
