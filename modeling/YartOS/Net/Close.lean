import YartOS.Lib.Runs
import YartOS.Net.Tcp

/-! The closing handshake: which acknowledgements end a connection. -/
namespace YartOS.Net

open Runs Conn List

structure Closer where
  conn : Option Conn
  acks : List UInt32 := []

inductive CloserEvent where
  | send (now : UInt64) (data : Bytes)
  | recv (cap : Nat)
  | poll (now : UInt64)
  | segment (now : UInt64) (seg : Segment)
  | close (now : UInt64)
  /-- The end of `net_tcp_close`, after its wait. -/
  | closed

namespace Closer

def event (c : Conn) : CloserEvent → Option Conn
  | .send now data => some ((c.netTcpSend now data).elim c (·.1))
  | .recv cap => (c.netTcpRecv cap).2.1
  | .poll now => (c.tcpPollConn now).1
  | .segment now seg => (c.deliver now seg).1
  | .close now => (c.netTcpClose now).1
  | .closed => none

def received (acks : List UInt32) : CloserEvent → List UInt32
  | .segment _ seg => if seg.flags.ack then seg.ack :: acks else acks
  | _ => acks

def apply (s : Closer) (e : CloserEvent) : Closer :=
  match s.conn with
  | none => s
  | some c => { conn := event c e, acks := received s.acks e }

/-- Waiting only for the peer's `FIN`, or being released, needs the own `FIN` acknowledged. -/
structure Ok (s : Closer) (e : CloserEvent) (s' : Closer) : Prop where
  half : ∀ c c', s.conn = some c → s'.conn = some c' → c.st ≠ .finWait2 → c'.st = .finWait2 → c.finSeq + 1 ∈ s'.acks
  last : ∀ c now seg, s.conn = some c → c.st = .lastAck → e = .segment now seg → seg.flags.rst = false →
    (∀ c', s'.conn = some c' → c'.st ≠ .lastAck) → c.finSeq + 1 ∈ s'.acks

/-- An acknowledgement for the `FIN`, or for too little to be mistaken for one. -/
def CloseSafe (c : Conn) (seg : Segment) : Prop :=
  seg.flags.ack = true → (c.acked seg).toNat = 0 ∨ (c.acked seg).toNat = c.snd.length + 1 ∨
    c.st = .finWait1 ∧ 2 * (c.acked seg).toNat ≤ c.snd.length

def Safe (s : Closer) (e : CloserEvent) : Prop :=
  ∀ c, s.conn = some c → c.st = .finWait1 ∨ c.st = .lastAck → match e with
    | .segment _ seg => seg.flags.rst = false → CloseSafe c seg
    | _ => True

/-- What the safe events keep: the `FIN` follows the data in the buffer. -/
def FinFollows (c : Conn) : Prop := c.st = .finWait1 ∨ c.st = .lastAck → c.finSeq = c.sndNxt

variable {s : Closer} {c c' : Conn} {seg : Segment} {now : UInt64}

/-- The number that acknowledges all data and the `FIN`. -/
lemma ack_eq_finSeq (h : FinFollows c) (hSt : c.st = .finWait1 ∨ c.st = .lastAck)
    (hAll : (c.acked seg).toNat = c.snd.length + 1) : seg.ack = c.finSeq + 1 := by
  have hAcked : c.acked seg = UInt32.ofNat c.snd.length + 1 := by
    have hNat : UInt32.ofNat (c.acked seg).toNat = c.acked seg := UInt32.ofNat_toNat
    rw [← hNat, hAll, UInt32.ofNat_add]
    rfl
  rw [h hSt, sndNxt, UInt32.add_assoc, ← hAcked, acked, add_sub_cancel]

lemma FinFollows.slid (h : FinFollows c) (hLe : (c.acked seg).toNat ≤ c.snd.length) : FinFollows (c.slid seg) := by
  obtain ⟨_, _, _, hSlid⟩ := slid_frame c seg
  have hSt : (c.slid seg).st = c.st := by rw [hSlid]
  have hFin : (c.slid seg).finSeq = c.finSeq := by rw [hSlid]
  obtain ⟨snd, sndUna⟩ := slid_of_le (Nat.le_succ_of_le hLe)
  intro hWait
  have split : UInt32.ofNat c.snd.length = c.acked seg + UInt32.ofNat (c.snd.length - (c.acked seg).toNat) := by
    have hNat : UInt32.ofNat (c.acked seg).toNat = c.acked seg := UInt32.ofNat_toNat
    rw [← Nat.add_sub_cancel' hLe, UInt32.ofNat_add, hNat, Nat.add_sub_cancel_left]
  rw [hFin, h (hSt ▸ hWait), sndNxt, sndNxt, snd, sndUna, length_drop, split, ← UInt32.add_assoc, acked, add_sub_cancel]

variable {e : CloserEvent} {r : Option Conn} {events : List CloserEvent}

/-- A safe acknowledgement: the state stays, or the `FIN` was acknowledged. -/
lemma acknowledged (h : FinFollows c) (safe : c.st = .finWait1 ∨ c.st = .lastAck → CloseSafe c seg)
    (step : Conn.Acknowledged seg c r) :
    (∃ c₁, r = some c₁ ∧ FinFollows c₁ ∧ c₁.st = c.st) ∨
      (∀ c₁, r = some c₁ → FinFollows c₁ ∧ (c₁.st = .finWait2 ∨ c₁.st = .closing)) ∧
        seg.flags.ack = true ∧ seg.ack = c.finSeq + 1 := by
  have small : seg.flags.ack = true → c.st = .finWait1 ∨ c.st = .lastAck →
      (c.acked seg).toNat ≠ c.snd.length + 1 → (c.acked seg).toNat ≤ c.snd.length := by
    intro hAck hSt hNe
    have := safe hSt hAck
    omega
  have all_of_last (hAck : seg.flags.ack = true) (last : c.st = .lastAck) (hSome : 1 ≤ (c.acked seg).toNat) :
      (c.acked seg).toNat = c.snd.length + 1 := by
    have := safe (.inr last) hAck
    rw [last] at this
    simp only [reduceCtorEq, false_and, or_false] at this
    omega
  cases step with
  | ignored hNone => exact .inl ⟨c, rfl, h, rfl⟩
  | slid hAck wait last =>
    obtain ⟨_, _, _, hSlid⟩ := slid_frame c seg
    have hSt : (c.slid seg).st = c.st := by rw [hSlid]
    refine .inl ⟨_, rfl, ?_, hSt⟩
    by_cases hWait : c.st = .finWait1 ∨ c.st = .lastAck
    · refine h.slid (small hAck hWait fun hAll => ?_)
      rcases hWait with hWait | hLast
      · have hShort := wait hWait
        rw [(slid_of_le (Nat.le_of_eq hAll)).1, length_drop] at hShort
        omega
      · have := last hLast
        omega
    · exact fun hWait' => absurd (hSt ▸ hWait') hWait
  | finAcked hAck wait enough =>
    have hAll : (c.acked seg).toNat = c.snd.length + 1 := by
      by_contra hNe
      have hLe := small hAck (.inl wait) hNe
      obtain ⟨snd, -⟩ := slid_of_le (Nat.le_succ_of_le hLe)
      rw [snd, length_drop] at enough
      have := safe (.inl wait) hAck
      omega
    refine .inr ⟨fun c₁ hc => ?_, hAck, ack_eq_finSeq h (.inl wait) hAll⟩
    cases hc
    exact ⟨fun hWait => by simp at hWait, .inl rfl⟩
  | closing hAck last hSome rest =>
    refine .inr ⟨fun c₁ hc => ?_, hAck, ack_eq_finSeq h (.inr last) (all_of_last hAck last hSome)⟩
    cases hc
    exact ⟨fun hWait => by simp at hWait, .inr rfl⟩
  | released hAck last hSome empty =>
    exact .inr ⟨nofun, hAck, ack_eq_finSeq h (.inr last) (all_of_last hAck last hSome)⟩

lemma FinFollows.congr (h : FinFollows c) (st : c'.st = c.st) (finSeq : c'.finSeq = c.finSeq)
    (sndNxt : c'.sndNxt = c.sndNxt) : FinFollows c' := by
  intro hWait
  rw [finSeq, sndNxt]
  exact h (st ▸ hWait)

lemma finFollows_of_ne (h₁ : c.st ≠ .finWait1) (h₂ : c.st ≠ .lastAck) : FinFollows c :=
  fun hWait => hWait.elim (absurd · h₁) (absurd · h₂)

/-- What the rest of the segment does: data and the `FIN` of the peer. -/
lemma finned (h : FinFollows c) (step : Conn.Finned seg c r) : (∃ c', r = some c' ∧ FinFollows c' ∧ c'.st = c.st) ∨
      (c.st = .established ∨ c.st = .finWait2) ∧ ∀ c', r = some c' → FinFollows c' ∧ c'.st ≠ .finWait2 := by
  cases step with
  | same => exact .inl ⟨_, rfl, h, rfl⟩
  | counted rcvNxt => exact .inl ⟨_, rfl, h.congr rfl rfl rfl, rfl⟩
  | lastAck rcvNxt lastSend _ hOpen =>
    refine .inr ⟨.inl hOpen, fun c' hc => ?_⟩
    cases hc
    exact ⟨fun _ => rfl, by simp⟩
  | closing rcvNxt half rest =>
    refine .inr ⟨.inr half, fun c' hc => ?_⟩
    cases hc
    exact ⟨finFollows_of_ne (by simp) (by simp), by simp⟩
  | released half empty => exact .inr ⟨.inr half, nofun⟩

lemma FinFollows.processData (h : FinFollows c) (seg : Segment) :
    FinFollows (c.processData seg).1 ∧ (c.processData seg).1.st = c.st := by
  obtain ⟨rx, rcvNxt, hData⟩ := processData_frame seg c
  rw [hData]
  exact ⟨h.congr rfl rfl rfl, rfl⟩

variable (now) in
/-- A safe segment: the state stays or waits for no acknowledgement, or the `FIN` was acknowledged. -/
lemma delivered (h : FinFollows c) (safe : c.st = .finWait1 ∨ c.st = .lastAck → CloseSafe c seg)
    (hRst : seg.flags.rst = false) : (∀ c', (c.deliver now seg).1 = some c' → FinFollows c') ∧
      ((∃ c', (c.deliver now seg).1 = some c' ∧ c'.st = c.st) ∨
        c.st ≠ .lastAck ∧ (∀ c', (c.deliver now seg).1 = some c' → c'.st ≠ .finWait2) ∨
        seg.flags.ack = true ∧ seg.ack = c.finSeq + 1) := by
  unfold deliver
  rw [hRst, if_neg (by decide)]
  split_ifs with hSyn
  · unfold handshake
    split
    · refine ⟨fun c' hc => ?_, .inr (.inl ⟨by simp [hSyn], fun c' hc => ?_⟩)⟩ <;> cases hc
      · exact finFollows_of_ne (by simp) (by simp)
      · simp
    · refine ⟨fun c' hc => ?_, .inl ⟨c, rfl, rfl⟩⟩
      cases hc
      exact h
  · cases hAck : c.processAck seg with
    | none =>
      refine ⟨nofun, .inr (.inr ?_)⟩
      rcases acknowledged h safe (processAck_acknowledged seg c) with ⟨c₁, hc, -⟩ | ⟨-, hAcked⟩
      · cases hAck.symm.trans hc
      · exact hAcked
    | some c₁ =>
      rcases acknowledged h safe (processAck_acknowledged seg c) with ⟨c₂, hc, hFin, hSt⟩ | ⟨hDone, hAcked⟩
      · cases hAck.symm.trans hc
        obtain ⟨hData, hDataSt⟩ := hFin.processData seg
        rcases finned hData (processFin_finned now seg _) with ⟨c', hc', hFin', hSt'⟩ | ⟨hFrom, hTo⟩
        · refine ⟨fun c'' hc'' => ?_, .inl ⟨c', hc', hSt'.trans (hDataSt.trans hSt)⟩⟩
          cases hc'.symm.trans hc''
          exact hFin'
        · rw [hDataSt, hSt] at hFrom
          refine ⟨fun c' hc' => (hTo c' hc').1, .inr (.inl ⟨?_, fun c' hc' => (hTo c' hc').2⟩)⟩
          rcases hFrom with hFrom | hFrom <;> rw [hFrom] <;> decide
      · obtain ⟨hFin, -⟩ := hDone c₁ hAck
        obtain ⟨hData, -⟩ := hFin.processData seg
        refine ⟨fun c' hc' => ?_, .inr (.inr hAcked)⟩
        rcases finned hData (processFin_finned now seg _) with ⟨c'', hc'', hFin', -⟩ | ⟨-, hTo⟩
        · cases hc''.symm.trans hc'
          exact hFin'
        · exact (hTo c' hc').1

/-- The other events leave the state as it is, or begin to close. -/
lemma event_of_not_segment (h : FinFollows c) (he : ∀ now seg, e ≠ .segment now seg)
    (hc : event c e = some c') : FinFollows c' ∧ (c'.st = c.st ∨ c'.st = .finWait1) := by
  cases e with
  | segment now seg => exact absurd rfl (he now seg)
  | closed => cases hc
  | send now data =>
    change some ((c.netTcpSend now data).elim c (·.1)) = some c' at hc
    cases hSend : c.netTcpSend now data with
    | none =>
      rw [hSend] at hc
      cases hc
      exact ⟨h, .inl rfl⟩
    | some r =>
      rw [hSend] at hc
      obtain ⟨hOpen, rfl⟩ := netTcpSend_eq_some hSend
      cases hc
      exact ⟨finFollows_of_ne (by simp [hOpen]) (by simp [hOpen]), .inl rfl⟩
  | recv cap =>
    have recv := netTcpRecv_recv cap c
    rw [show (c.netTcpRecv cap).2.1 = some c' from hc] at recv
    generalize (c.netTcpRecv cap).1 = got at recv
    cases recv with
    | refused => exact ⟨h, .inl rfl⟩
    | empty => exact ⟨h.congr rfl rfl rfl, .inl rfl⟩
    | some' => exact ⟨h.congr rfl rfl rfl, .inl rfl⟩
  | poll now =>
    rcases tcpPollConn_cases now c with ⟨gone, -⟩ | ⟨lastSend, retries, kept, -⟩
    · cases gone.symm.trans hc
    · cases kept.symm.trans hc
      exact ⟨h.congr rfl rfl rfl, .inl rfl⟩
  | close now =>
    change (c.netTcpClose now).1 = some c' at hc
    unfold netTcpClose at hc
    split at hc
    · cases hc
      exact ⟨fun _ => rfl, .inr rfl⟩
    · cases hc

def Inv (s : Closer) : Prop := ∀ c, s.conn = some c → FinFollows c

lemma ok_of_event (hc : s.conn = some c) (h : FinFollows c) (safe : s.Safe e) :
    Ok s e { conn := event c e, acks := received s.acks e } ∧ ∀ c', event c e = some c' → FinFollows c' := by
  by_cases he : ∃ now seg, e = .segment now seg
  · obtain ⟨now, seg, rfl⟩ := he
    cases hRst : seg.flags.rst with
    | true =>
      have gone : event c (.segment now seg) = none := by
        change (c.deliver now seg).1 = none
        rw [deliver, hRst]
        rfl
      refine ⟨⟨fun _ c' _ hc' => ?_, fun _ _ seg' _ _ he hRst' => ?_⟩, fun c' hc' => ?_⟩
      · cases gone.symm.trans hc'
      · cases he
        cases hRst.symm.trans hRst'
      · cases gone.symm.trans hc'
    | false =>
      obtain ⟨hFin, outcome⟩ := delivered now h (fun hSt => safe c hc hSt hRst) hRst
      have hAcks : seg.flags.ack = true ∧ seg.ack = c.finSeq + 1 →
          c.finSeq + 1 ∈ received s.acks (.segment now seg) := by
        rintro ⟨hAck, hSeq⟩
        change _ ∈ if seg.flags.ack then _ else _
        rw [if_pos hAck, hSeq]
        exact mem_cons_self
      refine ⟨⟨fun c₁ c' h₁ hc' hNe hHalf => ?_, fun c₁ _ _ h₁ hLast _ _ hGone => ?_⟩, hFin⟩
      · cases hc.symm.trans h₁
        rcases outcome with ⟨c₂, h₂, hSt⟩ | ⟨-, hTo⟩ | hAcked
        · cases h₂.symm.trans hc'
          exact absurd (hSt.symm.trans hHalf) hNe
        · exact absurd hHalf (hTo c' hc')
        · exact hAcks hAcked
      · cases hc.symm.trans h₁
        rcases outcome with ⟨c₂, h₂, hSt⟩ | ⟨hNe, -⟩ | hAcked
        · exact absurd (hSt.trans hLast) (hGone c₂ h₂)
        · exact absurd hLast hNe
        · exact hAcks hAcked
  · have he : ∀ now seg, e ≠ .segment now seg := fun now seg h => he ⟨now, seg, h⟩
    refine ⟨⟨fun c₁ c' h₁ hc' hNe hHalf => ?_, fun _ now seg _ _ h => absurd h (he now seg)⟩,
      fun c' hc' => (event_of_not_segment h he hc').1⟩
    cases hc.symm.trans h₁
    rcases (event_of_not_segment h he hc').2 with hSt | hSt
    · exact absurd (hSt.symm.trans hHalf) hNe
    · cases hSt.symm.trans hHalf

/-- Along every safe run the connection goes on only when its `FIN` is acknowledged. -/
theorem ok_of_close_safe {c : Conn} (hOpen : c.st = .synSent ∨ c.st = .established)
    (safe : Along apply (fun s e _ => s.Safe e) { conn := some c } events) :
    Along apply Ok { conn := some c } events := by
  have first : Inv { conn := some c } := by
    intro c' hc'
    cases hc'
    rcases hOpen with hOpen | hOpen <;> exact finFollows_of_ne (by simp [hOpen]) (by simp [hOpen])
  refine Along.of_invariant (fun s e h hSafe => ?_) first safe
  unfold apply
  cases hc : s.conn with
  | none =>
    refine ⟨⟨fun c₁ _ h₁ => ?_, fun c₁ _ _ h₁ => ?_⟩, h⟩ <;> cases hc.symm.trans h₁
  | some c => exact ok_of_event hc (h c hc) hSafe

theorem ok_of_full_ack : Along apply Ok { conn := some opened } [.send 0 [1], .close 0, .segment 0 (ackOf 3)] := by
  refine ok_of_close_safe (.inr rfl) ⟨fun c hc => ?_, fun c hc => ?_, fun c hc => ?_, trivial⟩
  · exact fun _ => trivial
  · exact fun _ => trivial
  · cases hc
    exact fun _ _ _ => .inr (.inl (by decide))

/-- The acknowledgement of the data is taken for that of the `FIN`. -/
theorem data_ack_not_ok : ¬ Along apply Ok { conn := some opened } [.send 0 [1], .close 0, .segment 0 (ackOf 2)] := by
  rintro ⟨-, -, last, -⟩
  have := last.half _ _ rfl rfl (by decide) (by decide)
  revert this
  decide

/-! The lengths of the segments. -/

def sent (c : Conn) : CloserEvent → List Sent
  | .send now data => (c.netTcpSend now data).elim [] (·.2)
  | .recv cap => (c.netTcpRecv cap).2.2
  | .poll now => (c.tcpPollConn now).2
  | .segment now seg => (c.deliver now seg).2
  | .close now => (c.netTcpClose now).2
  | .closed => []

/-- The data is within the limit, and the segment inside its buffers. -/
def SegmentsFit (s : Closer) (e : CloserEvent) : Prop :=
  ∀ c, s.conn = some c → ∀ x ∈ sent c e, x.data.length ≤ tcpMaxData ∧ x.wild = false

def added : CloserEvent → Nat
  | .send _ data => data.length
  | _ => 0

/-- Unacknowledged data and what the event adds fit one segment. -/
def Short (s : Closer) (e : CloserEvent) : Prop := ∀ c, s.conn = some c → c.snd.length + added e ≤ tcpMaxData

/-- A segment has no data, or all that the send buffer holds. -/
lemma data_le_of_sent {x : Sent} (hx : x ∈ sent c e) : x.data.length ≤ c.snd.length + added e := by
  have hEmpty : x.data = [] → x.data.length ≤ c.snd.length + added e := fun h => by simp [h]
  cases e with
  | send now data =>
    cases hSend : c.netTcpSend now data with
    | none => simp [sent, hSend] at hx
    | some r =>
      obtain ⟨-, rfl⟩ := netTcpSend_eq_some hSend
      simp only [sent, hSend, Option.elim_some, mem_singleton] at hx
      simp [hx, sendData, tcpSendSeg, added]
  | recv cap =>
    simp only [sent, netTcpRecv] at hx
    split_ifs at hx <;> simp_all [pureAck, tcpSendSeg]
  | poll now =>
    rcases tcpPollConn_cases now c with ⟨-, hData⟩ | ⟨_, _, -, hData | hData⟩
    · exact hEmpty (hData x hx)
    · exact hEmpty (hData x hx)
    · rw [sent, hData, mem_singleton] at hx
      rw [hx]
      exact Nat.le_add_right _ _
  | segment now seg => exact hEmpty (deliver_sent now seg c x hx)
  | close now =>
    simp only [sent, netTcpClose] at hx
    split_ifs at hx <;> simp_all [sendFin, tcpSendSeg]
  | closed => cases hx

/-- Segments fit as long as unacknowledged data fits into one. -/
theorem segments_fit {start : Closer} (short : Along apply (fun s e _ => s.Short e) start events) :
    Along apply (fun s e _ => s.SegmentsFit e) start events := by
  refine short.mono fun s e _ hShort c hc x hx => ?_
  have hData := (data_le_of_sent hx).trans (hShort c hc)
  refine ⟨hData, decide_eq_false ?_⟩
  split <;> omega

theorem one_send_fits : Along apply (fun s e _ => s.SegmentsFit e) { conn := some opened } [.send 0 [1], .poll 60] := by
  refine segments_fit ⟨fun c hc => ?_, fun c hc => ?_, trivial⟩ <;> cases hc <;> decide

/-- Two calls, and no acknowledgement between them. -/
theorem second_send_does_not_fit : ¬ Along apply (fun s e _ => s.SegmentsFit e) { conn := some opened }
    [.send 0 (replicate 1400 1), .send 0 [1]] := by
  have hLength : (replicate 1400 (1 : UInt8)).length = 1400 := length_replicate
  generalize replicate 1400 (1 : UInt8) = data at hLength
  have hSome : data ≠ [] := ne_nil_of_length_pos (by omega)
  rintro ⟨-, fit, -⟩
  have hSends := fit { opened with snd := data }
    (by simp [apply, event, netTcpSend, opened, tcpMaxData, tcpSndbuf, hLength, hSome])
  simp [sent, netTcpSend, opened, tcpMaxData, tcpSndbuf, sendData, tcpSendSeg, hLength] at hSends

end Closer

end YartOS.Net
