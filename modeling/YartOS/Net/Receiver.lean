import YartOS.Lib.Runs
import YartOS.Net.Tcp

/-! The receiving side of a connection: the bytes of the application, against the peer's stream. -/
namespace YartOS.Net

open Runs List

/-- A connection with the bytes the application got, and whether it saw the end. `aborted` marks a
reset or a given-up connection. -/
structure Receiver where
  conn : Option Conn
  returned : Bytes := []
  ended : Bool := false
  aborted : Bool := false

inductive ReceiverEvent where
  | segment (now : UInt64) (seg : Segment)
  | recv (cap : Nat)
  | send (now : UInt64) (data : Bytes)
  | poll (now : UInt64)

namespace Receiver

/-- `net_tcp_recv` on a slot that is not in use reports the end of the stream. -/
def unused (s : Receiver) : ReceiverEvent → Receiver
  | .recv cap => if cap = 0 then s else { s with ended := true }
  | _ => s

def event (s : Receiver) (c : Conn) : ReceiverEvent → Receiver
  | .segment now seg => { s with conn := (c.deliver now seg).1, aborted := s.aborted || seg.flags.rst }
  | .recv cap =>
    let r := c.netTcpRecv cap
    match r.1 with
    | .again => { s with conn := r.2.1 }
    | .bytes b => { s with conn := r.2.1, returned := s.returned ++ b, ended := s.ended || b = [] }
  | .send now data => { s with conn := some ((c.netTcpSend now data).elim c (·.1)) }
  | .poll now =>
    let r := (c.tcpPollConn now).1
    { s with conn := r, aborted := s.aborted || r.isNone }

def apply (s : Receiver) (e : ReceiverEvent) : Receiver :=
  match s.conn with
  | none => s.unused e
  | some c => s.event c e

/-- The application has a part of the stream, or all at its end. -/
structure Ok (stream : Bytes) (s : Receiver) : Prop where
  isPart : s.returned <+: stream
  ended : s.ended = true → s.aborted = true ∨ s.returned = stream

/-- A slice of the stream at its number; the `FIN` follows the last byte. -/
def FromPeer (stream : Bytes) (first : UInt32) (seg : Segment) : Prop :=
  ∃ k, k ≤ stream.length ∧ seg.seq = first + UInt32.ofNat k ∧ seg.data <+: stream.drop k ∧
    (seg.flags.fin = true → k + seg.data.length = stream.length)

/-- The segments of a run are those of the peer. -/
def OfPeer (stream : Bytes) (first : UInt32) : ReceiverEvent → Prop
  | .segment _ seg => FromPeer stream first seg
  | _ => True

/-- A `FIN` arrives after all data, or with the rest and room for it. -/
def FinInOrder (c : Conn) (seg : Segment) : Prop :=
  seg.seq + UInt32.ofNat seg.data.length = c.rcvNxt ∨ seg.seq = c.rcvNxt ∧ seg.data.length ≤ tcpRxbuf - c.rx.length

def Safe (s : Receiver) (e : ReceiverEvent) : Prop :=
  ∀ c, s.conn = some c → match e with
    | .segment _ seg => seg.flags.rst = false → seg.flags.fin = true → c.st = .established → FinInOrder c seg
    | _ => True

/-- What the safe events keep: `n` bytes of the stream have arrived. -/
structure Holds (stream : Bytes) (first : UInt32) (s : Receiver) (c : Conn) (n : Nat) : Prop where
  le : n ≤ stream.length
  bytes : s.returned ++ c.rx = stream.take n
  state : c.st = .established ∧ c.rcvNxt = first + UInt32.ofNat n ∨
    (c.st = .lastAck ∨ c.st = .closing) ∧ n = stream.length

structure Inv (stream : Bytes) (first : UInt32) (s : Receiver) : Prop where
  ok : Ok stream s
  holds : ∀ c, s.conn = some c → ∃ n, Holds stream first s c n
  done : s.conn = none → s.aborted = true ∨ s.returned = stream

variable {stream : Bytes} {first : UInt32} {s : Receiver} {c c' : Conn} {n : Nat} {seg : Segment} {now : UInt64}

/-- Sequence numbers tell the bytes of a stream below 4 GiB apart. -/
lemma eq_of_seq_eq {a b : Nat} (ha : a < 2 ^ 32) (hb : b < 2 ^ 32)
    (h : first + UInt32.ofNat a = first + UInt32.ofNat b) : a = b := by
  have hNat := congrArg UInt32.toNat (add_left_cancel h)
  rwa [UInt32.toNat_ofNat_of_lt' ha, UInt32.toNat_ofNat_of_lt' hb] at hNat

section

variable (h : Holds stream first s c n)

include h

lemma Holds.congr (rx : c'.rx = c.rx) (rcvNxt : c'.rcvNxt = c.rcvNxt) (st : c'.st = c.st) : Holds stream first s c' n :=
  ⟨h.le, by rw [rx]; exact h.bytes, by rw [rcvNxt, st]; exact h.state⟩

lemma Holds.st_cases : c.st = .established ∨ c.st = .lastAck ∨ c.st = .closing := h.state.imp And.left And.left

lemma Holds.rcvNxt_eq (hOpen : c.st = .established) : c.rcvNxt = first + UInt32.ofNat n := by
  rcases h.state with ⟨-, hRcv⟩ | ⟨hSt | hSt, -⟩
  · exact hRcv
  · cases hOpen.symm.trans hSt
  · cases hOpen.symm.trans hSt

lemma Holds.eq_length (hOpen : c.st ≠ .established) : n = stream.length :=
  h.state.elim (fun hSt => absurd hSt.1 hOpen) And.right

lemma Holds.processData (small : stream.length < 2 ^ 32) (peer : FromPeer stream first seg) :
    ∃ k, Holds stream first s (c.processData seg).1 k ∧ (c.processData seg).1.st = c.st ∧
      (c.st = .established → seg.flags.fin = true → FinInOrder c seg → k = stream.length) := by
  obtain ⟨pos, hPos, hSeq, hData, hFin⟩ := peer
  have hLen : pos + seg.data.length ≤ stream.length := by
    have := hData.length_le
    rw [length_drop] at this
    omega
  have hLe := h.le
  -- what a segment at the next sequence number says about its position
  have position : c.st = .established → seg.seq = c.rcvNxt → pos = n := by
    intro hOpen hNext
    exact eq_of_seq_eq (by omega) (by omega) (hSeq.symm.trans (hNext.trans (h.rcvNxt_eq hOpen)))
  by_cases hTaken : (seg.data ≠ [] ∧ c.st = .established) ∧
      seg.seq = c.rcvNxt ∧ seg.data.length ≤ tcpRxbuf - c.rx.length
  · have hEq : (c.processData seg).1 =
        { c with rx := c.rx ++ seg.data, rcvNxt := c.rcvNxt + UInt32.ofNat seg.data.length } := by
      unfold Conn.processData
      rw [if_pos hTaken.1, if_pos hTaken.2]
    have hRcv := h.rcvNxt_eq hTaken.1.2
    obtain rfl := position hTaken.1.2 hTaken.2.1
    rw [hEq]
    refine ⟨pos + seg.data.length, ⟨hLen, ?_, .inl ⟨hTaken.1.2, ?_⟩⟩, rfl, fun _ fin _ => hFin fin⟩
    · rw [← append_assoc, h.bytes, take_add]
      congr 1
      exact prefix_iff_eq_take.mp hData
    · rw [hRcv, UInt32.ofNat_add, UInt32.add_assoc]
  · have hEq : (c.processData seg).1 = c := by
      unfold Conn.processData
      split
      · rename_i hOpen
        rw [if_neg fun hNext => hTaken ⟨hOpen, hNext⟩]
        split <;> rfl
      · rfl
    rw [hEq]
    refine ⟨n, h, rfl, fun hOpen fin order => ?_⟩
    have hRcv := h.rcvNxt_eq hOpen
    have hEnd := hFin fin
    rcases order with hAll | hNext
    · rw [hSeq, UInt32.add_assoc, ← UInt32.ofNat_add, hRcv] at hAll
      have := eq_of_seq_eq (by omega) (by omega) hAll
      omega
    have hEmpty : seg.data = [] := by
      by_contra hNe
      exact hTaken ⟨⟨hNe, hOpen⟩, hNext⟩
    rw [hEmpty, length_nil] at hEnd
    have := position hOpen hNext.1
    omega

/-- An acknowledgement leaves what has arrived as it is. -/
lemma Holds.acknowledged {r : Option Conn} (step : Conn.Acknowledged seg c r) :
    (∀ c₁, r = some c₁ → Holds stream first s c₁ n ∧ (c₁.st = .established → c.st = .established) ∧
      c₁.rcvNxt = c.rcvNxt ∧ c₁.rx = c.rx) ∧ (r = none → s.returned = stream) := by
  obtain ⟨_, _, _, hSlid⟩ := Conn.slid_frame c seg
  have hRx : (c.slid seg).rx = c.rx := by rw [hSlid]
  have hRcv : (c.slid seg).rcvNxt = c.rcvNxt := by rw [hSlid]
  have hSt : (c.slid seg).st = c.st := by rw [hSlid]
  have done : c.st = .lastAck → n = stream.length := fun hLast => h.eq_length (by rw [hLast]; decide)
  cases step with
  | ignored => exact ⟨fun c₁ hc => by cases hc; exact ⟨h, id, rfl, rfl⟩, nofun⟩
  | slid =>
    refine ⟨fun c₁ hc => ?_, nofun⟩
    cases hc
    exact ⟨h.congr hRx hRcv hSt, fun hOpen => hSt ▸ hOpen, hRcv, hRx⟩
  | finAcked ack wait =>
    rcases h.st_cases with hOpen | hOpen | hOpen <;> cases wait.symm.trans hOpen
  | closing ack last =>
    refine ⟨fun c₁ hc => ?_, nofun⟩
    cases hc
    refine ⟨⟨h.le, ?_, .inr ⟨.inr rfl, done last⟩⟩, nofun, hRcv, hRx⟩
    rw [hRx]
    exact h.bytes
  | released ack last some' empty =>
    refine ⟨nofun, fun _ => ?_⟩
    have := h.bytes
    rwa [empty, append_nil, done last, take_length] at this

end

variable (now) in
/-- An inbound segment of the peer that is not a reset. -/
lemma Holds.deliver (h : Holds stream first s c n) (small : stream.length < 2 ^ 32) (peer : FromPeer stream first seg)
    (hRst : seg.flags.rst = false) (order : seg.flags.fin = true → c.st = .established → FinInOrder c seg) :
    (∀ c', (c.deliver now seg).1 = some c' → ∃ k, Holds stream first s c' k) ∧
      ((c.deliver now seg).1 = none → s.returned = stream) := by
  have hOpen : c.st ≠ .synSent := by rcases h.st_cases with hOpen | hOpen | hOpen <;> rw [hOpen] <;> decide
  obtain ⟨kept, released⟩ := h.acknowledged (Conn.processAck_acknowledged seg c)
  unfold Conn.deliver
  rw [hRst, if_neg (by decide), if_neg hOpen]
  cases hAck : c.processAck seg with
  | none => exact ⟨nofun, fun _ => released hAck⟩
  | some c₁ =>
    obtain ⟨h₁, hSt₁, hRcv₁, hRx₁⟩ := kept c₁ hAck
    obtain ⟨k, h₂, hSt₂, hAll⟩ := h₁.processData small peer
    dsimp only
    have step := Conn.processFin_finned now seg (c₁.processData seg).1
    generalize (c₁.processData seg).1 = c₂ at step h₂ hSt₂ ⊢
    generalize (c₂.processFin now seg).1 = r at step ⊢
    cases step with
    | same => exact ⟨fun c' hc => by cases hc; exact ⟨k, h₂⟩, nofun⟩
    | counted rcvNxt wait =>
      rcases h₂.st_cases with hOpen | hOpen | hOpen <;> cases wait.symm.trans hOpen
    | lastAck rcvNxt lastSend fin hEst =>
      refine ⟨fun c' hc => ?_, nofun⟩
      cases hc
      have hEst₁ : c₁.st = .established := hSt₂.symm.trans hEst
      have order₁ : FinInOrder c₁ seg := by
        unfold FinInOrder
        rw [hRcv₁, hRx₁]
        exact order fin (hSt₁ hEst₁)
      exact ⟨k, h₂.le, h₂.bytes, .inr ⟨.inl rfl, hAll hEst₁ fin order₁⟩⟩
    | closing rcvNxt half | released half =>
      rcases h₂.st_cases with hOpen | hOpen | hOpen <;> cases half.symm.trans hOpen

section

variable (h : Inv stream first s) (hc : s.conn = some c)

include h hc

lemma Inv.segment (small : stream.length < 2 ^ 32) (peer : FromPeer stream first seg)
    (order : seg.flags.rst = false → seg.flags.fin = true → c.st = .established → FinInOrder c seg) :
    Inv stream first (s.event c (.segment now seg)) := by
  obtain ⟨n, hn⟩ := h.holds c hc
  have ok : Ok stream (s.event c (.segment now seg)) :=
    ⟨h.ok.isPart, fun hEnd => (h.ok.ended hEnd).imp_left fun hAbort => by simp [event, hAbort]⟩
  cases hRst : seg.flags.rst with
  | true =>
    have gone : (c.deliver now seg).1 = none := by
      rw [Conn.deliver, hRst]
      rfl
    refine ⟨ok, fun c' hc' => ?_, fun _ => .inl (by simp [event, hRst])⟩
    cases gone.symm.trans hc'
  | false =>
    obtain ⟨kept, released⟩ := hn.deliver now small peer hRst (order hRst)
    refine ⟨ok, fun c' hc' => ?_, fun gone => .inr (released gone)⟩
    obtain ⟨k, hk⟩ := kept c' hc'
    exact ⟨k, hk.le, hk.bytes, hk.state⟩

/-- The application takes bytes from the front of the buffer. -/
lemma Inv.recv {cap : Nat} : Inv stream first (s.event c (.recv cap)) := by
  obtain ⟨n, hn⟩ := h.holds c hc
  have step := Conn.netTcpRecv_recv cap c
  unfold event
  dsimp only
  generalize (c.netTcpRecv cap).1 = got at step
  generalize (c.netTcpRecv cap).2.1 = rest at step
  have split := take_append_drop cap c.rx
  have isPart : s.returned ++ c.rx.take cap <+: stream := by
    refine List.IsPrefix.trans ?_ ( take_prefix n stream)
    rw [← hn.bytes]
    exact (prefix_append_right_inj _).mpr ( take_prefix cap c.rx)
  cases step with
  | refused => exact ⟨⟨h.ok.isPart, h.ok.ended⟩, fun c' hc' => by cases hc'; exact ⟨n, hn.le, hn.bytes, hn.state⟩, nofun⟩
  | empty none hOpen =>
    refine ⟨⟨h.ok.isPart, h.ok.ended⟩, fun c' hc' => ?_, nofun⟩
    cases hc'
    rw [none, nil_append] at split
    refine ⟨n, hn.le, ?_, hn.state⟩
    rw [split, hn.bytes]
  | some' pos more rest =>
    refine ⟨⟨isPart, fun hEnd => ?_⟩, fun c' hc' => ?_, nofun⟩
    · have hMore : c.rx.take cap ≠ [] := by
        intro hNone
        have hRx : c.rx = [] := (take_eq_nil_iff.mp hNone).resolve_left pos
        have hSt := more.resolve_left (absurd hNone)
        rcases rest with hRest | hRest
        · exact hRest (by rw [hRx, drop_nil])
        · rcases hn.st_cases with h | h | h
          · exact hSt h
          · exact hRest.2 h
          · exact hRest.1 h
      refine (h.ok.ended (by simpa [hMore] using hEnd)).imp_right fun hAll => absurd ?_ hMore
      have := isPart.length_le
      rw [hAll, length_append] at this
      exact length_eq_zero_iff.mp (by omega)
    · cases hc'
      refine ⟨n, hn.le, ?_, hn.state⟩
      rw [append_assoc, split, hn.bytes]
  | last rest done =>
    have hAll : s.returned ++ c.rx.take cap = stream := by
      rw [rest, append_nil] at split
      have hSt : c.st ≠ .established := by rcases done with h | h <;> rw [h] <;> decide
      rw [split, hn.bytes, hn.eq_length hSt, take_length]
    exact ⟨⟨isPart, fun _ => .inr hAll⟩, nofun, fun _ => .inr hAll⟩

/-- What leaves the received bytes as they are. -/
lemma Inv.of_same (rx : c'.rx = c.rx) (rcvNxt : c'.rcvNxt = c.rcvNxt) (st : c'.st = c.st) (aborted : Bool) :
    Inv stream first { s with conn := some c', aborted := s.aborted || aborted } := by
  obtain ⟨n, hn⟩ := h.holds c hc
  have hn' := hn.congr rx rcvNxt st
  refine ⟨⟨h.ok.isPart, fun hEnd => (h.ok.ended hEnd).imp_left fun hAbort => by simp [hAbort]⟩, fun c'' hc'' => ?_, nofun⟩
  cases hc''
  exact ⟨n, hn'.le, hn'.bytes, hn'.state⟩

lemma Inv.event {e : ReceiverEvent} (small : stream.length < 2 ^ 32) (peer : OfPeer stream first e) (safe : s.Safe e) :
    Inv stream first (s.event c e) := by
  cases e with
  | segment now seg => exact h.segment hc small peer (safe c hc)
  | recv cap => exact h.recv hc
  | send now data =>
    have kept : Inv stream first { s with conn := some ((c.netTcpSend now data).elim c (·.1)),
                                          aborted := s.aborted || false } := by
      cases hSend : c.netTcpSend now data with
      | none => exact h.of_same hc rfl rfl rfl false
      | some r =>
        obtain ⟨-, rfl⟩ := Conn.netTcpSend_eq_some hSend
        have kept := @Inv.of_same _ _ _ _ { c with snd := c.snd ++ data, lastSend := now, retries := 0 } h hc rfl rfl
          rfl false
        exact kept
    rwa [Bool.or_false] at kept
  | poll now =>
    unfold Receiver.event
    dsimp only
    rcases Conn.tcpPollConn_cases now c with ⟨gone, -⟩ | ⟨lastSend, retries, kept, -⟩
    · rw [gone]
      refine ⟨⟨h.ok.isPart, fun hEnd => .inl ?_⟩, nofun, fun _ => .inl ?_⟩ <;> simp
    · rw [kept]
      have same := @Inv.of_same _ _ _ _ { c with lastSend := lastSend, retries := retries } h hc rfl rfl rfl false
      exact same

end

/-- A safe event with a segment of the peer keeps the invariant. -/
lemma Inv.apply {e : ReceiverEvent} (h : Inv stream first s) (small : stream.length < 2 ^ 32)
    (peer : OfPeer stream first e) (safe : s.Safe e) : Inv stream first (s.apply e) := by
  unfold Receiver.apply
  cases hc : s.conn with
  | some c => exact h.event hc small peer safe
  | none =>
    cases e with
    | recv cap =>
      unfold unused
      dsimp only
      split
      · exact h
      · exact ⟨⟨h.ok.isPart, fun _ => h.done hc⟩, fun c' hc' => absurd (hc.symm.trans hc') nofun, h.done⟩
    | segment now seg => exact h
    | send now data => exact h
    | poll now => exact h

/-- The application gets the stream if a `FIN` reaches an open connection only in order. -/
theorem ok_of_fin_in_order {stream : Bytes} {c : Conn} (hOpen : c.st = .established) (hEmpty : c.rx = [])
    (small : stream.length < 2 ^ 32) {events : List ReceiverEvent} (peer : ∀ e ∈ events, OfPeer stream c.rcvNxt e)
    (safe : Along apply (fun s e _ => s.Safe e) { conn := some c } events) :
    Along apply (fun _ _ s' => Ok stream s') { conn := some c } events := by
  have first : Inv stream c.rcvNxt { conn := some c } := by
    refine ⟨⟨ nil_prefix, nofun⟩, fun c' hc' => ⟨0, ?_⟩, nofun⟩
    cases hc'
    exact ⟨Nat.zero_le _, by simp [hEmpty], .inl ⟨hOpen, (UInt32.add_zero _).symm⟩⟩
  have both : Along apply (fun s e _ => OfPeer stream c.rcvNxt e ∧ s.Safe e) { conn := some c } events :=
    Along.with_mem peer safe
  refine Along.of_invariant (fun s e hInv both => ?_) first both
  have kept := hInv.apply small both.1 both.2
  exact ⟨kept.ok, kept⟩

def lastSegment (seq : UInt32) (data : Bytes) : Segment := ⟨80, 30000, seq, 1, { ack := true, fin := true }, data⟩

theorem ok_of_last_segment :
    Along apply (fun _ _ s' => Ok [7] s') { conn := some opened } [.segment 0 (lastSegment 0 [7]), .recv 10, .recv 10] := by
  refine ok_of_fin_in_order rfl rfl (by decide) ?_ ⟨fun c hc => ?_, fun _ _ => trivial, fun _ _ => trivial, trivial⟩
  · simp only [forall_mem_cons]
    exact ⟨⟨0, by decide, rfl, by decide, by decide⟩, trivial, trivial, nofun⟩
  · cases hc
    exact fun _ _ _ => .inr (by decide)

/-- The end of the stream arrives before its only byte and is reported at once. -/
theorem early_fin_not_ok : FromPeer [7] opened.rcvNxt (lastSegment 1 []) ∧
      ¬ Along apply (fun _ _ s' => Ok [7] s') { conn := some opened } [.segment 0 (lastSegment 1 []), .recv 10] := by
  refine ⟨⟨1, by decide, rfl, by decide, by decide⟩, ?_⟩
  rintro ⟨-, last, -⟩
  have := last.ended (by decide)
  revert this
  decide

end Receiver

end YartOS.Net
