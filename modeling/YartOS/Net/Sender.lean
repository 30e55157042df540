import YartOS.Lib.Runs
import YartOS.Net.Tcp

/-! The sending side of a connection: the bytes sent, against segments and send buffer. -/
namespace YartOS.Net

open Runs List Conn

/-- A connection with its history: bytes accepted, segments sent, acknowledgements. -/
structure Sender where
  conn : Option Conn
  iss : UInt32
  stream : Bytes := []
  sent : List Sent := []
  acks : List UInt32 := []

inductive SenderEvent where
  | send (now : UInt64) (data : Bytes)
  | poll (now : UInt64)
  | segment (now : UInt64) (seg : Segment)

namespace Sender

def start (c : Conn) : Sender := { conn := some c, iss := c.iss }

def event (s : Sender) (c : Conn) : SenderEvent → Sender
  | .send now data =>
    match c.netTcpSend now data with
    | none => s
    | some r => { s with conn := some r.1, stream := s.stream ++ data, sent := s.sent ++ r.2 }
  | .poll now =>
    let r := c.tcpPollConn now
    { s with conn := r.1, sent := s.sent ++ r.2 }
  | .segment now seg =>
    let r := c.deliver now seg
    { s with conn := r.1, sent := s.sent ++ r.2, acks := if seg.flags.ack then seg.ack :: s.acks else s.acks }

def apply (s : Sender) (e : SenderEvent) : Sender :=
  match s.conn with
  | none => s
  | some c => s.event c e

def seqOf (s : Sender) (k : Nat) : UInt32 := s.iss + 1 + UInt32.ofNat k

def Covered (s : Sender) (n : Nat) : Prop := n = 0 ∨ ∃ k, n ≤ k ∧ k ≤ s.stream.length + 1 ∧ s.seqOf k ∈ s.acks

def Carries (s : Sender) : Prop :=
  ∀ seg ∈ s.sent, seg.data ≠ [] → seg.wild = false ∧ ∃ k, seg.seq = s.seqOf k ∧ seg.data <+: s.stream.drop k

/-- What the sender is to do: bytes leave the buffer once acknowledged, unless the connection is
reset or given up. -/
structure Ok (s : Sender) (e : SenderEvent) (s' : Sender) : Prop where
  carries : s'.Carries
  buffer : ∀ c, s'.conn = some c → ∃ n, n ≤ s'.stream.length ∧ c.snd = s'.stream.drop n ∧ s'.Covered n
  released : ∀ now seg, e = .segment now seg → seg.flags.rst = false → s.conn ≠ none → s'.conn = none →
    s'.Covered s'.stream.length
  forward : ∀ c c', s.conn = some c → s'.conn = some c' → (c'.sndUna - c.sndUna).toNat < 2 ^ 31

/-- It is for data in the buffer or, at the end, for all data and the `FIN`. -/
def InWindow (c : Conn) (seg : Segment) : Prop :=
  seg.flags.ack = true → if c.st = .lastAck then (c.acked seg).toNat = 0 ∨ (c.acked seg).toNat = c.snd.length + 1
    else (c.acked seg).toNat ≤ c.snd.length

/-- The segment with all unacknowledged data fits its buffer, and acknowledgements are in the
window. -/
def Safe (s : Sender) (e : SenderEvent) : Prop :=
  ∀ c, s.conn = some c → match e with
    | .send _ data => c.snd.length + data.length ≤ tcpMaxData + 20
    | .poll _ => True
    | .segment _ seg => seg.flags.rst = false → InWindow c seg

/-- What the safe events keep: the buffer holds the bytes after the first `n`. -/
structure Streams (s : Sender) (c : Conn) (n : Nat) : Prop where
  le : n ≤ s.stream.length
  snd : c.snd = s.stream.drop n
  covered : s.Covered n
  fits : c.snd.length ≤ tcpMaxData + 20
  state : (c.st = .established ∨ c.st = .lastAck) ∧ c.sndUna = s.seqOf n ∨ c.st = .closing ∧ c.snd = []

structure Inv (s : Sender) : Prop where
  carries : s.Carries
  streams : ∀ c, s.conn = some c → ∃ n, s.Streams c n

variable {s s' : Sender} {c c' : Conn} {n : Nat} {now : UInt64} {seg : Segment} {data : Bytes}

lemma seqOf_add (s : Sender) (n : Nat) (a : UInt32) : s.seqOf n + a = s.seqOf (n + a.toNat) := by
  unfold seqOf
  rw [UInt32.ofNat_add, UInt32.ofNat_toNat, UInt32.add_assoc]

lemma ack_eq (c : Conn) (seg : Segment) : seg.ack = c.sndUna + c.acked seg := by
  unfold acked
  rw [add_sub_cancel]

lemma wild_of_le {seg : Sent} (noSyn : seg.flags.syn = false) (h : seg.data.length ≤ tcpMaxData + 20) :
    seg.wild = false := by
  unfold Sent.wild
  rw [noSyn]
  simp only [Bool.false_eq_true, if_false, decide_eq_false_iff_not]
  omega

lemma Carries.append_empty {out : List Sent} (h : s.Carries) (none : ∀ x ∈ out, x.data = [])
    (sent : s'.sent = s.sent ++ out) (stream : s'.stream = s.stream) (iss : s'.iss = s.iss) : s'.Carries := by
  intro x hx hData
  rw [sent] at hx
  rcases mem_append.mp hx with hx | hx
  · unfold seqOf
    rw [stream, iss]
    exact h x hx hData
  · exact absurd (none x hx) hData

lemma Streams.carries (h : s.Streams c n) (hs : s.Carries) (sent : s'.sent = s.sent ++ [c.sendData])
    (stream : s'.stream = s.stream) (iss : s'.iss = s.iss) : s'.Carries := by
  intro x hx hData
  rw [sent] at hx
  unfold seqOf
  rw [stream, iss]
  rcases mem_append.mp hx with hx | hx
  · exact hs x hx hData
  cases mem_singleton.mp hx
  refine ⟨wild_of_le rfl h.fits, n, ?_, ?_⟩
  · rcases h.state with ⟨-, hUna⟩ | ⟨hClosing, hEmpty⟩
    · exact hUna
    · exact absurd hEmpty hData
  · rw [← h.snd]
    exact prefix_rfl

lemma Streams.congr (h : s.Streams c n) (snd : c'.snd = c.snd) (sndUna : c'.sndUna = c.sndUna)
    (st : c'.st = c.st ∨ c.st = .established ∧ c'.st = .lastAck) : s.Streams c' n := by
  refine ⟨h.le, snd.trans h.snd, h.covered, snd ▸ h.fits, ?_⟩
  rw [snd, sndUna]
  rcases st with hSt | ⟨hOpen, hLast⟩
  · rw [hSt]
    exact h.state
  · rcases h.state with ⟨-, hUna⟩ | ⟨hClosing, -⟩
    · exact .inl ⟨.inr hLast, hUna⟩
    · cases hOpen.symm.trans hClosing

lemma sub_self_lt (a : UInt32) : (a - a).toNat < 2 ^ 31 := by
  rw [sub_self]
  decide

def arrived (s : Sender) (seg : Segment) : Sender :=
  { s with acks := if seg.flags.ack then seg.ack :: s.acks else s.acks }

lemma Covered.arrived (h : s.Covered n) (seg : Segment) : (s.arrived seg).Covered n := by
  rcases h with h | ⟨k, hn, hk, hAck⟩
  · exact .inl h
  · refine .inr ⟨k, hn, hk, ?_⟩
    unfold Sender.arrived
    split
    · exact mem_cons_of_mem _ hAck
    · exact hAck

/-- An acknowledgement that arrives covers what it names. -/
lemma covered_of_ack (hAck : seg.flags.ack = true) {k : Nat} (hSeq : seg.ack = s.seqOf k)
    (hk : k ≤ s.stream.length + 1) (hn : n ≤ k) : (s.arrived seg).Covered n := by
  refine .inr ⟨k, hn, hk, ?_⟩
  unfold arrived
  rw [hAck]
  exact hSeq ▸ mem_cons_self

section

variable (h : s.Streams c n)

include h

lemma Streams.length_eq : n + c.snd.length = s.stream.length := by
  have := h.le
  rw [h.snd, length_drop]
  omega

/-- The buffer slides over acknowledged data. -/
lemma Streams.slid (hAck : seg.flags.ack = true) (hLe : (c.acked seg).toNat ≤ c.snd.length) :
    (s.arrived seg).Streams (c.slid seg) (n + (c.acked seg).toNat) := by
  obtain ⟨snd, sndUna⟩ := slid_of_le (Nat.le_succ_of_le hLe)
  obtain ⟨_, _, _, hSlid⟩ := slid_frame c seg
  have hSt : (c.slid seg).st = c.st := by rw [hSlid]
  have hLength := h.length_eq
  rcases h.state with ⟨hOpen, hUna⟩ | ⟨hClosing, hEmpty⟩
  · have hSeq : seg.ack = s.seqOf (n + (c.acked seg).toNat) := by rw [ack_eq c seg, hUna, seqOf_add]
    refine ⟨?_, ?_, covered_of_ack hAck hSeq (by omega) (Nat.le_refl _), ?_, .inl ⟨hSt ▸ hOpen, sndUna.trans hSeq⟩⟩
    · change n + (c.acked seg).toNat ≤ s.stream.length
      omega
    · rw [snd, h.snd, drop_drop]
      rfl
    · have := h.fits
      rw [snd, length_drop]
      omega
  · rw [hEmpty, length_nil] at hLe
    rw [Nat.le_zero.mp hLe] at snd ⊢
    refine ⟨h.le, snd.trans h.snd, h.covered.arrived seg, ?_, .inr ⟨hSt ▸ hClosing, snd.trans hEmpty⟩⟩
    rw [snd]
    exact h.fits

lemma Streams.acked_lt (hLe : (c.acked seg).toNat ≤ c.snd.length + 1) :
    ((c.slid seg).sndUna - c.sndUna).toNat < 2 ^ 31 := by
  rw [(slid_of_le hLe).2]
  change (c.acked seg).toNat < 2 ^ 31
  have := h.fits
  unfold tcpMaxData at this
  omega

/-- The last acknowledgement names all data and the `FIN`. -/
lemma Streams.covered_all (hAck : seg.flags.ack = true) (hLast : c.st = .lastAck)
    (hAll : (c.acked seg).toNat = c.snd.length + 1) : (s.arrived seg).Covered s.stream.length := by
  have hLength := h.length_eq
  have hUna : c.sndUna = s.seqOf n := by
    rcases h.state with ⟨-, hUna⟩ | ⟨hClosing, -⟩
    · exact hUna
    · cases hLast.symm.trans hClosing
  refine covered_of_ack (k := s.stream.length + 1) hAck ?_ (Nat.le_refl _) (Nat.le_succ _)
  rw [ack_eq c seg, hUna, seqOf_add, hAll, ← hLength, Nat.add_assoc]

lemma Streams.acknowledged (window : InWindow c seg) {r : Option Conn} (step : Conn.Acknowledged seg c r) :
    (∀ c₁, r = some c₁ → ∃ k, (s.arrived seg).Streams c₁ k ∧ (c₁.sndUna - c.sndUna).toNat < 2 ^ 31) ∧
      (r = none → (s.arrived seg).Covered s.stream.length) := by
  cases step with
  | ignored hNone =>
    refine ⟨fun c₁ hc => ?_, nofun⟩
    cases hc
    exact ⟨n, ⟨h.le, h.snd, h.covered.arrived seg, h.fits, h.state⟩, sub_self_lt _⟩
  | slid hAck wait last =>
    have hLe : (c.acked seg).toNat ≤ c.snd.length := by
      have := window hAck
      split_ifs at this with hLast
      · rw [last hLast]
        exact Nat.zero_le _
      · exact this
    refine ⟨fun c₁ hc => ?_, nofun⟩
    cases hc
    exact ⟨_, h.slid hAck hLe, h.acked_lt (Nat.le_succ_of_le hLe)⟩
  | finAcked hAck wait enough =>
    rcases h.state with ⟨hOpen | hOpen, -⟩ | ⟨hOpen, -⟩ <;> cases wait.symm.trans hOpen
  | closing hAck hLast hSome rest =>
    have hAll := window hAck
    rw [if_pos hLast] at hAll
    have hAll := hAll.resolve_left (by omega)
    obtain ⟨snd, -⟩ := slid_of_le (Nat.le_of_eq hAll)
    have hEmpty : (c.slid seg).snd = [] := by
      rw [snd]
      exact drop_eq_nil_of_le (by omega)
    refine ⟨fun c₁ hc => ?_, nofun⟩
    cases hc
    refine ⟨s.stream.length, ⟨Nat.le_refl _, ?_, h.covered_all hAck hLast hAll, ?_, .inr ⟨rfl, hEmpty⟩⟩,
      h.acked_lt (Nat.le_of_eq hAll)⟩
    · change (c.slid seg).snd = s.stream.drop s.stream.length
      rw [hEmpty, drop_length]
    · rw [hEmpty]
      exact Nat.zero_le _
  | released hAck hLast hSome empty =>
    have hAll := window hAck
    rw [if_pos hLast] at hAll
    exact ⟨nofun, fun _ => h.covered_all hAck hLast (hAll.resolve_left (by omega))⟩

end

variable (now) in
/-- An inbound segment that is not a reset. -/
lemma Streams.deliver (h : s.Streams c n) (window : InWindow c seg) (hRst : seg.flags.rst = false) :
    (∀ c', (c.deliver now seg).1 = some c' →
      ∃ k, (s.arrived seg).Streams c' k ∧ (c'.sndUna - c.sndUna).toNat < 2 ^ 31) ∧
    ((c.deliver now seg).1 = none → (s.arrived seg).Covered s.stream.length) := by
  have hOpen : c.st ≠ .synSent := by rcases h.state with ⟨hOpen | hOpen, -⟩ | ⟨hOpen, -⟩ <;> rw [hOpen] <;> decide
  have acked := h.acknowledged window (processAck_acknowledged seg c)
  unfold Conn.deliver
  rw [hRst, if_neg (by decide), if_neg hOpen]
  cases hProcessed : c.processAck seg with
  | none => exact ⟨nofun, fun _ => acked.2 hProcessed⟩
  | some c₁ =>
    obtain ⟨k, hk, hForward⟩ := acked.1 c₁ hProcessed
    obtain ⟨rx, rcvNxt, hData⟩ := Conn.processData_frame seg c₁
    have fin := Conn.processFin_finned now seg (c₁.processData seg).1
    dsimp only
    rw [hData] at fin ⊢
    have half : c₁.st ≠ .finWait2 := by rcases hk.state with ⟨hOpen | hOpen, -⟩ | ⟨hOpen, -⟩ <;> rw [hOpen] <;> decide
    generalize (processFin now seg { c₁ with rx := rx, rcvNxt := rcvNxt }).1 = r at fin
    cases fin with
    | same | counted rcvNxt =>
      refine ⟨fun c' hc => ?_, nofun⟩
      cases hc
      exact ⟨k, hk.congr rfl rfl (.inl rfl), hForward⟩
    | lastAck rcvNxt lastSend _ hEst =>
      refine ⟨fun c' hc => ?_, nofun⟩
      cases hc
      exact ⟨k, hk.congr rfl rfl (.inr ⟨hEst, rfl⟩), hForward⟩
    | closing rcvNxt hHalf => exact absurd hHalf half
    | released hHalf => exact absurd hHalf half

lemma Inv.buffer (h : s.Inv) (c : Conn) (hc : s.conn = some c) :
    ∃ n, n ≤ s.stream.length ∧ c.snd = s.stream.drop n ∧ s.Covered n := by
  obtain ⟨n, hn⟩ := h.streams c hc
  exact ⟨n, hn.le, hn.snd, hn.covered⟩

/-- The history once the application has sent more. -/
lemma Carries.extend (h : s.Carries) (data : Bytes) : ({ s with stream := s.stream ++ data } : Sender).Carries := by
  intro x hx hData
  obtain ⟨hWild, k, hSeq, hPrefix⟩ := h x hx hData
  refine ⟨hWild, k, hSeq, hPrefix.trans ?_⟩
  rw [drop_append]
  exact prefix_append _ _

lemma Streams.extend (h : s.Streams c n) (data : Bytes) (hOpen : c.st = .established)
    (fits : c.snd.length + data.length ≤ tcpMaxData + 20) :
    ({ s with stream := s.stream ++ data } : Sender).Streams { c with snd := c.snd ++ data } n where
  le := by
    have := h.le
    rw [length_append]
    omega
  snd := by rw [h.snd, drop_append_of_le_length h.le]
  covered := by
    refine h.covered.imp_right fun ⟨k, hn, hk, hAck⟩ => ⟨k, hn, ?_, hAck⟩
    rw [length_append]
    omega
  fits := by rwa [length_append]
  state := by
    rcases h.state with ⟨hSt, hUna⟩ | ⟨hClosing, -⟩
    · exact .inl ⟨hSt, hUna⟩
    · cases hOpen.symm.trans hClosing

section

variable (h : s.Inv) (hc : s.conn = some c)

include h hc

lemma Inv.send (fits : c.snd.length + data.length ≤ tcpMaxData + 20) :
    Ok s (.send now data) (s.event c (.send now data)) ∧ (s.event c (.send now data)).Inv := by
  have refused : Ok s (.send now data) s ∧ s.Inv := by
    refine ⟨⟨h.carries, h.buffer, nofun, fun c₁ c₂ h₁ h₂ => ?_⟩, h⟩
    cases h₁.symm.trans h₂
    exact sub_self_lt _
  obtain ⟨n, hn⟩ := h.streams c hc
  unfold event netTcpSend
  dsimp only
  split
  · exact refused
  rename_i r hSend
  split at hSend
  · cases hSend
  split at hSend
  · cases hSend
  rename_i hOpen
  split at hSend
  · cases hSend
  cases hSend
  have extended := hn.extend data (by simpa using hOpen) fits
  have inv : Inv { s with conn := some { c with snd := c.snd ++ data, lastSend := now, retries := 0 },
                          stream := s.stream ++ data,
                          sent := s.sent ++ [sendData { c with snd := c.snd ++ data }] } := by
    refine ⟨extended.carries (h.carries.extend data) rfl rfl rfl, fun c' hc' => ⟨n, ?_⟩⟩
    cases hc'
    exact ⟨extended.le, extended.snd, extended.covered, extended.fits, extended.state⟩
  refine ⟨⟨inv.carries, inv.buffer, nofun, fun c₁ c₂ h₁ h₂ => ?_⟩, inv⟩
  cases hc.symm.trans h₁
  cases h₂
  exact sub_self_lt _

lemma Inv.poll : Ok s (.poll now) (s.event c (.poll now)) ∧ (s.event c (.poll now)).Inv := by
  obtain ⟨n, hn⟩ := h.streams c hc
  rcases tcpPollConn_cases now c with ⟨gone, none⟩ | ⟨lastSend, retries, kept, out⟩
  · have inv : Inv { s with conn := (c.tcpPollConn now).1, sent := s.sent ++ (c.tcpPollConn now).2 } := by
      refine ⟨h.carries.append_empty none rfl rfl rfl, fun c' hc' => ?_⟩
      cases gone.symm.trans hc'
    refine ⟨⟨inv.carries, inv.buffer, nofun, fun c₁ c₂ _ h₂ => ?_⟩, inv⟩
    cases gone.symm.trans h₂
  have inv : Inv { s with conn := (c.tcpPollConn now).1, sent := s.sent ++ (c.tcpPollConn now).2 } := by
    refine ⟨?_, fun c' hc' => ⟨n, ?_⟩⟩
    · rcases out with none | data
      · exact h.carries.append_empty none rfl rfl rfl
      · exact hn.carries h.carries (congrArg _ data) rfl rfl
    · cases kept.symm.trans hc'
      exact ⟨hn.le, hn.snd, hn.covered, hn.fits, hn.state⟩
  refine ⟨⟨inv.carries, inv.buffer, nofun, fun c₁ c₂ h₁ h₂ => ?_⟩, inv⟩
  cases hc.symm.trans h₁
  cases kept.symm.trans h₂
  exact sub_self_lt _

lemma Inv.segment (window : seg.flags.rst = false → InWindow c seg) :
    Ok s (.segment now seg) (s.event c (.segment now seg)) ∧ (s.event c (.segment now seg)).Inv := by
  obtain ⟨n, hn⟩ := h.streams c hc
  have carries : (s.event c (.segment now seg)).Carries := h.carries.append_empty (deliver_sent now seg c) rfl rfl rfl
  cases hRst : seg.flags.rst with
  | true =>
    have gone : (s.event c (.segment now seg)).conn = none := by
      change (c.deliver now seg).1 = none
      rw [deliver, hRst]
      rfl
    have inv : (s.event c (.segment now seg)).Inv := ⟨carries, fun c' hc' => by cases gone.symm.trans hc'⟩
    refine ⟨⟨carries, inv.buffer, fun now' seg' he hRst' => ?_, fun c₁ c₂ _ h₂ => ?_⟩, inv⟩
    · cases he
      cases hRst.symm.trans hRst'
    · cases gone.symm.trans h₂
  | false =>
    obtain ⟨kept, released⟩ := hn.deliver now (window hRst) hRst
    have inv : (s.event c (.segment now seg)).Inv := by
      refine ⟨carries, fun c' hc' => ?_⟩
      obtain ⟨k, hk, -⟩ := kept c' hc'
      exact ⟨k, hk.le, hk.snd, hk.covered, hk.fits, hk.state⟩
    refine ⟨⟨carries, inv.buffer, fun _ _ _ _ _ gone => released gone, fun c₁ c₂ h₁ h₂ => ?_⟩, inv⟩
    cases hc.symm.trans h₁
    obtain ⟨k, -, hForward⟩ := kept c₂ h₂
    exact hForward

end

/-- A safe event does what the sending side is meant to do. -/
lemma Inv.apply {e : SenderEvent} (h : s.Inv) (safe : s.Safe e) : Ok s e (s.apply e) ∧ (s.apply e).Inv := by
  unfold Sender.apply
  cases hc : s.conn with
  | none =>
    refine ⟨⟨h.carries, h.buffer, fun _ _ _ _ used => absurd hc used, fun c₁ _ h₁ => ?_⟩, h⟩
    cases hc.symm.trans h₁
  | some c =>
    cases e with
    | send now data => exact h.send hc (safe c hc)
    | poll now => exact h.poll hc
    | segment now seg => exact h.segment hc (safe c hc)

/-- Along every safe run no byte is dropped before the peer has acknowledged it. -/
theorem ok_of_safe {c : Conn} (hOpen : c.st = .established) (hEmpty : c.snd = [])
    (hUna : c.sndUna = c.iss + 1) {events : List SenderEvent}
    (safe : Along apply (fun s e _ => s.Safe e) (start c) events) : Along apply Ok (start c) events := by
  have first : (start c).Inv := by
    refine ⟨nofun, fun c' hc' => ⟨0, ?_⟩⟩
    cases hc'
    refine ⟨Nat.le_refl _, hEmpty, .inl rfl, by rw [hEmpty]; exact Nat.zero_le _, .inl ⟨.inl hOpen, ?_⟩⟩
    rw [hUna]
    exact (UInt32.add_zero _).symm
  exact Along.of_invariant (fun s e h hSafe => Inv.apply h hSafe) first safe

theorem ok_of_two_acks :
    Along apply Ok (start opened) [.send 0 [1, 2, 3], .segment 0 (ackOf 2), .segment 0 (ackOf 4)] := by
  refine ok_of_safe rfl rfl rfl ⟨fun c hc => ?_, fun c hc => ?_, fun c hc => ?_, trivial⟩
  · cases hc
    decide
  · cases hc
    exact fun _ _ => by decide
  · cases hc
    exact fun _ _ => by decide

/-- An acknowledgement that arrives a second time empties the buffer. -/
theorem stale_ack_not_ok :
    ¬ Along apply Ok (start opened) [.send 0 [1, 2, 3], .segment 0 (ackOf 2), .segment 0 (ackOf 4),
      .send 0 [4], .segment 0 (ackOf 2)] := by
  rintro ⟨-, -, -, -, last, -⟩
  have := last.forward _ _ rfl rfl
  revert this
  decide

end Sender

end YartOS.Net
