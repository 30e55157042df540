import Mathlib.Data.UInt

/-! The TCP of the kernel: connections, segments, timeouts and the calls of the application. -/
namespace YartOS.Net

open List

abbrev Bytes := List UInt8

def tcpMaxConn : Nat := 8
def tcpSndbuf : Nat := 8192
def tcpRxbuf : Nat := 65535
def tcpMaxData : Nat := 1400
def tcpRetransTicks : Nat := 50
def tcpMaxRetries : Nat := 4

structure Flags where
  fin : Bool := false
  syn : Bool := false
  rst : Bool := false
  psh : Bool := false
  ack : Bool := false
deriving DecidableEq

inductive TcpState where
  | closed | listen | synSent | established | finWait1 | finWait2 | lastAck | closing
deriving DecidableEq

/-- A connection in use; `snd` and `rx` are the filled parts of the buffers. -/
structure Conn where
  st : TcpState
  lport : UInt16
  rport : UInt16 := 0
  rip : UInt32 := 0
  sndUna : UInt32 := 0
  rcvNxt : UInt32 := 0
  iss : UInt32 := 0
  finSeq : UInt32 := 0
  snd : Bytes := []
  rx : Bytes := []
  lastSend : UInt64 := 0
  retries : Nat := 0
deriving DecidableEq

structure Sent where
  lport : UInt16
  rport : UInt16
  rip : UInt32
  flags : Flags
  seq : UInt32
  ack : UInt32
  win : UInt16
  data : Bytes
deriving DecidableEq

/-- The segment is longer than the stack buffer of `tcp_send_seg`. -/
def Sent.wild (s : Sent) : Bool := tcpMaxData + 40 < (if s.flags.syn then 24 else 20) + s.data.length

structure Segment where
  sport : UInt16
  dport : UInt16
  seq : UInt32
  ack : UInt32
  flags : Flags
  data : Bytes
deriving DecidableEq

namespace Conn

def tcpSendSeg (c : Conn) (flags : Flags) (seq ack : UInt32) (data : Bytes) : Sent :=
  { lport := c.lport, rport := c.rport, rip := c.rip, flags := flags, seq := seq, ack := ack,
    win := UInt16.ofNat (tcpRxbuf - c.rx.length), data := data }

def sndNxt (c : Conn) : UInt32 := c.sndUna + UInt32.ofNat c.snd.length

def pureAck (c : Conn) : Sent := c.tcpSendSeg { ack := true } c.sndNxt c.rcvNxt []

def sendData (c : Conn) : Sent := c.tcpSendSeg { ack := true, psh := true } c.sndUna c.rcvNxt c.snd

def sendFin (c : Conn) : Sent := c.tcpSendSeg { fin := true, ack := true } c.finSeq c.rcvNxt []

/-- `tcp_poll_conn`; a connection that is given up is `none`. -/
def tcpPollConn (now : UInt64) (c : Conn) : Option Conn × List Sent :=
  if c.st ≠ .synSent ∧ c.st ≠ .finWait1 ∧ c.st ≠ .lastAck ∧ c.snd = [] then (some c, [])
  else if (now - c.lastSend).toNat < tcpRetransTicks then (some c, [])
  else
    let c := { c with lastSend := now, retries := c.retries + 1 }
    if tcpMaxRetries < c.retries then
      (none, [c.tcpSendSeg { rst := true, ack := true } c.sndNxt c.rcvNxt []])
    else if c.st = .synSent then (some c, [c.tcpSendSeg { syn := true } c.iss 0 []])
    else if c.snd ≠ [] then (some c, [c.sendData])
    else (some c, [c.sendFin])

def handshake (seg : Segment) (c : Conn) : Conn × List Sent :=
  if seg.flags.syn && seg.flags.ack && seg.ack == c.sndUna + 1 then
    let c := { c with st := .established, rcvNxt := seg.seq + 1, retries := 0 }
    ({ c with sndUna := c.iss + 1 }, [c.tcpSendSeg { ack := true } (c.iss + 1) c.rcvNxt []])
  else (c, [])

def slide (acked ack : UInt32) (c : Conn) : Conn :=
  if 1 ≤ acked.toNat ∧ acked.toNat ≤ c.snd.length then
    { c with snd := c.snd.drop acked.toNat, sndUna := ack, retries := 0 }
  else if acked.toNat = c.snd.length + 1 then { c with snd := [], sndUna := ack, retries := 0 }
  else if c.snd.length + 1 < acked.toNat then { c with snd := [], sndUna := ack, retries := 0 }
  else c

def acked (c : Conn) (seg : Segment) : UInt32 := seg.ack - c.sndUna

def slid (c : Conn) (seg : Segment) : Conn := c.slide (c.acked seg) seg.ack

variable (now : UInt64) (seg : Segment)

/-- `acked` is compared with the length it has already cut. -/
def waitAcked (acked : UInt32) (c : Conn) : Conn :=
  if c.st = .finWait1 ∧ c.snd.length + 1 ≤ acked.toNat then { c with st := .finWait2 } else c

/-- A connection that is released is `none`. -/
def lastAcked (acked : UInt32) (c : Conn) : Option Conn :=
  if c.st = .lastAck ∧ 1 ≤ acked.toNat then
    if c.rx ≠ [] then some { c with st := .closing } else none
  else some c

def processAck (c : Conn) : Option Conn :=
  if seg.flags.ack then ((c.slid seg).waitAcked (c.acked seg)).lastAcked (c.acked seg) else some c

def processData (c : Conn) : Conn × List Sent :=
  if seg.data ≠ [] ∧ c.st = .established then
    if seg.seq = c.rcvNxt ∧ seg.data.length ≤ tcpRxbuf - c.rx.length then
      let c := { c with rx := c.rx ++ seg.data, rcvNxt := c.rcvNxt + UInt32.ofNat seg.data.length }
      (c, [c.pureAck])
    else if seg.seq ≠ c.rcvNxt then (c, [c.pureAck])
    else (c, [])
  else (c, [])

/-- The `FIN` counts where the segment ends, or begins, at the next byte. -/
def countFin (c : Conn) : Conn :=
  if seg.seq + UInt32.ofNat seg.data.length = c.rcvNxt ∨ seg.seq = c.rcvNxt then
    { c with rcvNxt := c.rcvNxt + 1 }
  else c

def processFin (c : Conn) : Option Conn × List Sent :=
  if seg.flags.fin ∧ (c.st = .established ∨ c.st = .finWait1 ∨ c.st = .finWait2) then
    let c := c.countFin seg
    let ack := c.pureAck
    if c.st = .established then
      let c := { c with st := .lastAck, finSeq := c.sndNxt, lastSend := now, retries := 0 }
      (some c, [ack, c.sendFin])
    else if c.st = .finWait2 then
      if c.rx ≠ [] then (some { c with st := .closing }, [ack]) else (none, [ack])
    else (some c, [ack])
  else (some c, [])

/-- What `net_tcp_deliver` does once it has found the connection. -/
def deliver (c : Conn) : Option Conn × List Sent :=
  if seg.flags.rst then (none, [])
  else if c.st = .synSent then
    let r := c.handshake seg
    (some r.1, r.2)
  else
    match c.processAck seg with
    | none => (none, [])
    | some c =>
      let data := c.processData seg
      let fin := data.1.processFin now seg
      (fin.1, data.2 ++ fin.2)

/-- `none` where the call is refused. -/
def netTcpSend (data : Bytes) (c : Conn) : Option (Conn × List Sent) :=
  if data = [] ∨ tcpMaxData < data.length then none
  else if c.st ≠ .established then none
  else if tcpSndbuf < c.snd.length + data.length then none
  else
    let c := { c with snd := c.snd ++ data }
    some ({ c with lastSend := now, retries := 0 }, [c.sendData])

/-- The result of `net_tcp_recv`; no bytes are the end of the stream. -/
inductive Received where
  | again
  | bytes (b : Bytes)
deriving DecidableEq

def netTcpRecv (cap : Nat) (c : Conn) : Received × Option Conn × List Sent :=
  if cap = 0 ∨ c.st = .listen ∨ c.st = .synSent then (.again, some c, [])
  else
    let got := c.rx.take cap
    let c := { c with rx := c.rx.drop cap }
    let out := if got ≠ [] ∧ c.st = .established then [c.pureAck] else []
    if c.rx = [] ∧ (c.st = .closing ∨ c.st = .lastAck) then (.bytes got, none, out)
    else if got = [] ∧ c.st = .established then (.again, some c, out)
    else (.bytes got, some c, out)

/-- The first section of `net_tcp_close`, and whether the call waits. -/
def netTcpClose (now : UInt64) (c : Conn) : Option Conn × List Sent :=
  if c.st = .established ∨ c.st = .finWait1 then
    let c := { c with st := .finWait1, finSeq := c.sndNxt, lastSend := now, retries := 0 }
    (some c, [c.sendFin])
  else (none, [])

variable {c : Conn} {seg : Segment} {now : UInt64}

/-- What an acknowledgement leaves as it is. -/
lemma slide_frame (acked ack : UInt32) (c : Conn) :
    ∃ snd sndUna retries, c.slide acked ack = { c with snd := snd, sndUna := sndUna, retries := retries } := by
  unfold slide
  split
  · exact ⟨_, _, _, rfl⟩
  split
  · exact ⟨_, _, _, rfl⟩
  split
  · exact ⟨_, _, _, rfl⟩
  · exact ⟨_, _, _, rfl⟩

/-- An acknowledgement of data in the buffer, and of one byte more at most. -/
lemma slid_of_le (h : (c.acked seg).toNat ≤ c.snd.length + 1) :
    (c.slid seg).snd = c.snd.drop (c.acked seg).toNat ∧ (c.slid seg).sndUna = seg.ack := by
  unfold slid slide
  split
  · exact ⟨rfl, rfl⟩
  split
  · rw [drop_eq_nil_of_le (by omega)]
    exact ⟨rfl, rfl⟩
  split
  · omega
  · have hZero : (c.acked seg).toNat = 0 := by omega
    have hAcked : seg.ack - c.sndUna = 0 := UInt32.toNat_inj.mp hZero
    rw [hZero]
    exact ⟨rfl, (sub_eq_zero.mp hAcked).symm⟩

inductive Acknowledged (seg : Segment) (c : Conn) : Option Conn → Prop where
  | ignored (none : seg.flags.ack = false) : Acknowledged seg c (some c)
  | slid (ack : seg.flags.ack = true)
      (wait : c.st = .finWait1 → (c.acked seg).toNat < (c.slid seg).snd.length + 1)
      (last : c.st = .lastAck → (c.acked seg).toNat = 0) : Acknowledged seg c (some (c.slid seg))
  | finAcked (ack : seg.flags.ack = true) (wait : c.st = .finWait1)
      (enough : (c.slid seg).snd.length + 1 ≤ (c.acked seg).toNat) :
      Acknowledged seg c (some { c.slid seg with st := .finWait2 })
  | closing (ack : seg.flags.ack = true) (last : c.st = .lastAck) (some' : 1 ≤ (c.acked seg).toNat)
      (rest : c.rx ≠ []) : Acknowledged seg c (some { c.slid seg with st := .closing })
  | released (ack : seg.flags.ack = true) (last : c.st = .lastAck) (some' : 1 ≤ (c.acked seg).toNat)
      (empty : c.rx = []) : Acknowledged seg c none

lemma slid_frame (c : Conn) (seg : Segment) :
    ∃ snd sndUna retries, c.slid seg = { c with snd := snd, sndUna := sndUna, retries := retries } :=
  slide_frame _ _ c

lemma processAck_acknowledged (seg : Segment) (c : Conn) : Acknowledged seg c (c.processAck seg) := by
  unfold processAck
  cases hAck : seg.flags.ack with
  | false => exact .ignored hAck
  | true =>
    obtain ⟨snd, sndUna, retries, hSlid⟩ := slid_frame c seg
    have hSt : (c.slid seg).st = c.st := by rw [hSlid]
    have hRx : (c.slid seg).rx = c.rx := by rw [hSlid]
    rw [if_pos rfl]
    by_cases wait : (c.slid seg).st = .finWait1 ∧ (c.slid seg).snd.length + 1 ≤ (c.acked seg).toNat
    · rw [waitAcked, if_pos wait]
      exact .finAcked hAck (hSt ▸ wait.1) wait.2
    rw [waitAcked, if_neg wait, lastAcked]
    rw [hSt] at wait
    rw [hSt]
    split
    · rename_i last
      split_ifs with hRest
      · rw [hRx] at hRest
        exact .closing hAck last.1 last.2 hRest
      · rw [hRx] at hRest
        exact .released hAck last.1 last.2 (by simpa using hRest)
    · rename_i last
      refine .slid hAck (fun h => ?_) fun h => ?_
      · exact Nat.lt_of_not_le fun hLe => wait ⟨h, hLe⟩
      · by_contra hZero
        exact last ⟨h, by omega⟩

/-- Data is taken where it continues what has arrived and there is room for it. -/
lemma processData_cases (seg : Segment) (c : Conn) : (c.processData seg).1 = c ∨
    c.st = .established ∧ seg.seq = c.rcvNxt ∧ (c.processData seg).1 =
        { c with rx := c.rx ++ seg.data, rcvNxt := c.rcvNxt + UInt32.ofNat seg.data.length } := by
  unfold processData
  split
  · rename_i hData
    split
    · rename_i hNext
      exact .inr ⟨hData.2, hNext.1, rfl⟩
    · split <;> exact .inl rfl
  · exact .inl rfl

/-- Data that arrives changes the receive buffer only. -/
lemma processData_frame (seg : Segment) (c : Conn) :
    ∃ rx rcvNxt, (c.processData seg).1 = { c with rx := rx, rcvNxt := rcvNxt } := by
  rcases processData_cases seg c with same | ⟨-, -, taken⟩
  · exact ⟨_, _, same⟩
  · exact ⟨_, _, taken⟩

inductive Finned (seg : Segment) (c : Conn) : Option Conn → Prop where
  | same (none : seg.flags.fin = true → c.st ≠ .established) : Finned seg c (some c)
  | counted (rcvNxt : UInt32) (wait : c.st = .finWait1) : Finned seg c (some { c with rcvNxt := rcvNxt })
  | lastAck (rcvNxt : UInt32) (lastSend : UInt64) (fin : seg.flags.fin = true) (open' : c.st = .established) :
      Finned seg c (some { c with rcvNxt := rcvNxt, st := .lastAck, finSeq := c.sndNxt, lastSend := lastSend,
                                  retries := 0 })
  | closing (rcvNxt : UInt32) (half : c.st = .finWait2) (rest : c.rx ≠ []) :
      Finned seg c (some { c with rcvNxt := rcvNxt, st := .closing })
  | released (half : c.st = .finWait2) (empty : c.rx = []) : Finned seg c none

lemma processFin_finned (now : UInt64) (seg : Segment) (c : Conn) : Finned seg c (c.processFin now seg).1 := by
  have next : ∃ rcvNxt, c.countFin seg = { c with rcvNxt := rcvNxt } := by
    unfold countFin
    split <;> exact ⟨_, rfl⟩
  obtain ⟨rcvNxt, hNext⟩ := next
  unfold processFin
  split_ifs with hFin
  · simp only [hNext]
    split
    · exact .lastAck _ _ hFin.1 (by assumption)
    split
    · split
      · exact .closing _ (by assumption) (by assumption)
      · rename_i half hRx
        exact .released half (by simpa using hRx)
    · rename_i hOpen hHalf
      exact .counted _ ((hFin.2.resolve_left hOpen).resolve_right hHalf)
  · exact .same fun fin hOpen => hFin ⟨fin, .inl hOpen⟩

lemma netTcpSend_eq_some {data : Bytes} {r : Conn × List Sent} (h : c.netTcpSend now data = some r) :
    c.st = .established ∧ r = ({ c with snd := c.snd ++ data, lastSend := now, retries := 0 },
        [sendData { c with snd := c.snd ++ data }]) := by
  unfold netTcpSend at h
  split at h
  · cases h
  split at h
  · cases h
  rename_i hOpen
  split at h
  · cases h
  cases h
  exact ⟨by simpa using hOpen, rfl⟩

inductive Recv (cap : Nat) (c : Conn) : Received → Option Conn → Prop where
  | refused : Recv cap c .again (some c)
  | empty (none : c.rx.take cap = []) (open' : c.st = .established) :
      Recv cap c .again (some { c with rx := c.rx.drop cap })
  | some' (pos : cap ≠ 0) (more : c.rx.take cap ≠ [] ∨ c.st ≠ .established)
      (rest : c.rx.drop cap ≠ [] ∨ c.st ≠ .closing ∧ c.st ≠ .lastAck) :
      Recv cap c (.bytes (c.rx.take cap)) (some { c with rx := c.rx.drop cap })
  | last (rest : c.rx.drop cap = []) (done : c.st = .closing ∨ c.st = .lastAck) :
      Recv cap c (.bytes (c.rx.take cap)) none

lemma netTcpRecv_recv (cap : Nat) (c : Conn) : Recv cap c (c.netTcpRecv cap).1 (c.netTcpRecv cap).2.1 := by
  unfold netTcpRecv
  split_ifs with hCap
  · exact .refused
  dsimp only
  split
  · rename_i hLast
    exact .last hLast.1 hLast.2
  rename_i hRest
  have rest : c.rx.drop cap ≠ [] ∨ c.st ≠ .closing ∧ c.st ≠ .lastAck := by
    by_cases hEmpty : c.rx.drop cap = []
    · exact .inr (not_or.mp fun hDone => hRest ⟨hEmpty, hDone⟩)
    · exact .inl hEmpty
  split
  · rename_i hOpen
    exact .empty hOpen.1 hOpen.2
  · rename_i hMore
    refine .some' (fun h => hCap (.inl h)) ?_ rest
    by_cases hEmpty : c.rx.take cap = []
    · exact .inr fun hOpen => hMore ⟨hEmpty, hOpen⟩
    · exact .inl hEmpty

variable (now : UInt64) (seg : Segment) (c : Conn)

/-- A timeout sends again, or gives the connection up. -/
lemma tcpPollConn_cases : ((c.tcpPollConn now).1 = none ∧ ∀ x ∈ (c.tcpPollConn now).2, x.data = []) ∨
      ∃ lastSend retries, (c.tcpPollConn now).1 = some { c with lastSend := lastSend, retries := retries } ∧
        ((∀ x ∈ (c.tcpPollConn now).2, x.data = []) ∨ (c.tcpPollConn now).2 = [c.sendData]) := by
  unfold tcpPollConn
  split
  · exact .inr ⟨_, _, rfl, .inl nofun⟩
  split
  · exact .inr ⟨_, _, rfl, .inl nofun⟩
  dsimp only
  split
  · exact .inl ⟨rfl, fun x hx => by cases mem_singleton.mp hx; rfl⟩
  split
  · exact .inr ⟨_, _, rfl, .inl fun x hx => by cases mem_singleton.mp hx; rfl⟩
  split
  · exact .inr ⟨_, _, rfl, .inr rfl⟩
  · exact .inr ⟨_, _, rfl, .inl fun x hx => by cases mem_singleton.mp hx; rfl⟩

lemma processData_sent : ∀ x ∈ (c.processData seg).2, x.data = [] := by
  unfold processData
  intro x hx
  split at hx
  · split at hx
    · cases mem_singleton.mp hx
      rfl
    · split at hx
      · cases mem_singleton.mp hx
        rfl
      · cases hx
  · cases hx

lemma processFin_sent : ∀ x ∈ (c.processFin now seg).2, x.data = [] := by
  unfold processFin
  intro x hx
  split at hx
  · dsimp only at hx
    split at hx
    · rcases mem_cons.mp hx with rfl | hx
      · rfl
      · cases mem_singleton.mp hx
        rfl
    · split at hx
      · split at hx <;> cases mem_singleton.mp hx <;> rfl
      · cases mem_singleton.mp hx
        rfl
  · cases hx

/-- Inbound segments are answered without data. -/
lemma deliver_sent : ∀ x ∈ (c.deliver now seg).2, x.data = [] := by
  unfold deliver
  intro x hx
  split at hx
  · cases hx
  split at hx
  · unfold handshake at hx
    split at hx
    · cases mem_singleton.mp hx
      rfl
    · cases hx
  · split at hx
    · cases hx
    · rcases mem_append.mp hx with hx | hx
      · exact processData_sent seg _ x hx
      · exact processFin_sent now seg _ x hx

end Conn

def opened : Conn := { st := .established, lport := 30000, rport := 80, rip := 0x0A000202, sndUna := 1 }

def ackOf (ack : UInt32) : Segment := ⟨80, 30000, 0, ack, { ack := true }, []⟩

end YartOS.Net
