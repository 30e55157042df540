import YartOS.Lib.Runs
import YartOS.Net.Tcp

/-! The table of connections: which one a segment is for, and which ones a listener returns. -/
namespace YartOS.Net

open Runs Function List

abbrev SlotId := Fin tcpMaxConn

instance : NeZero tcpMaxConn := ⟨nofun⟩

/-- `g_tcp` with the next port. The lists hold the slots of waiting calls: for a connection, its
end, or a peer's address. -/
structure Tcp where
  conns : SlotId → Option Conn := fun _ => none
  ephPort : UInt16 := 30000
  connecting : List SlotId := []
  closing : List SlotId := []
  resolving : List SlotId := []

inductive Accepted where
  | refused
  | later
  | conn (i : SlotId)

namespace Tcp

variable (t : Tcp)

def search (p : SlotId → Conn → Bool) : Option (SlotId × Conn) :=
  (finRange tcpMaxConn).findSome? fun i =>
    (t.conns i).bind fun c => if p i c then some (i, c) else none

def freeSlot : Option SlotId := (finRange tcpMaxConn).find? fun i => (t.conns i).isNone

variable (src : UInt32) (seg : Segment)

def put (i : SlotId) (c : Option Conn) : Tcp := { t with conns := update t.conns i c }

def onSlot (i : SlotId) (f : Conn → Option Conn × List Sent) : Tcp × List Sent :=
  match t.conns i with
  | none => (t, [])
  | some c => (t.put i (f c).1, (f c).2)

def findChild : Option (SlotId × Conn) :=
  t.search fun _ o => o.lport == seg.dport && o.st != .listen && (o.rport == seg.sport && o.rip == src)

def findListener : Option (SlotId × Conn) := t.search fun _ o => o.lport == seg.dport && o.st == .listen

def child (iss : UInt32) : Conn :=
  { st := .established, lport := seg.dport, rport := seg.sport, rip := src, rcvNxt := seg.seq + 1, iss := iss,
    sndUna := iss + 1 }

def listenerDeliver (iss : UInt32) : Tcp :=
  if seg.flags.syn && !seg.flags.rst then
    match t.freeSlot with
    | none => t
    | some ch => { t.put ch (some (child src seg iss)) with resolving := ch :: t.resolving }
  else t

def resetAnswer : List Sent :=
  if seg.flags.rst then []
  else
    let tmp : Conn := { st := .closed, lport := seg.dport, rport := seg.sport, rip := src }
    [tmp.tcpSendSeg { rst := true, ack := true } (if seg.flags.ack then seg.ack else 0)
      (seg.seq + UInt32.ofNat seg.data.length + if seg.flags.syn then 1 else 0) []]

def netTcpDeliver (now : UInt64) (src : UInt32) (seg : Segment) (iss : UInt32) : Tcp × List Sent :=
  match t.findChild src seg with
  | some (i, _) => t.onSlot i (·.deliver now seg)
  | none =>
    match t.findListener seg with
    | some _ => (t.listenerDeliver src seg iss, [])
    | none => (t, resetAnswer src seg)

/-- The rest of `net_tcp_deliver` for a `SYN`, with the slot that was taken for it. -/
def synResolved (now : UInt64) (aok : Bool) (ch : Conn) : Option Conn × List Sent :=
  if ch.st = .established then
    if aok then
      (some { ch with lastSend := now }, [ch.tcpSendSeg { syn := true, ack := true } ch.iss ch.rcvNxt []])
    else (none, [])
  else (some ch, [])

def resolved (i : SlotId) (now : UInt64) (aok : Bool) : Tcp × List Sent :=
  if i ∈ t.resolving then { t with resolving := t.resolving.erase i }.onSlot i (synResolved now aok) else (t, [])

def outbound (now : UInt64) (ip : UInt32) (port : UInt16) (iss : UInt32) : Conn :=
  { st := .synSent, rip := ip, rport := port, lport := t.ephPort, iss := iss, sndUna := iss, lastSend := now }

/-- `net_tcp_connect` up to the wait, once the address of the peer is known. -/
def netTcpConnect (now : UInt64) (ip : UInt32) (port : UInt16) (iss : UInt32) : Tcp × List Sent :=
  match t.freeSlot with
  | none => (t, [])
  | some i =>
    let c := t.outbound now ip port iss
    ({ t.put i (some c) with ephPort := t.ephPort + 1, connecting := i :: t.connecting },
      [c.tcpSendSeg { syn := true } iss 0 []])

/-- The end of `net_tcp_connect`: a connection that is not established is dropped. -/
def connectDone (c : Conn) : Option Conn × List Sent := (if c.st = .established then some c else none, [])

def connectEnd (i : SlotId) : Tcp :=
  if i ∈ t.connecting then ({ t with connecting := t.connecting.erase i }.onSlot i connectDone).1 else t

/-- The first section of `net_tcp_close`; it waits where it has sent a `FIN`. -/
def netTcpClose (i : SlotId) (now : UInt64) : Tcp × List Sent :=
  let waits := (t.conns i).any fun c => (c.netTcpClose now).1.isSome
  { t with closing := if waits then i :: t.closing else t.closing }.onSlot i (·.netTcpClose now)

def closeEnd (i : SlotId) : Tcp :=
  if i ∈ t.closing then { t with closing := t.closing.erase i }.put i none else t

def netTcpListen (port : UInt16) : Tcp :=
  match t.search fun _ o => o.lport == port with
  | some _ => t
  | none =>
    match t.freeSlot with
    | none => t
    | some i => t.put i (some { st := .listen, lport := port })

def netTcpAccept (listenerId : SlotId) : Accepted :=
  match t.conns listenerId with
  | none => .refused
  | some l =>
    if l.st = .listen then
      match t.search fun i o => o.st == .established && o.lport == l.lport && i != listenerId with
      | some (i, _) => .conn i
      | none => .later
    else .refused

def tcpPoll (now : UInt64) : Tcp :=
  { t with conns := fun i => (t.conns i).bind fun c => if c.st = .listen then some c else (c.tcpPollConn now).1 }

def netTcpSend (i : SlotId) (now : UInt64) (data : Bytes) : Tcp × List Sent :=
  t.onSlot i fun c => ((c.netTcpSend now data).elim (some c) (some ·.1), (c.netTcpSend now data).elim [] (·.2))

def netTcpRecv (i : SlotId) (cap : Nat) : Tcp × List Sent := t.onSlot i fun c => (c.netTcpRecv cap).2

end Tcp

/-- What happens to the table; the calls that wait end at any later time. -/
inductive TcpEvent where
  | connect (now : UInt64) (ip : UInt32) (port : UInt16) (iss : UInt32)
  | connectEnd (i : SlotId)
  | listen (port : UInt16)
  | accept (listenerId : SlotId)
  | close (i : SlotId) (now : UInt64)
  | closeEnd (i : SlotId)
  | segment (now : UInt64) (src : UInt32) (seg : Segment) (iss : UInt32)
  | resolved (i : SlotId) (now : UInt64) (aok : Bool)
  | poll (now : UInt64)
  | send (i : SlotId) (now : UInt64) (data : Bytes)
  | recv (i : SlotId) (cap : Nat)

def Tcp.event (t : Tcp) : TcpEvent → Tcp
  | .connect now ip port iss => (t.netTcpConnect now ip port iss).1
  | .connectEnd i => t.connectEnd i
  | .listen port => t.netTcpListen port
  | .accept _ => t
  | .close i now => (t.netTcpClose i now).1
  | .closeEnd i => t.closeEnd i
  | .segment now src seg iss => (t.netTcpDeliver now src seg iss).1
  | .resolved i now aok => (t.resolved i now aok).1
  | .poll now => t.tcpPoll now
  | .send i now data => (t.netTcpSend i now data).1
  | .recv i cap => (t.netTcpRecv i cap).1

/-- Of the last connection of a slot: whether a `SYN` created it, whether the peer has answered,
and how often it was accepted. -/
structure Seen where
  inbound : Bool := false
  answered : Bool := false
  accepts : Nat := 0

structure Demux where
  tcp : Tcp := {}
  seen : SlotId → Seen := fun _ => {}

/-- It acknowledges the `SYN` and nothing that was not sent. -/
def Conn.answersSyn (c : Conn) (seg : Segment) : Bool :=
  seg.flags.ack && !seg.flags.rst && decide (seg.ack - (c.iss + 1) ≤ c.sndNxt - (c.iss + 1))

namespace Demux

def segmentSeen (s : Demux) (src : UInt32) (seg : Segment) : SlotId → Seen :=
  match s.tcp.findChild src seg with
  | some (i, c) =>
    if c.answersSyn seg then update s.seen i { s.seen i with answered := true } else s.seen
  | none =>
    match s.tcp.findListener seg, s.tcp.freeSlot with
    | some _, some ch =>
      if seg.flags.syn && !seg.flags.rst then update s.seen ch { inbound := true } else s.seen
    | _, _ => s.seen

def acceptSeen (s : Demux) (listenerId : SlotId) : SlotId → Seen :=
  match s.tcp.netTcpAccept listenerId with
  | .conn i => update s.seen i { s.seen i with accepts := (s.seen i).accepts + 1 }
  | _ => s.seen

def connectSeen (s : Demux) : SlotId → Seen :=
  match s.tcp.freeSlot with
  | some i => update s.seen i {}
  | none => s.seen

def observe (s : Demux) : TcpEvent → SlotId → Seen
  | .connect .. => s.connectSeen
  | .segment _ src seg _ => s.segmentSeen src seg
  | .accept listenerId => s.acceptSeen listenerId
  | _ => s.seen

def apply (s : Demux) (e : TcpEvent) : Demux := { tcp := s.tcp.event e, seen := s.observe e }

end Demux

def Conn.ends (c : Conn) : UInt16 × UInt16 × UInt32 := (c.lport, c.rport, c.rip)

/-- The slot holds a connection, not a listener, between the two ends. -/
def Tcp.Uses (t : Tcp) (i : SlotId) (ends : UInt16 × UInt16 × UInt32) : Prop :=
  ∃ c, t.conns i = some c ∧ c.st ≠ .listen ∧ c.ends = ends

namespace Demux

/-- Connections differ in their ends; inbound ones are accepted once, after their handshake. -/
structure Ok (s : Demux) : Prop where
  unique : Relator.LeftUnique s.tcp.Uses
  once : ∀ i, (s.seen i).inbound = true → (s.seen i).accepts ≤ 1
  complete : ∀ i, (s.seen i).inbound = true → 0 < (s.seen i).accepts → (s.seen i).answered = true

/-- A connection goes out from a port that has none to the same peer, and a listener is asked when
inbound connections on its port have finished their handshake and were not accepted. -/
def Safe (s : Demux) : TcpEvent → Prop
  | .connect _ ip port _ => ∀ i, ¬ s.tcp.Uses i (s.tcp.ephPort, port, ip)
  | .accept listenerId => ∀ l, s.tcp.conns listenerId = some l → l.st = .listen →
      ∀ i c, s.tcp.conns i = some c → c.st = .established → c.lport = l.lport → (s.seen i).inbound = true →
        (s.seen i).answered = true ∧ (s.seen i).accepts = 0
  | _ => True

end Demux

namespace Conn

variable {c c' : Conn} {now : UInt64} {seg : Segment}

variable (now : UInt64)

/-- A connection keeps its ends, and stays a listener. -/
def Kept (c : Conn) (o : Option Conn) : Prop :=
  ∀ c', o = some c' → c'.ends = c.ends ∧ (c.st = .listen → c'.st = .listen)

lemma kept_none (c : Conn) : Kept c none := nofun

lemma kept_some (ends : c'.ends = c.ends) (st : c.st = .listen → c'.st = .listen) : Kept c (some c') := by
  intro c'' h
  cases h
  exact ⟨ends, st⟩

lemma Kept.trans {o : Option Conn} (h : Kept c (some c')) (h' : Kept c' o) : Kept c o := by
  intro c'' hc''
  obtain ⟨ends, st⟩ := h c' rfl
  obtain ⟨ends', st'⟩ := h' c'' hc''
  exact ⟨ends'.trans ends, fun hSt => st' (st hSt)⟩

lemma kept_processAck (seg : Segment) (c : Conn) : Kept c (c.processAck seg) := by
  obtain ⟨snd, sndUna, retries, hSlid⟩ := slid_frame c seg
  have acknowledged := processAck_acknowledged seg c
  generalize c.processAck seg = o at acknowledged ⊢
  cases acknowledged with
  | ignored => exact kept_some rfl id
  | slid => rw [hSlid]; exact kept_some rfl id
  | finAcked _ wait => rw [hSlid]; exact kept_some rfl fun hSt => absurd (hSt.symm.trans wait) nofun
  | closing _ last => rw [hSlid]; exact kept_some rfl fun hSt => absurd (hSt.symm.trans last) nofun
  | released => exact kept_none c

lemma kept_processFin (seg : Segment) (c : Conn) : Kept c (c.processFin now seg).1 := by
  have finned := processFin_finned now seg c
  generalize (c.processFin now seg).1 = o at finned ⊢
  cases finned with
  | same => exact kept_some rfl id
  | counted => exact kept_some rfl id
  | lastAck _ _ _ open' => exact kept_some rfl fun hSt => absurd (hSt.symm.trans open') nofun
  | closing _ half => exact kept_some rfl fun hSt => absurd (hSt.symm.trans half) nofun
  | released => exact kept_none c

lemma kept_handshake (hSt : c.st = .synSent) : Kept c (some (c.handshake seg).1) := by
  have hListen : c.st ≠ .listen := by
    rw [hSt]
    nofun
  unfold handshake
  split <;> exact kept_some rfl (absurd · hListen)

lemma kept_deliver (seg : Segment) (c : Conn) : Kept c (c.deliver now seg).1 := by
  unfold deliver
  split
  · exact kept_none c
  split_ifs with hSt
  · exact kept_handshake hSt
  have hAck := kept_processAck seg c
  cases h : c.processAck seg with
  | none => exact kept_none c
  | some c₁ =>
    rw [h] at hAck
    obtain ⟨rx, rcvNxt, hData⟩ := processData_frame seg c₁
    have data : Kept c₁ (some (c₁.processData seg).1) := by
      rw [hData]
      exact kept_some rfl id
    exact hAck.trans (data.trans (kept_processFin now seg _))

lemma kept_netTcpRecv (cap : Nat) (c : Conn) : Kept c (c.netTcpRecv cap).2.1 := by
  have recv := netTcpRecv_recv cap c
  generalize (c.netTcpRecv cap).1 = r, (c.netTcpRecv cap).2.1 = o at recv ⊢
  cases recv with
  | refused => exact kept_some rfl id
  | empty => exact kept_some rfl id
  | some' => exact kept_some rfl id
  | last => exact kept_none c

lemma kept_netTcpSend (data : Bytes) (c : Conn) : Kept c ((c.netTcpSend now data).elim (some c) (some ·.1)) := by
  cases h : c.netTcpSend now data with
  | none => exact kept_some rfl id
  | some r =>
    obtain ⟨-, rfl⟩ := netTcpSend_eq_some h
    exact kept_some rfl id

lemma kept_netTcpClose (c : Conn) : Kept c (c.netTcpClose now).1 := by
  unfold netTcpClose
  split_ifs with hOpen
  · refine kept_some rfl fun hSt => ?_
    rw [hSt] at hOpen
    simp at hOpen
  · exact kept_none c

lemma kept_tcpPollConn (c : Conn) : Kept c (c.tcpPollConn now).1 := by
  rcases tcpPollConn_cases now c with ⟨gone, -⟩ | ⟨lastSend, retries, kept, -⟩
  · rw [gone]
    exact kept_none c
  · rw [kept]
    exact kept_some rfl id

lemma kept_connectDone (c : Conn) : Kept c (Tcp.connectDone c).1 := by
  unfold Tcp.connectDone
  split
  · exact kept_some rfl id
  · exact kept_none c

lemma kept_synResolved (aok : Bool) (c : Conn) : Kept c (Tcp.synResolved now aok c).1 := by
  unfold Tcp.synResolved
  split
  · split
    · exact kept_some rfl id
    · exact kept_none c
  · exact kept_some rfl id

end Conn

namespace Tcp

variable {t t' : Tcp} {i j : SlotId} {c : Conn} {k : UInt16 × UInt16 × UInt32} {p : SlotId → Conn → Bool}

lemma search_eq_some (h : t.search p = some (i, c)) : t.conns i = some c ∧ p i c = true := by
  obtain ⟨j, -, hj⟩ := exists_of_findSome?_eq_some h
  obtain ⟨c', hc', hp⟩ := Option.bind_eq_some_iff.mp hj
  split at hp
  · cases hp
    exact ⟨hc', by assumption⟩
  · cases hp

lemma search_eq_none (h : t.search p = none) (hc : t.conns i = some c) : p i c = false := by
  have hi := findSome?_eq_none_iff.mp h i (mem_finRange i)
  rw [hc] at hi
  simpa using hi

variable {o : Option Conn} {now : UInt64} {seg : Segment} {src : UInt32}

lemma uses_put_self : (t.put i o).Uses i k ↔ ∃ c, o = some c ∧ c.st ≠ .listen ∧ c.ends = k := by
  simp [Uses, put, update_self]

lemma uses_put_of_ne (h : j ≠ i) : (t.put i o).Uses j k ↔ t.Uses j k := by simp [Uses, put, update_of_ne h]

/-- A step that lets no slot use new ends. -/
lemma unique_of_uses (h : Relator.LeftUnique t.Uses) (sub : ∀ j k, t'.Uses j k → t.Uses j k) :
    Relator.LeftUnique t'.Uses :=
  fun _ _ _ ha hb => h (sub _ _ ha) (sub _ _ hb)

lemma uses_onSlot {f : Conn → Option Conn × List Sent} (kept : ∀ c, Conn.Kept c (f c).1)
    (h : (t.onSlot i f).1.Uses j k) : t.Uses j k := by
  unfold onSlot at h
  split at h
  · exact h
  rename_i c hc
  by_cases hij : j = i
  · subst hij
    obtain ⟨c', hc', hSt, hk⟩ := uses_put_self.mp h
    obtain ⟨ends, st⟩ := kept c c' hc'
    exact ⟨c, hc, fun hListen => hSt (st hListen), ends.symm.trans hk⟩
  · exact (uses_put_of_ne hij).mp h

/-- A free slot takes a listener, or a connection whose ends are not in use. -/
lemma unique_put (h : Relator.LeftUnique t.Uses) (fresh : c.st ≠ .listen → ∀ j, ¬ t.Uses j c.ends) :
    Relator.LeftUnique (t.put i (some c)).Uses := by
  have new : ∀ {k}, (t.put i (some c)).Uses i k → ∀ j, j ≠ i → ¬ (t.put i (some c)).Uses j k := by
    intro k hi j hj hUses
    obtain ⟨c', hc', hSt, rfl⟩ := uses_put_self.mp hi
    cases hc'
    exact fresh hSt j ((uses_put_of_ne hj).mp hUses)
  intro a b k ha hb
  by_contra hab
  by_cases hai : a = i
  · subst hai
    exact new ha b (Ne.symm hab) hb
  by_cases hbi : b = i
  · subst hbi
    exact new hb a hab ha
  · exact hab (h ((uses_put_of_ne hai).mp ha) ((uses_put_of_ne hbi).mp hb))

lemma uses_tcpPoll (h : (t.tcpPoll now).Uses j k) : t.Uses j k := by
  obtain ⟨c', hc', hSt, hk⟩ := h
  obtain ⟨c, hc, hPoll⟩ := Option.bind_eq_some_iff.mp hc'
  split at hPoll
  · cases hPoll
    exact ⟨_, hc, hSt, hk⟩
  · obtain ⟨ends, st⟩ := Conn.kept_tcpPollConn now c c' hPoll
    exact ⟨c, hc, fun hListen => hSt (st hListen), ends.symm.trans hk⟩

lemma unique_netTcpDeliver {iss : UInt32}
    (h : Relator.LeftUnique t.Uses) : Relator.LeftUnique (t.netTcpDeliver now src seg iss).1.Uses := by
  unfold netTcpDeliver
  cases hChild : t.findChild src seg with
  | some found => exact unique_of_uses h fun _ _ => uses_onSlot (Conn.kept_deliver now seg)
  | none =>
    dsimp only
    split
    · unfold listenerDeliver
      split
      · split
        · exact h
        · rename_i ch _
          refine unique_put (i := ch) (c := child src seg iss) h fun _ j => ?_
          rintro ⟨c, hc, hSt, hk⟩
          have other := search_eq_none hChild hc
          simp only [Conn.ends, Prod.mk.injEq] at hk
          simp [hSt, hk] at other
          exact other rfl rfl rfl
      · exact h
    · exact h

end Tcp

namespace Demux

variable {s : Demux}

variable {e : TcpEvent} {i listenerId : SlotId}

lemma unique_event (h : Relator.LeftUnique s.tcp.Uses) (safe : s.Safe e) : Relator.LeftUnique (s.tcp.event e).Uses := by
  cases e with
  | connect now ip port iss =>
    change Relator.LeftUnique (s.tcp.netTcpConnect now ip port iss).1.Uses
    unfold Tcp.netTcpConnect
    split
    · exact h
    · rename_i i _
      have unique := Tcp.unique_put (i := i) (c := s.tcp.outbound now ip port iss) h fun _ => safe
      exact unique
  | connectEnd i =>
    change Relator.LeftUnique (s.tcp.connectEnd i).Uses
    unfold Tcp.connectEnd
    split
    · refine Tcp.unique_of_uses h fun _ _ hUses => ?_
      have kept := Tcp.uses_onSlot Conn.kept_connectDone hUses
      exact kept
    · exact h
  | listen port =>
    change Relator.LeftUnique (s.tcp.netTcpListen port).Uses
    unfold Tcp.netTcpListen
    split
    · exact h
    split
    · exact h
    · exact Tcp.unique_put h fun hListen => absurd rfl hListen
  | accept listenerId => exact h
  | close i now =>
    refine Tcp.unique_of_uses h fun _ _ hUses => ?_
    have kept := Tcp.uses_onSlot (Conn.kept_netTcpClose now) hUses
    exact kept
  | closeEnd i =>
    change Relator.LeftUnique (s.tcp.closeEnd i).Uses
    unfold Tcp.closeEnd
    split
    · refine Tcp.unique_of_uses h fun j k hUses => ?_
      by_cases hj : j = i
      · subst hj
        obtain ⟨c, hc, -⟩ := Tcp.uses_put_self.mp hUses
        cases hc
      · exact (Tcp.uses_put_of_ne hj).mp hUses
    · exact h
  | segment now src seg iss => exact Tcp.unique_netTcpDeliver h
  | resolved i now aok =>
    change Relator.LeftUnique (s.tcp.resolved i now aok).1.Uses
    unfold Tcp.resolved
    split
    · refine Tcp.unique_of_uses h fun _ _ hUses => ?_
      have kept := Tcp.uses_onSlot (Conn.kept_synResolved now aok) hUses
      exact kept
    · exact h
  | poll now => exact Tcp.unique_of_uses h fun _ _ => Tcp.uses_tcpPoll
  | send i now data => exact Tcp.unique_of_uses h fun _ _ => Tcp.uses_onSlot (Conn.kept_netTcpSend now data)
  | recv i cap => exact Tcp.unique_of_uses h fun _ _ => Tcp.uses_onSlot (Conn.kept_netTcpRecv cap)

def SeenOk (seen : SlotId → Seen) : Prop :=
  ∀ i, (seen i).inbound = true → (seen i).accepts ≤ 1 ∧ (0 < (seen i).accepts → (seen i).answered = true)

lemma SeenOk.update {seen : SlotId → Seen} {x : Seen} (h : SeenOk seen)
    (hx : x.inbound = true → x.accepts ≤ 1 ∧ (0 < x.accepts → x.answered = true)) : SeenOk (update seen i x) := by
  intro j
  by_cases hj : j = i
  · rw [hj, update_self]
    exact hx
  · rw [update_of_ne hj]
    exact h j

lemma SeenOk.segment {src : UInt32} {seg : Segment} (h : SeenOk s.seen) : SeenOk (s.segmentSeen src seg) := by
  unfold segmentSeen
  split
  · split
    · exact h.update fun hIn => ⟨(h _ hIn).1, fun _ => rfl⟩
    · exact h
  · split
    · split
      · exact h.update fun _ => ⟨Nat.zero_le 1, nofun⟩
      · exact h
    · exact h

lemma netTcpAccept_eq_conn {t : Tcp} (h : t.netTcpAccept listenerId = .conn i) :
    ∃ l c, t.conns listenerId = some l ∧ l.st = .listen ∧ t.conns i = some c ∧ c.st = .established ∧
      c.lport = l.lport := by
  unfold Tcp.netTcpAccept at h
  split at h
  · cases h
  rename_i l hl
  split at h
  · rename_i hListen
    split at h
    · rename_i c hSearch
      cases h
      obtain ⟨hc, hp⟩ := Tcp.search_eq_some hSearch
      simp only [Bool.and_eq_true, beq_iff_eq] at hp
      exact ⟨l, c, hl, hListen, hc, hp.1.1, hp.1.2⟩
    · cases h
  · cases h

lemma SeenOk.accept (h : SeenOk s.seen) (safe : s.Safe (.accept listenerId)) : SeenOk (s.acceptSeen listenerId) := by
  unfold acceptSeen
  split
  · rename_i i hAccept
    obtain ⟨l, c, hl, hListen, hc, hOpen, hPort⟩ := netTcpAccept_eq_conn hAccept
    refine h.update fun hIn => ?_
    obtain ⟨answered, never⟩ := safe l hl hListen i c hc hOpen hPort hIn
    exact ⟨by simp [never], fun _ => answered⟩
  · exact h

lemma SeenOk.observe (h : SeenOk s.seen) (safe : s.Safe e) : SeenOk (s.observe e) := by
  cases e with
  | connect =>
    change SeenOk s.connectSeen
    unfold connectSeen
    split
    · exact h.update nofun
    · exact h
  | segment => exact h.segment
  | accept => exact h.accept safe
  | connectEnd | listen | close | closeEnd | resolved | poll | send | recv => exact h

lemma Ok.seenOk (h : s.Ok) : SeenOk s.seen := fun i hIn => ⟨h.once i hIn, h.complete i hIn⟩

lemma Ok.apply (h : s.Ok) (safe : s.Safe e) : (s.apply e).Ok where
  unique := unique_event h.unique safe
  once i hIn := (h.seenOk.observe safe i hIn).1
  complete i hIn := (h.seenOk.observe safe i hIn).2

/-- From `tcp_init` on, connections stay apart and are accepted once. -/
theorem ok_of_demux_safe {events : List TcpEvent} (safe : Along apply (fun s e _ => s.Safe e) {} events) :
    Along apply (fun _ _ s' => s'.Ok) {} events := by
  have first : Demux.Ok {} := by
    refine ⟨fun _ _ _ hUses => ?_, nofun, nofun⟩
    obtain ⟨c, hc, -⟩ := hUses
    cases hc
  refine Along.of_invariant (fun s e h (hSafe : s.Safe e) => ?_) first safe
  exact ⟨h.apply hSafe, h.apply hSafe⟩

def synFrom : Segment := ⟨80, 30000, 0, 0, { syn := true }, []⟩

def peerIp : UInt32 := 0x0A000202

theorem ok_of_accept_after_ack : Along apply (fun _ _ s' => s'.Ok) {}
      [.listen 30000, .segment 0 peerIp synFrom 0, .resolved 1 0 true, .segment 0 peerIp (ackOf 1) 0, .accept 0] := by
  refine ok_of_demux_safe ⟨trivial, trivial, trivial, trivial, fun _ _ _ i _ hc _ _ => ?_, trivial⟩
  clear hc
  revert i
  decide

/-- A connection doubles one of a listener's port; an inbound one is returned before the peer has
answered, and again. -/
theorem runs_not_ok : ¬ Along apply (fun _ _ s' => s'.Ok) {}
        [.listen 30000, .segment 0 peerIp synFrom 0, .resolved 1 0 true, .connect 0 peerIp 80 0] ∧
      ¬ Along apply (fun _ _ s' => s'.Ok) {}
        [.listen 30000, .segment 0 peerIp synFrom 0, .resolved 1 0 true, .accept 0] ∧
      ¬ Along apply (fun _ _ s' => s'.Ok) {}
        [.listen 30000, .segment 0 peerIp synFrom 0, .resolved 1 0 true, .segment 0 peerIp (ackOf 1) 0, .accept 0,
          .accept 0] := by
  refine ⟨?_, ?_, ?_⟩
  · rintro ⟨-, -, -, last, -⟩
    have same : (1 : SlotId) = 2 := last.unique ⟨_, rfl, nofun, rfl⟩ ⟨_, rfl, nofun, rfl⟩
    revert same
    decide
  · rintro ⟨-, -, -, last, -⟩
    have := last.complete 1
    revert this
    decide
  · rintro ⟨-, -, -, -, -, last, -⟩
    have := last.once 1
    revert this
    decide

end Demux

end YartOS.Net
