import YartOS.Net.Parsing

/-! What the stack lets out: the firewall in both directions, and the buffers of IPv4 output. -/
namespace YartOS.Net.Inbound

open Bytes Programs List Option

variable {f : Packet} {s : Stack} {i n ip len : Nat}

/-! Operations inside their bounds. -/

lemma peek_pos (inside : i < f.len) : f.peek i = pure (f.bytes i) := by rw [Packet.peek, require_pos inside, pure_bind]

lemma peek16_pos (inside : i + 2 ≤ f.len) : f.peek16 i = pure (f.u16 i) := by
  rw [Packet.peek16, require_pos inside, pure_bind]

lemma peek32_pos (inside : i + 4 ≤ f.len) : f.peek32 i = pure (f.u32 i) := by
  rw [Packet.peek32, require_pos inside, pure_bind]

lemma fill_pos {size : Nat} {b : Buffer} {l : List Piece} (fit : ∀ p ∈ l, p.len = 0 ∨ p.pos + p.len ≤ size) :
    fill size b l = pure (filled b l) := by
  induction l generalizing b with
  | nil => rfl
  | cons p l ih =>
    obtain ⟨hHere, hRest⟩ := forall_mem_cons.mp fit
    rw [fill, require_pos hHere, pure_bind, ih hRest]
    rfl

/-! The firewall. -/

def fwMaxRules : Nat := 16

def netFwAdd (rules : List FwRule) (r : FwRule) : List FwRule :=
  if rules.length < fwMaxRules then rules ++ [r] else rules

/-- A packet as a rule sees it. -/
structure Ipv4 where
  proto : Nat
  dst : Nat
  payload : Buffer
  plen : Nat

namespace Ipv4

variable (d : Ipv4)

def port : Option Nat :=
  if 4 ≤ d.plen ∧ (d.proto = 6 ∨ d.proto = 17) then some ((d.payload 2).toNat * 256 + (d.payload 3).toNat)
  else none

/-- The first rule for the packet drops it; one without a port is for all. -/
def Denied (rules : List FwRule) : Prop :=
  ∃ r, rules.find? (fun r => (r.proto = 0 ∨ r.proto = d.proto) ∧ (r.dip = 0 ∨ r.dip = d.dst) ∧
    (r.dport = 0 ∨ d.port = some r.dport)) = some r ∧ r.drop = true

/-- What both callers of `net_fw_check` ask: a packet without a port passes. -/
def blocked (s : Stack) : Bool := d.port.any (netFwCheck s d.proto d.dst)

lemma blocked_iff : d.blocked s = true ↔ (4 ≤ d.plen ∧ (d.proto = 6 ∨ d.proto = 17)) ∧
    netFwCheck s d.proto d.dst ((d.payload 2).toNat * 256 + (d.payload 3).toNat) = true := by
  unfold blocked port
  split <;> simp_all

/-- Of the packets that the rules deny, those with a port are blocked. -/
lemma blocked_of_denied {d : Ipv4} (denied : d.Denied s.fw) : d.blocked s = d.port.isSome := by
  unfold blocked
  cases hPort : d.port with
  | none => rfl
  | some dp =>
    obtain ⟨r, hFirst, hDrop⟩ := denied
    rw [hPort] at hFirst
    simp only [some.injEq, eq_comm (a := dp)] at hFirst
    rw [any_some, netFwCheck, hFirst]
    exact hDrop

end Ipv4

def ipv4At (f : Packet) (ip : Nat) : Ipv4 where
  proto := (f.bytes (ip + 9)).toNat
  dst := f.u32 (ip + 16)
  payload := fun i => f.bytes (ip + ihl f ip + i)
  plen := f.u16 (ip + 2) - ihl f ip

def Accepted (s : Stack) (f : Packet) (ip len : Nat) : Prop :=
  ¬ len < 20 ∧ ¬ (f.u32 (ip + 16) ≠ s.ip ∧ f.u32 (ip + 16) ≠ broadcastIp ∧ f.u32 (ip + 16) ≠ 0x7F000001 ∧ s.ip ≠ 0) ∧
    ¬ (f.u16 (ip + 2) < ihl f ip ∨ len < f.u16 (ip + 2))

instance : Decidable (Accepted s f ip len) := inferInstanceAs (Decidable (_ ∧ _))

def counted (s : Stack) : Stack := { s with fwDropped := s.fwDropped + 1 }

lemma fwBlocked_eq : fwBlocked f s ip (f.bytes (ip + 9)) = (ipv4At f ip).blocked s := by
  refine Bool.eq_iff_iff.mpr (Iff.trans ?_ (Ipv4.blocked_iff _).symm)
  rw [fwBlocked, Bool.and_eq_true, decide_eq_true_iff]
  rfl

/-- A denied packet that no check refuses ends at the firewall only if it has a port. -/
lemma processIp_denied (inside : ip + len ≤ f.len) (denied : (ipv4At f ip).Denied s.fw) : processIp f ip len s =
    if Accepted s f ip len then
      if (ipv4At f ip).port.isSome then some (⟨⟩, counted s)
      else if (ipv4At f ip).proto = 1 then processIcmp f (ip + ihl f ip) (ipv4At f ip).plen (f.u32 (ip + 12)) s
      else some (⟨⟩, s)
    else some (⟨⟩, s) := by
  unfold processIp
  by_cases hLen : len < 20
  · rw [if_pos hLen, if_neg fun hAcc : Accepted s f ip len => hAcc.1 hLen]
    rfl
  rw [if_neg hLen, peek_pos (by omega), peek16_pos (by omega), peek_pos (by omega), peek32_pos (by omega),
    peek32_pos (by omega)]
  simp only [pure_bind]
  rw [get_bind_run]
  split
  case isTrue hOther =>
    rw [if_neg fun hAcc : Accepted s f ip len => hAcc.2.1 hOther]
    rfl
  split
  case isTrue hBad =>
    rw [if_neg fun hAcc : Accepted s f ip len => hAcc.2.2 hBad]
    rfl
  case isFalse hOurs hWhole =>
    rw [if_pos (show Accepted s f ip len from ⟨hLen, hOurs, hWhole⟩)]
    change ¬ (totalLen f ip < ihl f ip ∨ len < totalLen f ip) at hWhole
    refine (bind_run (fwBlocks_run (by omega) (by omega))).trans ?_
    rw [fwBlocked_eq, Ipv4.blocked_of_denied denied]
    cases hPort : (ipv4At f ip).port with
    | some dp => rfl
    | none =>
      simp only [isSome_none, Bool.false_eq_true, if_false]
      by_cases hIcmp : f.bytes (ip + 9) = 1
      · rw [if_pos hIcmp, if_pos (show (ipv4At f ip).proto = 1 from congrArg UInt8.toNat hIcmp)]
        rfl
      rw [if_neg hIcmp, if_neg fun h : (ipv4At f ip).proto = 1 => hIcmp (UInt8.toNat_inj.mp h)]
      split
      case isTrue hUdp =>
        -- Without a port the datagram is too short for a header.
        have hShort : f.u16 (ip + 2) - ihl f ip < 8 := by
          by_contra hLong
          refine absurd hPort (ne_none_iff_isSome.mpr ?_)
          exact congrArg isSome (if_pos ⟨show 4 ≤ f.u16 (ip + 2) - ihl f ip by omega, .inr (congrArg UInt8.toNat hUdp)⟩)
        exact congrFun (if_pos hShort) s
      case isFalse => rfl

/-! The buffers of IPv4 output. -/

variable {dst plen proto src : Nat} {payload : Buffer}

/-- `resolve` asks for the address of the next hop and drives the stack. -/
def udpRawSend (resolve : Stack → Bool × Stack) (src dst sport dport : Nat) (buf : Buffer) (len : Nat) : Run PUnit := do
  let s ← get
  let nh := routeNextHop s dst
  if nh = 0 then pure ⟨⟩
  else do
    let resolved ← if nh ≠ broadcastIp then modifyGet resolve else pure true
    if resolved then do
      let tl := (8 + len) % 65536
      let udp ← fill (8 + len) zeros [⟨0, be16 sport, 2⟩, ⟨2, be16 dport, 2⟩, ⟨4, be16 tl, 2⟩, ⟨8, buf, len⟩]
      netIpSend src dst 17 udp tl
    else pure ⟨⟩

def netUdpSend (resolve : Stack → Bool × Stack) (dst dport : Nat) (buf : Buffer) (len : Nat) : Run PUnit := do
  let s ← get
  if s.ip = 0 ∧ ¬ isLoopback dst then pure ⟨⟩ else udpRawSend resolve s.ip dst s.udpSrcPort dport buf len

def linuxSockSend (resolve : Stack → Bool × Stack) (dst dport : Nat) (buf : Buffer) (len : Nat) : Run PUnit :=
  netUdpSend resolve dst dport buf (if 4096 < len then 4096 else len)

/-- The payload that the buffer for this destination has room for. -/
def outputRoom (dst : Nat) : Nat := if isLoopback dst then 1508 else 1484

/-- At most one packet leaves the stack, as long as its header says. -/
inductive Delivers (s : Stack) : Stack → Prop where
  | refused : Delivers s s
  | dropped : Delivers s (counted s)
  | sent (f : Buffer) (len : Nat) (header : Packet.u16 ⟨f, 14 + len⟩ 16 = len) :
      Delivers s { s with sent := s.sent ++ [(f, 14 + len)] }
  | queued (q : Buffer) (len : Nat) (header : Packet.u16 ⟨q, len⟩ 2 = len) :
      Delivers s { s with loQ := s.loQ ++ [(q, len)] }

/-- The length that an IPv4 header holds. -/
lemma length_ipPieces {b : Buffer} {l : List Piece} {pos : Nat} :
    Packet.u16 ⟨filled b (l ++ ipPieces pos src dst proto payload plen), n⟩ (pos + 2) = (20 + plen) % 65536 := by
  have hByte : ∀ i, i = 2 ∨ i = 3 → filled b (l ++ ipPieces pos src dst proto payload plen) (pos + i) =
      bytesOf [0x45, 0, (20 + plen) % 65536 / 256, (20 + plen) % 65536 % 256] i := by
    rintro i hi
    rw [filled, foldl_append]
    rcases hi with rfl | rfl <;> simp [ipPieces, copyTo, bytesOf]
  refine (congrArg₂ (fun x y => x.toNat * 256 + y.toNat) (hByte 2 (.inl rfl)) (hByte 3 (.inr rfl))).trans ?_
  simp only [bytesOf, getD_cons_succ, getD_cons_zero, UInt8.toNat_ofNat']
  omega

namespace Ipv4

variable (d : Ipv4)

/-- The packet passes the firewall, and there is a buffer for it. -/
def Buffered (s : Stack) : Prop := d.blocked s = false ∧ (isLoopback d.dst = true ∨ (nextMac s d.dst).isSome = true)

/-- What becomes of a packet. -/
inductive Output (s : Stack) : Option (PUnit × Stack) → Prop where
  | blocked (no : d.blocked s = true) : Output s (some (⟨⟩, counted s))
  | unreachable (wire : isLoopback d.dst = false) (mac : nextMac s d.dst = none) : Output s (some (⟨⟩, s))
  | overrun (way : d.Buffered s) (long : outputRoom d.dst < d.plen) : Output s none
  | busy (loop : isLoopback d.dst = true) (fits : d.plen ≤ outputRoom d.dst) (full : loopbackQueue ≤ s.loQ.length) :
      Output s (some (⟨⟩, s))
  | queued (pass : d.blocked s = false) (loop : isLoopback d.dst = true) (fits : d.plen ≤ outputRoom d.dst)
      (room : s.loQ.length < loopbackQueue) (q : Buffer) (header : Packet.u16 ⟨q, 20 + d.plen⟩ 2 = 20 + d.plen) :
      Output s (some (⟨⟩, { s with loQ := s.loQ ++ [(q, 20 + d.plen)] }))
  | sent (pass : d.blocked s = false) (wire : isLoopback d.dst = false) (mac : (nextMac s d.dst).isSome = true)
      (fits : d.plen ≤ outputRoom d.dst) (f : Buffer)
      (header : Packet.u16 ⟨f, 14 + (20 + d.plen)⟩ 16 = 20 + d.plen) :
      Output s (some (⟨⟩, { s with sent := s.sent ++ [(f, 14 + (20 + d.plen))] }))

variable {d}

lemma fill_overrun {size : Nat} {b : Buffer} {k : Buffer → Run PUnit} {l : List Piece} {p : Piece} (piece : p ∈ l)
    (some_bytes : p.len ≠ 0) (long : size < p.pos + p.len) : (fill size b l >>= k) s = none := by
  refine not_isSome_iff_eq_none.mp fun hEnds => ?_
  have hFit := (ends_fill_bind.mp hEnds).1 p piece
  omega

lemma loopbackSend_output (pass : d.blocked s = false) (loop : isLoopback d.dst = true) :
    d.Output s (loopbackSend d.dst d.proto d.payload d.plen s) := by
  have hRoom : outputRoom d.dst = 1508 := if_pos loop
  unfold loopbackSend
  by_cases hFits : d.plen ≤ 1508
  · have hTotal : (20 + d.plen) % 65536 = 20 + d.plen := Nat.mod_eq_of_lt (by omega)
    rw [fill_pos (ipPieces_fit (by omega)), pure_bind, get_bind_run, hTotal]
    split
    case isTrue hFull => exact .busy loop (hRoom ▸ hFits) hFull
    case isFalse hQueue =>
      rw [fill_pos (by simp; omega)]
      refine .queued pass loop (hRoom ▸ hFits) (by omega) _ ?_
      refine Eq.trans ?_ ((@length_ipPieces 0 d.dst d.plen d.proto 0x7F000001 d.payload zeros [] 0).trans hTotal)
      have hLong : 2 < 20 + d.plen ∧ 3 < 20 + d.plen := by omega
      simp [filled, Packet.u16, copyTo, hLong]
  · rw [fill_overrun (p := ⟨0 + 20, d.payload, d.plen⟩) (by simp [ipPieces]) (by dsimp only; omega) (by dsimp only; omega)]
    exact .overrun ⟨pass, .inl loop⟩ (by omega)

lemma netIpSend_output : d.Output s (netIpSend src d.dst d.proto d.payload d.plen s) := by
  rw [netIpSend, get_bind_run]
  split
  case isTrue hNo => exact .blocked ((blocked_iff _).mpr hNo)
  case isFalse hPass =>
  have hPass := Bool.eq_false_of_not_eq_true fun hNo => hPass ((blocked_iff _).mp hNo)
  split
  case isTrue hLoop => exact loopbackSend_output hPass hLoop
  case isFalse hWire =>
    have hWire := Bool.eq_false_of_not_eq_true hWire
    have hRoom : outputRoom d.dst = 1484 := if_neg (by simp [hWire])
    cases hMac : nextMac s d.dst with
    | none => exact .unreachable hWire hMac
    | some mac =>
      have hSome : (nextMac s d.dst).isSome = true := by rw [hMac]; rfl
      dsimp only
      by_cases hFits : d.plen ≤ 1484
      · have hTotal : (20 + d.plen) % 65536 = 20 + d.plen := Nat.mod_eq_of_lt (by omega)
        rw [fill_pos (forall_mem_append.mpr ⟨by simp, ipPieces_fit (by omega)⟩), hTotal]
        exact .sent hPass hWire hSome (hRoom ▸ hFits) _ (length_ipPieces.trans hTotal)
      · rw [fill_overrun (p := ⟨14 + 20, d.payload, d.plen⟩) (by simp [ipPieces]) (by dsimp only; omega)
          (by dsimp only; omega)]
        exact .overrun ⟨hPass, .inr hSome⟩ (by omega)

/-- A packet stays inside the buffers unless it is too long for the one it comes to. -/
lemma Output.delivers_iff {r : Option (PUnit × Stack)} {P : Stack → Prop} (out : d.Output s r)
    (delivers : ∀ t, Delivers s t → P t) :
    (∃ t, r = some (⟨⟩, t) ∧ P t) ↔ (d.Buffered s → d.plen ≤ outputRoom d.dst) := by
  cases out with
  | blocked no => exact iff_of_true ⟨_, rfl, delivers _ .dropped⟩ fun h => absurd (no.symm.trans h.1) (by decide)
  | unreachable wire mac => exact iff_of_true ⟨_, rfl, delivers _ .refused⟩ fun h => by simp [Buffered, wire, mac] at h
  | overrun way long => exact iff_of_false (by simp) fun h => by have := h way; omega
  | busy loop fits full => exact iff_of_true ⟨_, rfl, delivers _ .refused⟩ fun _ => fits
  | queued pass loop fits room q header => exact iff_of_true ⟨_, rfl, delivers _ (.queued q _ header)⟩ fun _ => fits
  | sent pass wire mac fits f header => exact iff_of_true ⟨_, rfl, delivers _ (.sent f _ header)⟩ fun _ => fits

/-- The packet comes to the wire or to the queue, or runs over the buffer on its way there. -/
def Leaves (d : Ipv4) (s : Stack) : Prop :=
  if isLoopback d.dst then d.plen ≤ outputRoom d.dst → s.loQ.length < loopbackQueue else (nextMac s d.dst).isSome

lemma Output.kept_iff {r : Option (PUnit × Stack)} (out : d.Output s r) :
    (∃ t, r = some (⟨⟩, t) ∧ t.sent = s.sent ∧ t.loQ = s.loQ) ↔ d.blocked s = true ∨ ¬ d.Leaves s := by
  unfold Leaves
  cases out with
  | blocked no => exact iff_of_true ⟨_, rfl, rfl, rfl⟩ (.inl no)
  | unreachable wire mac => exact iff_of_true ⟨_, rfl, rfl, rfl⟩ (.inr (by simp [wire, mac]))
  | overrun way long =>
    refine iff_of_false (by simp) (not_or.mpr ⟨by simp [way.1], not_not.mpr ?_⟩)
    split
    case isTrue => omega
    case isFalse hWire => exact way.2.resolve_left hWire
  | busy loop fits full => exact iff_of_true ⟨_, rfl, rfl, rfl⟩ (.inr (by simp [loop, fits, full]))
  | queued pass loop fits room => exact iff_of_false (by simp) (by simp [pass, loop, room])
  | sent pass wire mac => exact iff_of_false (by simp) (by simp [pass, wire, mac])

end Ipv4

/-- A denied packet is neither sent nor queued exactly if it has a port or there is no way out, and only ICMP is
delivered. -/
theorem firewall_enforced_iff (s : Stack) (d : Ipv4) (denied : d.Denied s.fw) :
    (∀ src, (∃ t, netIpSend src d.dst d.proto d.payload d.plen s = some (⟨⟩, t) ∧ t.sent = s.sent ∧ t.loQ = s.loQ) ↔
        d.port.isSome = true ∨ ¬ d.Leaves s) ∧
      ∀ f ip len, ip + len ≤ f.len → ipv4At f ip = d → processIp f ip len s =
        if Accepted s f ip len then
          if d.port.isSome then some (⟨⟩, counted s)
          else if d.proto = 1 then processIcmp f (ip + ihl f ip) d.plen (f.u32 (ip + 12)) s
          else some (⟨⟩, s)
        else some (⟨⟩, s) := by
  refine ⟨fun src => ?_, fun f ip len inside hd => ?_⟩
  · rw [← Ipv4.blocked_of_denied denied]
    exact Ipv4.netIpSend_output.kept_iff
  · subst hd
    exact processIp_denied inside denied

def guarded (r : FwRule) : Stack := { freshStack with fw := netFwAdd [] r }

theorem tcp_dropped : ∃ t, netIpSend 0 0x7F000001 6 zeros 20 (guarded ⟨6, 0, 0, true⟩) = some (⟨⟩, t) ∧
    t.sent = [] ∧ t.loQ = [] :=
  ((firewall_enforced_iff _ ⟨6, 0x7F000001, zeros, 20⟩ ⟨⟨6, 0, 0, true⟩, rfl, rfl⟩).1 0).mpr (.inl rfl)

/-- A rule that drops ICMP lets an echo request through. -/
theorem icmp_not_dropped : (Ipv4.mk 1 0x7F000001 (bytesOf [8]) 8).Denied (guarded ⟨1, 0, 0, true⟩).fw ∧
    (netIpSend 0 0x7F000001 1 (bytesOf [8]) 8 (guarded ⟨1, 0, 0, true⟩)).map (fun r => r.2.loQ.length) = some 1 :=
  ⟨⟨⟨1, 0, 0, true⟩, rfl, rfl⟩, by decide +kernel⟩

/-- What a socket sends, as an IPv4 packet. -/
def datagram (s : Stack) (dst dport : Nat) (buf : Buffer) (len : Nat) : Ipv4 where
  proto := 17
  dst := dst
  payload := filled zeros [⟨0, be16 s.udpSrcPort, 2⟩, ⟨2, be16 dport, 2⟩, ⟨4, be16 (8 + len), 2⟩, ⟨8, buf, len⟩]
  plen := 8 + len

/-- The state in which a datagram comes to `net_ip_send`, if it does. -/
def sendState (resolve : Stack → Bool × Stack) (s : Stack) (dst : Nat) : Option Stack :=
  if s.ip = 0 ∧ ¬ isLoopback dst ∨ routeNextHop s dst = 0 then none
  else if routeNextHop s dst = broadcastIp then some s
  else if (resolve s).1 then some (resolve s).2
  else none

lemma netUdpSend_confined_iff {resolve : Stack → Bool × Stack} {dport : Nat} {buf : Buffer} (small : len ≤ 4096) :
    (∃ t, netUdpSend resolve dst dport buf len s = some (⟨⟩, t) ∧ (Delivers s t ∨ Delivers (resolve s).2 t)) ↔
      ∀ t, sendState resolve s dst = some t → (datagram s dst dport buf len).Buffered t → 8 + len ≤ outputRoom dst := by
  have hTl : (8 + len) % 65536 = 8 + len := Nat.mod_eq_of_lt (by omega)
  have hSend {u : Stack} (from_u : ∀ t, Delivers u t → Delivers s t ∨ Delivers (resolve s).2 t) :=
    (@Ipv4.netIpSend_output u s.ip (datagram s dst dport buf len)).delivers_iff from_u
  unfold netUdpSend sendState
  rw [get_bind_run]
  by_cases hAddress : s.ip = 0 ∧ ¬ isLoopback dst
  · simp only [if_pos hAddress, if_pos (Or.inl hAddress), reduceCtorEq, false_implies, implies_true, iff_true]
    exact ⟨s, rfl, .inl .refused⟩
  rw [if_neg hAddress, udpRawSend, get_bind_run]
  by_cases hRoute : routeNextHop s dst = 0
  · simp only [if_pos hRoute, if_pos (Or.inr hRoute), reduceCtorEq, false_implies, implies_true, iff_true]
    exact ⟨s, rfl, .inl .refused⟩
  rw [if_neg hRoute, if_neg (not_or.mpr ⟨hAddress, hRoute⟩)]
  dsimp only
  rw [fill_pos (by simp; omega), pure_bind, hTl]
  by_cases hBroadcast : routeNextHop s dst = broadcastIp
  · rw [if_neg (not_not.mpr hBroadcast), if_pos hBroadcast, pure_bind, if_pos rfl]
    simp only [some.injEq, forall_eq']
    exact hSend fun t => .inl
  · have hResolve (k : Bool → Run PUnit) : (modifyGet resolve >>= k) s = k (resolve s).1 (resolve s).2 := rfl
    rw [if_pos hBroadcast, if_neg hBroadcast, hResolve]
    cases hFound : (resolve s).1 with
    | false => exact iff_of_true ⟨_, rfl, .inr .refused⟩ (by simp)
    | true =>
      simp only [if_true, some.injEq, forall_eq']
      exact hSend fun t => .inr

/-- Output stays inside its buffers exactly if what comes to one has room there. -/
theorem output_confined_iff (s : Stack) :
    (∀ src (d : Ipv4), (∃ t, netIpSend src d.dst d.proto d.payload d.plen s = some (⟨⟩, t) ∧ Delivers s t) ↔
        (d.Buffered s → d.plen ≤ outputRoom d.dst)) ∧
      ∀ resolve dst dport buf len, (∃ t, linuxSockSend resolve dst dport buf len s = some (⟨⟩, t) ∧
          (Delivers s t ∨ Delivers (resolve s).2 t)) ↔
        ∀ t, sendState resolve s dst = some t → (datagram s dst dport buf (min len 4096)).Buffered t →
          8 + min len 4096 ≤ outputRoom dst := by
  refine ⟨fun src d => Ipv4.netIpSend_output.delivers_iff fun _ h => h, fun resolve dst dport buf len => ?_⟩
  have hLen : (if 4096 < len then 4096 else len) = min len 4096 := by split <;> omega
  rw [linuxSockSend, hLen]
  exact netUdpSend_confined_iff (by omega)

theorem full_loopback_confined : (∃ t, netIpSend 0 0x7F000001 17 zeros 1508 freshStack = some (⟨⟩, t) ∧
      Delivers freshStack t) ∧
    ∃ t, linuxSockSend (fun s => (true, s)) 0x7F000001 7 zeros 1500 freshStack = some (⟨⟩, t) ∧
      (Delivers freshStack t ∨ Delivers freshStack t) :=
  ⟨((output_confined_iff freshStack).1 0 ⟨17, 0x7F000001, zeros, 1508⟩).mpr fun _ => by decide,
    ((output_confined_iff freshStack).2 (fun s => (true, s)) 0x7F000001 7 zeros 1500).mpr fun _ _ _ => by decide⟩

/-- A datagram of 1477 bytes is longer than the frame. -/
theorem long_datagram_overruns :
    linuxSockSend (fun s => (true, s)) broadcastIp 7 zeros 1477 { freshStack with ip := 1 } = none := by
  decide +kernel

end YartOS.Net.Inbound
