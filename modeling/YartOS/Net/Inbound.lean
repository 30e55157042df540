import YartOS.Lib.Bytes
import YartOS.Lib.Programs

/-! What the network stack does with a received frame, from `process_eth` to its replies. A program
stops at a read or write beyond a buffer. TCP segments are not followed here. -/
namespace YartOS.Net.Inbound

open Bytes Programs List Function

/-! The state of the stack. -/

structure Route where
  dst : Nat
  mask : Nat
  gw : Nat
  default : Bool

structure FwRule where
  proto : Nat
  dip : Nat
  dport : Nat
  drop : Bool

structure ArpEntry where
  ip : Nat
  mac : Buffer
  time : Nat

inductive DhcpState where
  | idle
  | discover
  | request
  | done
deriving DecidableEq

def cacheSize : Nat := 8

/-- Numbers are in host order; addresses of IPv6 and Ethernet are buffers. -/
structure Stack where
  now : Nat
  mac : Buffer
  ip : Nat
  mask : Nat
  gw : Nat
  dns : Nat
  udpSrcPort : Nat
  routes : List Route
  fw : List FwRule
  fwDropped : Nat
  loQ : List (Buffer × Nat)
  pingHit : Bool
  pingReplySrc : Nat
  pingReplyId : Nat
  pingReplySeq : Nat
  arp : Fin cacheSize → Option ArpEntry
  dhcpState : DhcpState
  xid : Nat
  dhcpLast : Nat
  offerIp : Nat
  serverId : Nat
  udpRx : Buffer
  udpRxLen : Nat
  dnsRx : Buffer
  dnsRxLen : Nat
  mac6 : Buffer
  ip6 : Buffer
  ip6Gw : Buffer
  ip6Ok : Bool
  icmp6Id : Nat
  icmp6Seq : Nat
  ping6Hit : Bool
  nd6 : Fin cacheSize → Option (Buffer × Buffer)
  /-- What has been given to the network card. -/
  sent : List (Buffer × Nat)

abbrev Run := Prog Stack

/-! Reading a packet and writing a buffer. -/

/-- A packet in memory; the bytes from `len` on are not its own. -/
structure Packet where
  bytes : Buffer
  len : Nat

namespace Packet

variable (f : Packet)

def u16 (i : Nat) : Nat := (f.bytes i).toNat * 256 + (f.bytes (i + 1)).toNat

def u32 (i : Nat) : Nat := f.u16 i * 65536 + f.u16 (i + 2)

def peek (i : Nat) : Run UInt8 := do
  require (i < f.len)
  return f.bytes i

def peekN (i n : Nat) : Run Buffer := do
  require (n = 0 ∨ i + n ≤ f.len)
  return fun k => f.bytes (i + k)

def peek16 (i : Nat) : Run Nat := do
  require (i + 2 ≤ f.len)
  return f.u16 i

def peek32 (i : Nat) : Run Nat := do
  require (i + 4 ≤ f.len)
  return f.u32 i

end Packet

/-- A piece of a buffer: where it goes, what it is, how long it is. -/
structure Piece where
  pos : Nat
  src : Buffer
  len : Nat

/-- `memcpy`s into a buffer of this size. -/
def fill (size : Nat) (b : Buffer) : List Piece → Run Buffer
  | [] => pure b
  | p :: rest => do
      require (p.len = 0 ∨ p.pos + p.len ≤ size)
      fill size (copyTo b p.pos p.src p.len) rest

def bytesOf (l : List Nat) : Buffer := fun i => UInt8.ofNat (l.getD i 0)

def be16 (n : Nat) : Buffer := bytesOf [n / 256, n % 256]

def be32 (n : Nat) : Buffer := bytesOf [n / 2 ^ 24, n / 2 ^ 16 % 256, n / 2 ^ 8 % 256, n % 256]

def csumAdd (sum w : Nat) : Nat :=
  let sum := sum + w
  if 65536 ≤ sum then sum % 65536 + 1 else sum

def netCsum (data : Buffer) (len : Nat) : Nat :=
  let word (k : Nat) : Nat := (data (2 * k)).toNat * 256 + if 2 * k + 1 < len then (data (2 * k + 1)).toNat else 0
  let sum := (range ((len + 1) / 2)).foldl (fun sum k => csumAdd sum (word k)) 0
  let sum := sum / 65536 + sum % 65536
  let sum := sum + sum / 65536
  65535 - sum % 65536

/-! Caches, routes, the firewall. -/

def arpTtl : Nat := 3000 * 250 / 1000

def arpLookup (s : Stack) (ip : Nat) : Option (Fin cacheSize) :=
  (finRange cacheSize).find? fun i =>
    (s.arp i).any fun e => decide (e.ip = ip ∧ s.now - e.time < arpTtl)

def arpStore (ip : Nat) (mac : Buffer) (s : Stack) : Stack :=
  match arpLookup s ip with
  | some i => { s with arp := update s.arp i ((s.arp i).map fun e => { e with mac }) }
  | none =>
    match (finRange cacheSize).find? fun i => (s.arp i).isNone with
    | some i => { s with arp := update s.arp i (some ⟨ip, mac, s.now⟩) }
    | none => s

def eq16 (a b : Buffer) : Bool := (range 16).all fun i => a i == b i

def nd6Lookup (s : Stack) (ip : Buffer) : Option (Fin cacheSize) :=
  (finRange cacheSize).find? fun i => (s.nd6 i).any fun e => eq16 e.1 ip

def nd6Store (ip mac : Buffer) (s : Stack) : Stack :=
  match nd6Lookup s ip with
  | some i => { s with nd6 := update s.nd6 i ((s.nd6 i).map fun e => (e.1, mac)) }
  | none =>
    match (finRange cacheSize).find? fun i => (s.nd6 i).isNone with
    | some i => { s with nd6 := update s.nd6 i (some (ip, mac)) }
    | none => s

def broadcastIp : Nat := 0xFFFFFFFF

def isLoopback (dst : Nat) : Bool := dst / 2 ^ 24 = 127

def rtMax : Nat := 8

def routeAdd (dst mask gw : Nat) (default : Bool) (s : Stack) : Stack :=
  let same (r : Route) : Bool := r.dst = dst ∧ r.mask = mask
  if s.routes.any same then
    let i := s.routes.findIdx same
    { s with routes := s.routes.set i ⟨dst, mask, gw, default⟩ }
  else if s.routes.length < rtMax then { s with routes := s.routes ++ [⟨dst, mask, gw, default⟩] }
  else s

/-- The last of the routes with the longest mask that fits. -/
def bestRoute (dst : Nat) (routes : List Route) : Option Route :=
  routes.foldl (fun best r =>
    if dst &&& r.mask = r.dst &&& r.mask ∧ (best.map (·.mask)).getD 0 ≤ r.mask then some r else best) none

def routeNextHop (s : Stack) (dst : Nat) : Nat :=
  if dst = broadcastIp then broadcastIp
  else if isLoopback dst then dst
  else
    match bestRoute dst s.routes with
    | none => 0
    | some r => if r.default then r.gw else dst

def netFwCheck (s : Stack) (proto dip dport : Nat) : Bool :=
  match s.fw.find? fun r =>
      (r.proto = 0 ∨ r.proto = proto) ∧ (r.dip = 0 ∨ r.dip = dip) ∧ (r.dport = 0 ∨ r.dport = dport) with
  | some r => r.drop
  | none => false

/-! Sending. -/

def sendFrame (f : Buffer) (len : Nat) : Run PUnit := modify fun s => { s with sent := s.sent ++ [(f, len)] }

def broadcastMac : Buffer := fun _ => 0xFF

def arpSend (oper srcip dstip : Nat) (dstmac : Buffer) : Run PUnit := do
  let s ← get
  let f ← fill 64 zeros
    [⟨0, broadcastMac, 6⟩, ⟨6, s.mac, 6⟩, ⟨12, bytesOf [0x08, 0x06], 2⟩, ⟨14, bytesOf [0, 1, 8, 0, 6, 4], 6⟩,
      ⟨20, be16 oper, 2⟩, ⟨22, s.mac, 6⟩, ⟨28, be32 srcip, 4⟩, ⟨32, dstmac, 6⟩, ⟨38, be32 dstip, 4⟩]
  sendFrame f 42

def loopbackQueue : Nat := 8

/-- The twenty bytes of an IPv4 header at `pos`, and the payload after it. -/
def ipPieces (pos src dst proto : Nat) (payload : Buffer) (plen : Nat) : List Piece :=
  let total := (20 + plen) % 65536
  let header := bytesOf ([0x45, 0, total / 256, total % 256, 0, 0, 0, 0, 64, proto, 0, 0] ++
    [src / 2 ^ 24, src / 2 ^ 16 % 256, src / 2 ^ 8 % 256, src % 256] ++
    [dst / 2 ^ 24, dst / 2 ^ 16 % 256, dst / 2 ^ 8 % 256, dst % 256])
  [⟨pos, header, 20⟩, ⟨pos + 10, be16 (netCsum header 20), 2⟩, ⟨pos + 20, payload, plen⟩]

def loopbackSend (dst proto : Nat) (payload : Buffer) (plen : Nat) : Run PUnit := do
  let ip ← fill 1528 zeros (ipPieces 0 0x7F000001 dst proto payload plen)
  let s ← get
  if loopbackQueue ≤ s.loQ.length then pure ⟨⟩
  else do
    let q ← fill 1528 zeros [⟨0, ip, (20 + plen) % 65536⟩]
    modify fun s => { s with loQ := s.loQ ++ [(q, (20 + plen) % 65536)] }

/-- The address of the next hop, where it is known. -/
def nextMac (s : Stack) (dst : Nat) : Option Buffer :=
  let nh := routeNextHop s dst
  if nh = broadcastIp then some broadcastMac
  else if nh = 0 then none
  else (arpLookup s nh).bind fun i => (s.arp i).map (·.mac)

def netIpSend (src dst proto : Nat) (payload : Buffer) (plen : Nat) : Run PUnit := do
  let s ← get
  let dp := (payload 2).toNat * 256 + (payload 3).toNat
  if (4 ≤ plen ∧ (proto = 6 ∨ proto = 17)) ∧ netFwCheck s proto dst dp then
    modify fun s => { s with fwDropped := s.fwDropped + 1 }
  else if isLoopback dst then loopbackSend dst proto payload plen
  else
    match nextMac s dst with
    | none => pure ⟨⟩
    | some mac => do
        let f ← fill 1518 zeros
          ([⟨0, mac, 6⟩, ⟨6, s.mac, 6⟩, ⟨12, bytesOf [0x08, 0x00], 2⟩] ++ ipPieces 14 src dst proto payload plen)
        sendFrame f (14 + (20 + plen) % 65536)

def ipSend (dst proto : Nat) (payload : Buffer) (plen : Nat) : Run PUnit := do
  let s ← get
  netIpSend s.ip dst proto payload plen

/-! ARP, ICMP, UDP and DHCP. -/

section Ipv4

variable (f : Packet)

def processArp (a len : Nat) : Run PUnit :=
  if len < 28 then pure ⟨⟩
  else do
    let oper ← f.peek16 (a + 6)
    let spa ← f.peek32 (a + 14)
    let tpa ← f.peek32 (a + 24)
    let sha ← f.peekN (a + 8) 6
    modify (arpStore spa sha)
    let s ← get
    if oper = 1 ∧ tpa = s.ip then do
      let requester ← f.peekN (a + 8) 6
      let mac ← fill 6 zeros [⟨0, requester, 6⟩]
      arpSend 2 s.ip spa mac
    else pure ⟨⟩

def processIcmp (p len src : Nat) : Run PUnit :=
  if len < 8 then pure ⟨⟩
  else do
    let kind ← f.peek p
    if kind = 8 then do
      let idSeq ← f.peekN (p + 4) 8
      let r ← fill 64 zeros [⟨4, idSeq, 8⟩]
      let dlen := if 4 < len then len - 4 else 0
      let dlen := if 56 < dlen then 56 else dlen
      let data ← f.peekN (p + 8) dlen
      let r ← fill 64 r [⟨8, data, dlen⟩]
      let r ← fill 64 r [⟨2, be16 (netCsum r (8 + dlen)), 2⟩]
      ipSend src 1 r (8 + dlen)
    else if kind = 0 then do
      let id ← f.peek16 (p + 4)
      let seq ← f.peek16 (p + 6)
      modify fun s => { s with
        pingHit := true, pingReplySrc := src, pingReplyId := id, pingReplySeq := seq }
    else pure ⟨⟩

def icmpUnreachable (src iphdr iplen seg seglen code : Nat) : Run PUnit := do
  let qh := if 20 < iplen then 20 else iplen
  let header ← f.peekN iphdr qh
  let seglen := if 8 < seglen then 8 else seglen
  let quoted ← f.peekN seg seglen
  let m ← fill 64 zeros [⟨0, bytesOf [3, code], 2⟩, ⟨8, header, qh⟩, ⟨8 + qh, quoted, seglen⟩]
  let tl := 8 + qh + seglen
  let m ← fill 64 m [⟨2, be16 (netCsum m tl), 2⟩]
  ipSend src 1 m tl

/-- What the options of a DHCP message say; zero if they do not. -/
structure Lease where
  msgtype : Nat := 0
  mask : Nat := 0
  router : Nat := 0
  dns : Nat := 0
  srv : Nat := 0

def leaseField (p o code : Nat) : Run (Lease → Lease) := do
  let v ← f.peek32 (p + o + 2)
  return fun l =>
    if code = 1 then { l with mask := v }
    else if code = 3 then { l with router := v }
    else if code = 6 then { l with dns := v }
    else { l with srv := v }

def leaseOption (p o code olen : Nat) (l : Lease) : Run Lease :=
  if code = 53 ∧ 1 ≤ olen then do
    let t ← f.peek (p + o + 2)
    return { l with msgtype := t.toNat }
  else if (code = 1 ∨ code = 3 ∨ code = 6 ∨ code = 54) ∧ 4 ≤ olen then do
    let g ← leaseField f p o code
    return g l
  else pure l

/-- The options from `o` on; a round moves two bytes, so `fuel` suffices. -/
def dhcpOptions (p len : Nat) : Nat → Nat → Lease → Run Lease
  | 0, _, l => pure l
  | fuel + 1, o, l =>
    if o < len then do
      let code ← f.peek (p + o)
      if code = 255 then pure l
      else do
        let olen ← f.peek (p + o + 1)
        if len - o < olen.toNat + 2 then pure l
        else do
          let l ← leaseOption f p o code.toNat olen.toNat l
          dhcpOptions p len fuel (o + 2 + olen.toNat) l
    else pure l

def dhcpOffer : Nat := 2
def dhcpRequest : Nat := 3
def dhcpAck : Nat := 5

def dhcpSend (msgtype reqIp serverId : Nat) : Run PUnit := do
  let s ← get
  let wanted : List Piece :=
    if msgtype = dhcpRequest then
      [⟨243, bytesOf [50, 4], 2⟩, ⟨245, be32 reqIp, 4⟩, ⟨249, bytesOf [54, 4], 2⟩, ⟨251, be32 serverId, 4⟩,
        ⟨255, bytesOf [55, 3, 1, 3, 6, 255], 6⟩]
    else [⟨243, bytesOf [55, 3, 1, 3, 6, 255], 6⟩]
  let pkt ← fill 300 zeros
    ([⟨0, bytesOf [1, 1, 6], 3⟩, ⟨4, be32 s.xid, 4⟩, ⟨10, bytesOf [0x80, 0x00], 2⟩, ⟨28, s.mac, 6⟩,
      ⟨236, bytesOf [0x63, 0x82, 0x53, 0x63], 4⟩, ⟨240, bytesOf [53, 1, msgtype], 3⟩] ++ wanted)
  -- The destination is the broadcast address, for which `udp_raw_send` asks nobody.
  let udp ← fill (8 + 300) zeros [⟨0, be16 68, 2⟩, ⟨2, be16 67, 2⟩, ⟨4, be16 308, 2⟩, ⟨8, pkt, 300⟩]
  netIpSend s.ip broadcastIp 17 udp 308
  modify fun s => { s with dhcpLast := s.now }

def dhcpHandle (p len : Nat) : Run PUnit :=
  if len < 240 then pure ⟨⟩
  else do
    let xid ← f.peek32 (p + 4)
    let s ← get
    if xid ≠ s.xid then pure ⟨⟩
    else do
      let l ← dhcpOptions f p len len 240 {}
      let yiaddr ← f.peek32 (p + 16)
      if s.dhcpState = .done then pure ⟨⟩
      else if l.msgtype = dhcpOffer ∧ s.dhcpState = .discover then do
        modify fun s => { s with offerIp := yiaddr, serverId := l.srv, dhcpState := .request }
        dhcpSend dhcpRequest yiaddr l.srv
      else if l.msgtype = dhcpAck ∧ yiaddr ≠ 0 then
        modify fun s =>
          let s := { s with ip := yiaddr, mask := l.mask, gw := l.router, dns := l.dns, dhcpState := .done }
          let s := if l.mask ≠ 0 then routeAdd (yiaddr &&& l.mask) l.mask 0 false s else s
          if l.router ≠ 0 then routeAdd 0 0 l.router true s else s
      else pure ⟨⟩

def dnsClientPort : Nat := 5353
def udpDhcpClient : Nat := 68
def dnsRxbuf : Nat := 512
def udpRxbuf : Nat := 2048

def processUdp (p len src iphdr iplen : Nat) : Run PUnit :=
  if len < 8 then pure ⟨⟩
  else do
    let dport ← f.peek16 (p + 2)
    let s ← get
    if dport = udpDhcpClient then dhcpHandle f (p + 8) (len - 8)
    else if dport = dnsClientPort then do
      let dlen := if dnsRxbuf < len - 8 then dnsRxbuf else len - 8
      let data ← f.peekN (p + 8) dlen
      let rx ← fill dnsRxbuf s.dnsRx [⟨0, data, dlen⟩]
      modify fun s => { s with dnsRx := rx, dnsRxLen := dlen }
    else if dport = s.udpSrcPort then do
      let dlen := if udpRxbuf < len - 8 then udpRxbuf else len - 8
      let data ← f.peekN (p + 8) dlen
      let rx ← fill udpRxbuf s.udpRx [⟨0, data, dlen⟩]
      modify fun s => { s with udpRx := rx, udpRxLen := dlen }
    else icmpUnreachable f src iphdr iplen p len 3

/-- A datagram or segment is for a port that the firewall keeps. -/
def fwBlocks (proto dst payload plen : Nat) : Run Bool :=
  if 4 ≤ plen ∧ (proto = 6 ∨ proto = 17) then do
    let dp ← f.peek16 (payload + 2)
    let s ← get
    return netFwCheck s proto dst dp
  else pure false

def processIp (ip len : Nat) : Run PUnit :=
  if len < 20 then pure ⟨⟩
  else do
    let first ← f.peek ip
    let total ← f.peek16 (ip + 2)
    let proto ← f.peek (ip + 9)
    let src ← f.peek32 (ip + 12)
    let dst ← f.peek32 (ip + 16)
    let s ← get
    let ihl := first.toNat % 16 * 4
    if dst ≠ s.ip ∧ dst ≠ broadcastIp ∧ dst ≠ 0x7F000001 ∧ s.ip ≠ 0 then pure ⟨⟩
    else if total < ihl ∨ len < total then pure ⟨⟩
    else do
      let blocked ← fwBlocks f proto.toNat dst (ip + ihl) (total - ihl)
      if blocked then modify fun s => { s with fwDropped := s.fwDropped + 1 }
      else if proto = 1 then processIcmp f (ip + ihl) (total - ihl) src
      else if proto = 17 then processUdp f (ip + ihl) (total - ihl) src ip total
      else pure ⟨⟩

end Ipv4

/-! IPv6. -/

def icmp6EchoRequest : Nat := 128
def icmp6EchoReply : Nat := 129
def icmp6Ra : Nat := 134
def icmp6Ns : Nat := 135
def icmp6Na : Nat := 136

def ip6IsMulticast (a : Buffer) : Bool := a 0 == 0xFF

def ip6AllNodes : Buffer := bytesOf [0xFF, 2, 0, 0, 0, 0, 0, 0, 0, 0, 0, 0, 0, 0, 0, 1]

def ip6McastMac (a : Buffer) : Buffer := fun i => if i < 2 then 0x33 else a (i + 10)

def ip6IidFromMac (mac : Buffer) : Buffer := fun i =>
  if i = 0 then mac 0 ^^^ 0x02
  else if i < 3 then mac i
  else if i = 3 then 0xFF
  else if i = 4 then 0xFE
  else mac (i - 2)

/-- The forty bytes of an IPv6 header at `pos`, and the payload after it. -/
def ip6Pieces (pos : Nat) (src dst : Buffer) (proto : Nat) (payload : Buffer) (plen : Nat) : List Piece :=
  [⟨pos, bytesOf [0x60], 1⟩, ⟨pos + 4, be16 plen, 2⟩, ⟨pos + 6, bytesOf [proto, 64], 2⟩, ⟨pos + 8, src, 16⟩,
    ⟨pos + 24, dst, 16⟩, ⟨pos + 40, payload, plen⟩]

-- How a packet to the host itself is delivered.
variable (deliver : Packet → Run PUnit)

def ip6Send (dst : Buffer) (proto : Nat) (payload : Buffer) (plen : Nat) : Run PUnit := do
  let s ← get
  let known : Option Buffer :=
    if ip6IsMulticast dst then some (ip6McastMac dst)
    else (nd6Lookup s dst).bind fun i => (s.nd6 i).map (·.2)
  if known.isNone ∧ eq16 dst s.ip6 then do
    let h ← fill (40 + 1500) zeros (ip6Pieces 0 s.ip6 dst proto payload plen)
    deliver ⟨h, (40 + plen) % 65536⟩
  else do
    let f ← fill (14 + 40 + 1500) zeros
      ([⟨0, known.getD (ip6McastMac dst), 6⟩, ⟨6, s.mac6, 6⟩, ⟨12, bytesOf [0x86, 0xDD], 2⟩] ++
        ip6Pieces 14 s.ip6 dst proto payload plen)
    sendFrame f (14 + (40 + plen) % 65536)

def icmp6Send (dst : Buffer) (kind code : Nat) (param data : Buffer) (dlen : Nat) : Run PUnit := do
  let s ← get
  let m ← fill (64 + 256) zeros [⟨0, bytesOf [kind, code], 2⟩, ⟨4, param, 4⟩, ⟨8, data, dlen⟩]
  let total := (8 + dlen) % 65536
  let ph ← fill (40 + 64 + 256) zeros
    [⟨0, s.ip6, 16⟩, ⟨16, dst, 16⟩, ⟨36, be16 total, 2⟩, ⟨39, bytesOf [58], 1⟩, ⟨40, m, total⟩]
  let m ← fill (64 + 256) m [⟨2, be16 (netCsum ph (40 + total)), 2⟩]
  ip6Send deliver dst 58 m total

variable (f : Packet)

/-- The options from `opt` on; one of length zero is met again. -/
def raOptions (m len : Nat) (src : Buffer) : Nat → Nat → Run PUnit
  | 0, _ => pure ⟨⟩
  | fuel + 1, opt =>
    if opt + 4 ≤ len then do
      let otype ← f.peek (m + opt)
      let olen ← f.peek (m + opt + 1)
      if otype = 3 ∧ 4 ≤ olen then do
        let plen8 ← f.peek (m + opt + 2)
        let flags ← f.peek (m + opt + 3)
        if plen8 = 64 ∧ flags &&& 0x40 ≠ 0 then do
          let start ← f.peekN (m + opt + 16) 8
          let s ← get
          let ip6 ← fill 16 s.ip6 [⟨0, start, 8⟩, ⟨8, ip6IidFromMac s.mac6, 8⟩]
          modify fun s => { s with ip6 := ip6, ip6Gw := src, ip6Ok := true }
        else raOptions m len src fuel ((opt + olen.toNat * 8) % 65536)
      else raOptions m len src fuel ((opt + olen.toNat * 8) % 65536)
    else pure ⟨⟩

/-- The source link-layer option that a router advertisement begins with. -/
def raLinkLayer (m len : Nat) (src : Buffer) : Run PUnit :=
  if 24 ≤ len then do
    let otype ← f.peek (m + 16)
    let olen ← f.peek (m + 17)
    if otype = 1 ∧ olen = 1 then do
      let mac ← f.peekN (m + 18) 6
      modify (nd6Store src mac)
    else pure ⟨⟩
  else pure ⟨⟩

def icmp6Handle (fuel m len : Nat) (src : Buffer) : Run PUnit :=
  if len < 8 then pure ⟨⟩
  else do
    let kind ← f.peek m
    let s ← get
    if kind.toNat = icmp6EchoRequest then do
      let blen := if 8 < len then len - 8 else 0
      let blen := if 56 < blen then 56 else blen
      let param ← f.peekN (m + 4) 4
      let data ← f.peekN (m + 8) blen
      icmp6Send deliver src icmp6EchoReply 0 param data blen
    else if kind.toNat = icmp6EchoReply then do
      let id ← f.peek16 (m + 4)
      let seq ← f.peek16 (m + 6)
      if id = s.icmp6Id ∧ seq = s.icmp6Seq then modify fun s => { s with ping6Hit := true } else pure ⟨⟩
    else if kind.toNat = icmp6Ra then do
      raLinkLayer f m len src
      if s.ip6Ok then pure ⟨⟩ else raOptions f m len src fuel 16
    else if kind.toNat = icmp6Na then
      if 32 ≤ len then do
        let target ← f.peekN (m + 26) 6
        let mac ← fill 6 zeros [⟨0, target, 6⟩]
        modify (nd6Store src mac)
      else pure ⟨⟩
    else if kind.toNat = icmp6Ns then
      if s.ip6Ok ∧ 24 ≤ len then do
        let target ← f.peekN (m + 8) 16
        if eq16 target s.ip6 then do
          let body ← fill 24 zeros [⟨0, s.ip6, 16⟩, ⟨16, bytesOf [2, 1], 2⟩, ⟨18, s.mac6, 6⟩]
          icmp6Send deliver src icmp6Na 0 (bytesOf [0x20, 0, 0, 0]) body 24
        else pure ⟨⟩
      else pure ⟨⟩
    else pure ⟨⟩

/-- `net_ipv6_deliver`. Fuel bounds deliveries to the host itself and the options looked at. -/
def netIpv6Deliver : Nat → Packet → Nat → Nat → Run PUnit
  | 0, _, _, _ => pure ⟨⟩
  | fuel + 1, f, h, len =>
    if len < 40 then pure ⟨⟩
    else do
      let first ← f.peek h
      if first.toNat / 16 ≠ 6 then pure ⟨⟩
      else do
        let plen ← f.peek16 (h + 4)
        let proto ← f.peek (h + 6)
        let plen := if len < 40 + plen then len - 40 else plen
        let from6 ← f.peekN (h + 8) 16
        let to6 ← f.peekN (h + 24) 16
        let src ← fill 16 zeros [⟨0, from6, 16⟩]
        let dst ← fill 16 zeros [⟨0, to6, 16⟩]
        let s ← get
        if (s.ip6Ok ∧ eq16 dst s.ip6) ∨ eq16 dst ip6AllNodes ∨ ip6IsMulticast dst ∨ eq16 dst s.ip6 then
          if proto = 58 then
            icmp6Handle (fun p => netIpv6Deliver fuel p 0 p.len) f fuel (h + 40) plen src
          else pure ⟨⟩
        else pure ⟨⟩

def ethIpv4 : Nat := 0x0800
def ethArp : Nat := 0x0806
def ethIpv6 : Nat := 0x86DD

def processEth (fuel : Nat) (f : Packet) : Run PUnit :=
  if f.len < 14 then pure ⟨⟩
  else do
    let type ← f.peek16 12
    if type = ethArp then processArp f 14 (f.len - 14)
    else if type = ethIpv4 then processIp f 14 (f.len - 14)
    else if type = ethIpv6 then netIpv6Deliver fuel f 14 (f.len - 14)
    else pure ⟨⟩

end YartOS.Net.Inbound
