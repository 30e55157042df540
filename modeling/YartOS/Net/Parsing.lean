import YartOS.Net.Inbound

/-! For which frames the stack reads and writes inside its bounds. -/
namespace YartOS.Net.Inbound

open Bytes Programs List

/-! Rules for the operations. -/

variable {β : Type} {f : Packet} {s : Stack} {i n : Nat}

lemma ends_peek_bind {k : UInt8 → Run β} :
    Ends (f.peek i >>= k) s ↔ i < f.len ∧ Ends (k (f.bytes i)) s := ends_require_pure_bind

variable {k : Buffer → Run β} {size proto src pos plen dst iphdr iplen code o fuel ip opt : Nat}
  {payload : Buffer} {l : Lease} {deliver : Packet → Run PUnit}

lemma ends_peekN_bind : Ends (f.peekN i n >>= k) s ↔ (n = 0 ∨ i + n ≤ f.len) ∧ Ends (k fun j => f.bytes (i + j)) s :=
  ends_require_pure_bind

lemma ends_peek16_bind {k : Nat → Run β} :
    Ends (f.peek16 i >>= k) s ↔ i + 2 ≤ f.len ∧ Ends (k (f.u16 i)) s := ends_require_pure_bind

lemma ends_peek32_bind {k : Nat → Run β} :
    Ends (f.peek32 i >>= k) s ↔ i + 4 ≤ f.len ∧ Ends (k (f.u32 i)) s := ends_require_pure_bind

def filled (b : Buffer) (l : List Piece) : Buffer := l.foldl (fun b p => copyTo b p.pos p.src p.len) b

lemma ends_fill_bind {b : Buffer} {l : List Piece} : Ends (fill size b l >>= k) s ↔
      (∀ p ∈ l, p.len = 0 ∨ p.pos + p.len ≤ size) ∧ Ends (k (filled b l)) s := by
  induction l generalizing b with
  | nil => simp [fill, filled]
  | cons p l ih =>
    have hStep : Ends (fill size b (p :: l) >>= k) s ↔ (p.len = 0 ∨ p.pos + p.len ≤ size) ∧
        Ends (fill size (copyTo b p.pos p.src p.len) l >>= k) s := by
      rw [fill, bind_assoc]
      exact ends_require_bind
    rw [hStep, ih, forall_mem_cons, and_assoc]
    rfl

/-! Sending ends. -/

lemma ipPieces_fit (room : pos + 20 + plen ≤ size) :
    ∀ p ∈ ipPieces pos src dst proto payload plen, p.len = 0 ∨ p.pos + p.len ≤ size := by
  intro p hp
  simp only [ipPieces, mem_cons, not_mem_nil, or_false] at hp
  rcases hp with rfl | rfl | rfl <;> exact .inr (by simp only; omega)

lemma netIpSend_ends (small : plen ≤ 1484) : Ends (netIpSend src dst proto payload plen) s := by
  unfold netIpSend
  rw [ends_get_bind]
  dsimp only
  split
  · exact ends_modify
  split
  · unfold loopbackSend
    rw [ends_fill_bind, ends_get_bind]
    refine ⟨ipPieces_fit (by omega), ?_⟩
    split
    · exact ends_pure
    · rw [ends_fill_bind]
      exact ⟨by simp; omega, ends_modify⟩
  · split
    · exact ends_pure
    · rw [ends_fill_bind]
      refine ⟨?_, ends_modify⟩
      rw [forall_mem_append]
      exact ⟨by simp, ipPieces_fit (by omega)⟩

lemma ipSend_ends (small : plen ≤ 1484) : Ends (ipSend dst proto payload plen) s := by
  unfold ipSend
  rw [ends_get_bind]
  exact netIpSend_ends small

lemma dhcpSend_ends {msgtype reqIp serverId : Nat} : Ends (dhcpSend msgtype reqIp serverId) s := by
  unfold dhcpSend
  rw [ends_get_bind, ends_fill_bind, ends_fill_bind, ends_bind_const (c := True) fun _ _ => by simp]
  refine ⟨?_, by simp, netIpSend_ends (by decide), trivial⟩
  rw [forall_mem_append]
  refine ⟨by simp, ?_⟩
  split <;> simp

/-! IPv4. -/

variable {p len : Nat}

lemma processArp_ends (inside : p + len ≤ f.len) : Ends (processArp f p len) s := by
  unfold processArp
  split
  · exact ends_pure
  rw [ends_peek16_bind, ends_peek32_bind, ends_peek32_bind, ends_peekN_bind, ends_modify_bind, ends_get_bind]
  refine ⟨by omega, by omega, by omega, .inr (by omega), ?_⟩
  split
  · rw [ends_peekN_bind, ends_fill_bind]
    refine ⟨.inr (by omega), by simp, ?_⟩
    rw [arpSend, ends_get_bind, ends_fill_bind]
    exact ⟨by simp, ends_modify⟩
  · exact ends_pure

/-- An echo request is answered with four bytes more than it has, up to a limit. -/
def EchoFits (f : Packet) (p len : Nat) : Prop := 8 ≤ len → f.bytes p = 8 → p + 8 + min (len - 4) 56 ≤ f.len

lemma processIcmp_ends (inside : p + len ≤ f.len) : Ends (processIcmp f p len src) s ↔ EchoFits f p len := by
  unfold processIcmp EchoFits
  split
  · exact iff_of_true ends_pure fun hLen => by omega
  rw [ends_peek_bind, ends_ite]
  by_cases hKind : f.bytes p = 8
  · have hLong : (if 4 < len then len - 4 else 0) = len - 4 := if_pos (by omega)
    have hData : (if 56 < len - 4 then 56 else len - 4) = min (len - 4) 56 := by split <;> omega
    rw [if_pos hKind, ends_peekN_bind, ends_fill_bind]
    dsimp only
    rw [hLong, hData, ends_peekN_bind, ends_fill_bind, ends_fill_bind]
    constructor
    · rintro ⟨-, -, -, hRead, -⟩ - -
      omega
    · intro hFits
      have hRoom := hFits (by omega) hKind
      exact ⟨by omega, by omega, by simp, by omega, by simp; omega, by simp, ipSend_ends (by omega)⟩
  · rw [if_neg hKind]
    refine iff_of_true ⟨by omega, ?_⟩ fun _ hEcho => absurd hEcho hKind
    split
    · rw [ends_peek16_bind, ends_peek16_bind]
      exact ⟨by omega, by omega, ends_modify⟩
    · exact ends_pure

lemma icmpUnreachable_ends {seg seglen : Nat} (header : iphdr + iplen ≤ f.len)
    (segment : seg + seglen ≤ f.len) : Ends (icmpUnreachable f src iphdr iplen seg seglen code) s := by
  have hHeader : (if 20 < iplen then 20 else iplen) ≤ 20 ∧ (if 20 < iplen then 20 else iplen) ≤ iplen := by
    split <;> omega
  have hSegment : (if 8 < seglen then 8 else seglen) ≤ 8 ∧ (if 8 < seglen then 8 else seglen) ≤ seglen := by
    split <;> omega
  unfold icmpUnreachable
  generalize (if 20 < iplen then 20 else iplen) = qh at hHeader
  generalize (if 8 < seglen then 8 else seglen) = n at hSegment
  rw [ends_peekN_bind, ends_peekN_bind, ends_fill_bind, ends_fill_bind]
  exact ⟨by omega, by omega, by simp; omega, by simp, ipSend_ends (by omega)⟩

/-- The places that the options of a DHCP message lead to. -/
inductive DhcpOption (f : Packet) (p len : Nat) : Nat → Nat → Prop where
  | here (o : Nat) : DhcpOption f p len o o
  | there {o o' : Nat} (inside : o + 2 + (f.bytes (p + o + 1)).toNat ≤ len)
      (more : f.bytes (p + o) ≠ 255) (rest : DhcpOption f p len (o + 2 + (f.bytes (p + o + 1)).toNat) o') :
      DhcpOption f p len o o'

/-- Each option that is not the end has its length byte in the frame. -/
def OptionsFit (f : Packet) (p len o : Nat) : Prop :=
  ∀ o', DhcpOption f p len o o' → o' < len → f.bytes (p + o') ≠ 255 → p + o' + 1 < f.len

lemma leaseOption_ends {olen : Nat} (inside : p + o + 2 + olen ≤ f.len) : Ends (leaseOption f p o code olen l) s := by
  unfold leaseOption
  split
  · rw [ends_peek_bind]
    exact ⟨by omega, ends_pure⟩
  split
  · unfold leaseField
    rw [bind_assoc, ends_peek32_bind]
    exact ⟨by omega, ends_pure⟩
  · exact ends_pure

lemma optionsFit_of_end (last : len ≤ o ∨ f.bytes (p + o) = 255) : OptionsFit f p len o := by
  intro o' hOption hLt hMore
  cases hOption with
  | here => exact absurd last (not_or.mpr ⟨by omega, hMore⟩)
  | there inside more rest => exact absurd last (not_or.mpr ⟨by omega, more⟩)

lemma optionsFit_iff (hLt : o < len) (more : f.bytes (p + o) ≠ 255) :
    OptionsFit f p len o ↔ p + o + 1 < f.len ∧ (o + 2 + (f.bytes (p + o + 1)).toNat ≤ len →
      OptionsFit f p len (o + 2 + (f.bytes (p + o + 1)).toNat)) := by
  constructor
  · intro hFits
    exact ⟨hFits o (.here o) hLt more, fun inside o' hOption => hFits o' (.there inside more hOption)⟩
  · rintro ⟨hHere, hThere⟩ o' hOption
    cases hOption with
    | here => exact fun _ _ => hHere
    | there inside _ rest => exact hThere inside o' rest

lemma dhcpOptions_ends (inside : p + len ≤ f.len) (enough : len ≤ o + fuel) :
    Ends (dhcpOptions f p len fuel o l) s ↔ OptionsFit f p len o := by
  induction fuel generalizing o l s with
  | zero => exact iff_of_true ends_pure (optionsFit_of_end (.inl (by omega)))
  | succ fuel ih =>
    unfold dhcpOptions
    by_cases hLt : o < len
    · rw [if_pos hLt, ends_peek_bind]
      by_cases hEnd : f.bytes (p + o) = 255
      · rw [if_pos hEnd]
        exact iff_of_true ⟨by omega, ends_pure⟩ (optionsFit_of_end (.inr hEnd))
      rw [if_neg hEnd, ends_peek_bind, optionsFit_iff hLt hEnd]
      by_cases hShort : len - o < (f.bytes (p + o + 1)).toNat + 2
      · rw [if_pos hShort]
        exact ⟨fun h => ⟨h.2.1, fun _ => by omega⟩, fun h => ⟨by omega, h.1, ends_pure⟩⟩
      rw [if_neg hShort, ends_bind_const fun l t => ih (s := t) (l := l) (by omega)]
      constructor
      · rintro ⟨-, hRead, -, hRest⟩
        exact ⟨hRead, fun _ => hRest⟩
      · rintro ⟨hRead, hRest⟩
        exact ⟨by omega, hRead, leaseOption_ends (by omega), hRest (by omega)⟩
    · rw [if_neg hLt]
      exact iff_of_true ends_pure (optionsFit_of_end (.inl (by omega)))

def DhcpFits (f : Packet) (xid p len : Nat) : Prop := 240 ≤ len → f.u32 (p + 4) = xid → OptionsFit f p len 240

lemma dhcpHandle_ends (inside : p + len ≤ f.len) : Ends (dhcpHandle f p len) s ↔ DhcpFits f s.xid p len := by
  unfold dhcpHandle DhcpFits
  by_cases hLen : len < 240
  · rw [if_pos hLen]
    exact iff_of_true ends_pure fun h => by omega
  rw [if_neg hLen, ends_peek32_bind, ends_get_bind]
  by_cases hXid : f.u32 (p + 4) = s.xid
  · rw [if_neg (not_not.mpr hXid), ends_bind_const (c := True) fun l t => iff_of_true ?_ trivial,
      dhcpOptions_ends inside (by omega)]
    · exact ⟨fun h _ _ => h.2.1, fun h => ⟨by omega, h (by omega) hXid, trivial⟩⟩
    rw [ends_peek32_bind]
    refine ⟨by omega, ?_⟩
    split
    · exact ends_pure
    split
    · rw [ends_modify_bind]
      exact dhcpSend_ends
    split
    · exact ends_modify
    · exact ends_pure
  · rw [if_pos hXid]
    exact iff_of_true ⟨by omega, ends_pure⟩ fun _ h => absurd h hXid

lemma processUdp_ends (inside : p + len ≤ f.len) (header : iphdr + iplen ≤ f.len) :
    Ends (processUdp f p len src iphdr iplen) s ↔
      (8 ≤ len → f.u16 (p + 2) = udpDhcpClient → DhcpFits f s.xid (p + 8) (len - 8)) := by
  unfold processUdp
  by_cases hLen : len < 8
  · rw [if_pos hLen]
    exact iff_of_true ends_pure fun h => by omega
  rw [if_neg hLen, ends_peek16_bind, ends_get_bind]
  by_cases hDhcp : f.u16 (p + 2) = udpDhcpClient
  · rw [if_pos hDhcp, dhcpHandle_ends (by omega)]
    exact ⟨fun h _ _ => h.2, fun h => ⟨by omega, h (by omega) hDhcp⟩⟩
  rw [if_neg hDhcp]
  refine iff_of_true ⟨by omega, ?_⟩ fun _ h => absurd h hDhcp
  have hCopy : ∀ {size : Nat}, (if size < len - 8 then size else len - 8) ≤ size ∧
      (if size < len - 8 then size else len - 8) ≤ len - 8 := by
    intro size
    split <;> omega
  split
  · rw [ends_peekN_bind, ends_fill_bind]
    have hBounds := @hCopy dnsRxbuf
    exact ⟨by omega, by simp; omega, ends_modify⟩
  split
  · rw [ends_peekN_bind, ends_fill_bind]
    have hBounds := @hCopy udpRxbuf
    exact ⟨by omega, by simp; omega, ends_modify⟩
  · exact icmpUnreachable_ends header inside

def ihl (f : Packet) (ip : Nat) : Nat := (f.bytes ip).toNat % 16 * 4

def totalLen (f : Packet) (ip : Nat) : Nat := f.u16 (ip + 2)

def fwBlocked (f : Packet) (s : Stack) (ip : Nat) (proto : UInt8) : Bool :=
  (4 ≤ totalLen f ip - ihl f ip ∧ (proto.toNat = 6 ∨ proto.toNat = 17)) &&
    netFwCheck s proto.toNat (f.u32 (ip + 16)) (f.u16 (ip + ihl f ip + 2))

structure Delivered (f : Packet) (s : Stack) (ip len : Nat) (proto : UInt8) : Prop where
  long : 20 ≤ len
  kind : f.bytes (ip + 9) = proto
  ours : f.u32 (ip + 16) = s.ip ∨ f.u32 (ip + 16) = broadcastIp ∨ f.u32 (ip + 16) = 0x7F000001 ∨ s.ip = 0
  header : ihl f ip ≤ totalLen f ip
  total : totalLen f ip ≤ len
  passes : fwBlocked f s ip proto = false

lemma fwBlocks_run {proto : UInt8} (inside : ip + totalLen f ip ≤ f.len) (header : ihl f ip ≤ totalLen f ip) :
    fwBlocks f proto.toNat (f.u32 (ip + 16)) (ip + ihl f ip) (totalLen f ip - ihl f ip) s =
      some (fwBlocked f s ip proto, s) := by
  unfold fwBlocks fwBlocked
  split_ifs with hPort
  · have hRead : f.peek16 (ip + ihl f ip + 2) s = some (f.u16 (ip + ihl f ip + 2), s) := by
      exact bind_run (a := PUnit.unit) (require_eq_some.mpr ⟨by omega, rfl⟩)
    rw [bind_run hRead, decide_eq_true hPort, Bool.true_and]
    rfl
  · rw [decide_eq_false hPort, Bool.false_and]
    rfl

def Ip4Fits (f : Packet) (s : Stack) (ip len : Nat) : Prop :=
  (Delivered f s ip len 1 → EchoFits f (ip + ihl f ip) (totalLen f ip - ihl f ip)) ∧
    (Delivered f s ip len 17 → 8 ≤ totalLen f ip - ihl f ip → f.u16 (ip + ihl f ip + 2) = udpDhcpClient →
      DhcpFits f s.xid (ip + ihl f ip + 8) (totalLen f ip - ihl f ip - 8))

lemma ip4Fits_of_not (not : ∀ proto, ¬ Delivered f s ip len proto) : Ip4Fits f s ip len :=
  ⟨fun h => absurd h (not 1), fun h => absurd h (not 17)⟩

lemma processIp_ends (inside : ip + len ≤ f.len) : Ends (processIp f ip len) s ↔ Ip4Fits f s ip len := by
  unfold processIp
  by_cases hLen : len < 20
  · rw [if_pos hLen]
    exact iff_of_true ends_pure (ip4Fits_of_not fun _ h => by have := h.long; omega)
  rw [if_neg hLen, ends_peek_bind, ends_peek16_bind, ends_peek_bind, ends_peek32_bind, ends_peek32_bind, ends_get_bind]
  have hRead : ip < f.len ∧ ip + 2 + 2 ≤ f.len ∧ ip + 9 < f.len ∧ ip + 12 + 4 ≤ f.len ∧ ip + 16 + 4 ≤ f.len := by omega
  simp only [hRead, true_and]
  rw [show (f.bytes ip).toNat % 16 * 4 = ihl f ip from rfl, show f.u16 (ip + 2) = totalLen f ip from rfl]
  by_cases hOurs : f.u32 (ip + 16) ≠ s.ip ∧ f.u32 (ip + 16) ≠ broadcastIp ∧ f.u32 (ip + 16) ≠ 0x7F000001 ∧ s.ip ≠ 0
  · rw [if_pos hOurs]
    exact iff_of_true ends_pure (ip4Fits_of_not fun _ h => by have := h.ours; tauto)
  rw [if_neg hOurs]
  by_cases hTotal : totalLen f ip < ihl f ip ∨ len < totalLen f ip
  · rw [if_pos hTotal]
    refine iff_of_true ends_pure (ip4Fits_of_not fun _ h => ?_)
    have hHeader := h.header
    have hFits := h.total
    omega
  rw [if_neg hTotal]
  have hInside : ip + totalLen f ip ≤ f.len := by omega
  have hBlocks := @fwBlocks_run f s ip (f.bytes (ip + 9)) hInside (by omega)
  have hDelivered : ∀ {proto}, f.bytes (ip + 9) = proto → fwBlocked f s ip (f.bytes (ip + 9)) = false →
      Delivered f s ip len proto := by
    rintro proto rfl hPasses
    exact ⟨by omega, rfl, by tauto, by omega, by omega, hPasses⟩
  rw [ends_bind_run hBlocks]
  cases hPasses : fwBlocked f s ip (f.bytes (ip + 9)) with
  | true =>
    refine iff_of_true ends_modify (ip4Fits_of_not fun proto h => ?_)
    have hOpen := h.passes
    rw [← h.kind, hPasses] at hOpen
    cases hOpen
  | false =>
    rw [if_neg Bool.false_ne_true]
    by_cases hIcmp : f.bytes (ip + 9) = 1
    · have hNotUdp : ¬ Delivered f s ip len 17 := fun h => absurd (hIcmp.symm.trans h.kind) (by decide)
      rw [if_pos hIcmp, processIcmp_ends (by omega)]
      exact ⟨fun h => ⟨fun _ => h, fun hUdp => absurd hUdp hNotUdp⟩, fun h => h.1 (hDelivered hIcmp hPasses)⟩
    have hNotIcmp : ¬ Delivered f s ip len 1 := fun h => hIcmp h.kind
    rw [if_neg hIcmp]
    by_cases hUdp : f.bytes (ip + 9) = 17
    · rw [if_pos hUdp, processUdp_ends (by omega) hInside]
      exact ⟨fun h => ⟨fun hI => absurd hI hNotIcmp, fun _ => h⟩, fun h => h.2 (hDelivered hUdp hPasses)⟩
    · rw [if_neg hUdp]
      exact iff_of_true ends_pure ⟨fun h => absurd h hNotIcmp, fun h => absurd h.kind hUdp⟩

/-! IPv6. -/

variable {m : Nat} {src : Buffer}

/-- A packet whose ICMPv6 message asks for nothing. -/
def Quiet (p : Packet) : Prop := (p.bytes 40).toNat = icmp6EchoReply ∨ (p.bytes 40).toNat = icmp6Na

lemma ip6Pieces_fit {src dst : Buffer} (room : pos + 40 + plen ≤ size) :
    ∀ p ∈ ip6Pieces pos src dst proto payload plen, p.len = 0 ∨ p.pos + p.len ≤ size := by
  intro p hp
  simp only [ip6Pieces, mem_cons, not_mem_nil, or_false] at hp
  rcases hp with rfl | rfl | rfl | rfl | rfl | rfl <;> exact .inr (by simp only; omega)

lemma quiet_filled {src dst payload : Buffer} {proto plen : Nat} (pos : 0 < plen)
    (kind : (payload 0).toNat = icmp6EchoReply ∨ (payload 0).toNat = icmp6Na) :
    Quiet ⟨filled zeros (ip6Pieces 0 src dst proto payload plen), n⟩ := by
  have hFirst : filled zeros (ip6Pieces 0 src dst proto payload plen) 40 = payload 0 := by
    simp only [ip6Pieces, filled, foldl_cons, foldl_nil]
    rw [copyTo, if_pos (by omega)]
  unfold Quiet
  dsimp only
  rwa [hFirst]

lemma ip6Send_ends (quiet : ∀ p t, Quiet p → Ends (deliver p) t) {dst payload : Buffer} {proto plen : Nat}
    (small : plen ≤ 1500) (pos : 0 < plen) (kind : (payload 0).toNat = icmp6EchoReply ∨ (payload 0).toNat = icmp6Na) :
    Ends (ip6Send deliver dst proto payload plen) s := by
  unfold ip6Send
  rw [ends_get_bind]
  dsimp only
  generalize (if ip6IsMulticast dst then some (ip6McastMac dst)
    else (nd6Lookup s dst).bind fun i => (s.nd6 i).map (·.2)) = known
  split
  · rw [ends_fill_bind]
    exact ⟨ip6Pieces_fit (by omega), quiet _ _ (quiet_filled pos kind)⟩
  · rw [ends_fill_bind]
    refine ⟨?_, ends_modify⟩
    rw [forall_mem_append]
    exact ⟨by simp, ip6Pieces_fit (by omega)⟩

lemma icmp6Send_ends (quiet : ∀ p t, Quiet p → Ends (deliver p) t) {dst param data : Buffer}
    {kind code dlen : Nat} (small : dlen ≤ 56) (reply : kind = icmp6EchoReply ∨ kind = icmp6Na) :
    Ends (icmp6Send deliver dst kind code param data dlen) s := by
  unfold icmp6Send
  rw [ends_get_bind, ends_fill_bind]
  rw [Nat.mod_eq_of_lt (show 8 + dlen < 65536 by omega), ends_fill_bind, ends_fill_bind]
  refine ⟨by simp; omega, by simp; omega, by simp, ip6Send_ends quiet (by omega) (by omega) ?_⟩
  rcases reply with rfl | rfl
  · exact .inl rfl
  · exact .inr rfl

/-- The option is a prefix that the host takes. -/
def Taken (f : Packet) (m opt : Nat) : Prop :=
  (f.bytes (m + opt) = 3 ∧ 4 ≤ f.bytes (m + opt + 1)) ∧ f.bytes (m + opt + 2) = 64 ∧ f.bytes (m + opt + 3) &&& 0x40 ≠ 0

/-- Where the options of a router advertisement lead in so many steps. -/
inductive RaOption (f : Packet) (m len : Nat) : Nat → Nat → Nat → Prop where
  | here (opt : Nat) : RaOption f m len 0 opt opt
  | there {n opt opt' : Nat} (inside : opt + 4 ≤ len) (more : ¬ Taken f m opt)
      (rest : RaOption f m len n ((opt + (f.bytes (m + opt + 1)).toNat * 8) % 65536) opt') :
      RaOption f m len (n + 1) opt opt'

/-- A prefix that is taken within so many steps lies in the frame. -/
def RaFits (f : Packet) (m len fuel opt : Nat) : Prop :=
  ∀ n opt', n < fuel → RaOption f m len n opt opt' → opt' + 4 ≤ len → Taken f m opt' → m + opt' + 24 ≤ f.len

lemma raFits_succ (inside : opt + 4 ≤ len) : RaFits f m len (fuel + 1) opt ↔ (Taken f m opt → m + opt + 24 ≤ f.len) ∧
      (¬ Taken f m opt → RaFits f m len fuel ((opt + (f.bytes (m + opt + 1)).toNat * 8) % 65536)) := by
  constructor
  · intro hFits
    refine ⟨hFits 0 opt (by omega) (.here opt) inside, fun hMore n opt' hn hOption => ?_⟩
    exact hFits (n + 1) opt' (by omega) (.there inside hMore hOption)
  · rintro ⟨hHere, hThere⟩ n opt' hn hOption
    cases hOption with
    | here => exact fun _ => hHere
    | there _ hMore rest => exact hThere hMore _ opt' (by omega) rest

lemma raOptions_ends (inside : m + len ≤ f.len) :
    Ends (raOptions f m len src fuel opt) s ↔ RaFits f m len fuel opt := by
  induction fuel generalizing opt s with
  | zero => exact iff_of_true ends_pure fun n _ hn => by omega
  | succ fuel ih =>
    unfold raOptions
    by_cases hInside : opt + 4 ≤ len
    · rw [if_pos hInside, ends_peek_bind, ends_peek_bind, raFits_succ hInside]
      by_cases hKind : f.bytes (m + opt) = 3 ∧ 4 ≤ f.bytes (m + opt + 1)
      · rw [if_pos hKind, ends_peek_bind, ends_peek_bind]
        by_cases hTaken : f.bytes (m + opt + 2) = 64 ∧ f.bytes (m + opt + 3) &&& 0x40 ≠ 0
        · rw [if_pos hTaken, ends_peekN_bind, ends_get_bind, ends_fill_bind]
          constructor
          · rintro ⟨-, -, -, -, hRead, -⟩
            exact ⟨fun _ => by omega, fun hNot => absurd ⟨hKind, hTaken⟩ hNot⟩
          · rintro ⟨hRoom, -⟩
            have hEnd := hRoom ⟨hKind, hTaken⟩
            exact ⟨by omega, by omega, by omega, by omega, by omega, by simp, ends_modify⟩
        · rw [if_neg hTaken, ih]
          exact ⟨fun h => ⟨fun hT => absurd hT.2 hTaken, fun _ => h.2.2.2.2⟩,
            fun h => ⟨by omega, by omega, by omega, by omega, h.2 fun hT => hTaken hT.2⟩⟩
      · rw [if_neg hKind, ih]
        exact ⟨fun h => ⟨fun hT => absurd hT.1 hKind, fun _ => h.2.2⟩,
          fun h => ⟨by omega, by omega, h.2 fun hT => hKind hT.1⟩⟩
    · rw [if_neg hInside]
      refine iff_of_true ends_pure fun n opt' _ hOption hIn => ?_
      cases hOption with
      | here => omega
      | there hIn' => omega

lemma raLinkLayer_ends (inside : m + len ≤ f.len) : Ends (raLinkLayer f m len src) s := by
  unfold raLinkLayer
  split
  · rw [ends_peek_bind, ends_peek_bind]
    refine ⟨by omega, by omega, ?_⟩
    split
    · rw [ends_peekN_bind]
      exact ⟨by omega, ends_modify⟩
    · exact ends_pure
  · exact ends_pure

lemma icmp6Handle_ends (quiet : ∀ p t, Quiet p → Ends (deliver p) t)
    {fuel : Nat} (inside : m + len ≤ f.len) : Ends (icmp6Handle deliver f fuel m len src) s ↔
      (8 ≤ len → (f.bytes m).toNat = icmp6Ra → s.ip6Ok = false → RaFits f m len fuel 16) := by
  unfold icmp6Handle
  by_cases hLen : len < 8
  · rw [if_pos hLen]
    exact iff_of_true ends_pure fun h => by omega
  rw [if_neg hLen, ends_peek_bind, ends_get_bind]
  by_cases hRa : (f.bytes m).toNat = icmp6Ra
  · rw [hRa, if_neg (by decide), if_neg (by decide), if_pos rfl,
      ends_bind_const (c := s.ip6Ok = false → RaFits f m len fuel 16) fun _ t => ?_]
    · exact ⟨fun h _ _ => h.2.2, fun h => ⟨by omega, raLinkLayer_ends inside, h (by omega) rfl⟩⟩
    · cases hOk : s.ip6Ok with
      | true => simp
      | false => simpa using raOptions_ends inside
  refine iff_of_true ⟨by omega, ?_⟩ fun _ h => absurd h hRa
  split
  · have hData : (if 56 < (if 8 < len then len - 8 else 0) then 56 else (if 8 < len then len - 8 else 0)) ≤ 56 ∧
        (if 56 < (if 8 < len then len - 8 else 0) then 56 else (if 8 < len then len - 8 else 0)) ≤ len - 8 := by
      split <;> split <;> omega
    rw [ends_peekN_bind, ends_peekN_bind]
    exact ⟨by omega, by omega, icmp6Send_ends quiet hData.1 (.inl rfl)⟩
  split
  · rw [ends_peek16_bind, ends_peek16_bind]
    refine ⟨by omega, by omega, ?_⟩
    split
    · exact ends_modify
    · exact ends_pure
  split
  · split
    · rw [ends_peekN_bind, ends_fill_bind]
      exact ⟨by omega, by simp, ends_modify⟩
    · exact ends_pure
  split
  · split
    · rw [ends_peekN_bind]
      refine ⟨by omega, ?_⟩
      split
      · rw [ends_fill_bind]
        exact ⟨by simp, icmp6Send_ends quiet (by decide) (.inr rfl)⟩
      · exact ends_pure
    · exact ends_pure
  · exact ends_pure

def addr6 (f : Packet) (i : Nat) : Buffer := filled zeros [⟨0, fun k => f.bytes (i + k), 16⟩]

def payload6 (f : Packet) (h len : Nat) : Nat :=
  if len < 40 + f.u16 (h + 4) then len - 40 else f.u16 (h + 4)

structure Delivered6 (f : Packet) (s : Stack) (h len : Nat) : Prop where
  long : 40 ≤ len
  version : (f.bytes h).toNat / 16 = 6
  proto : f.bytes (h + 6) = 58
  ours : (s.ip6Ok = true ∧ eq16 (addr6 f (h + 24)) s.ip6 = true) ∨ eq16 (addr6 f (h + 24)) ip6AllNodes = true ∨
    ip6IsMulticast (addr6 f (h + 24)) = true ∨ eq16 (addr6 f (h + 24)) s.ip6 = true

/-- A router advertisement for a host without an address fits. -/
def Ip6Fits (f : Packet) (s : Stack) (h len fuel : Nat) : Prop :=
  Delivered6 f s h len → 8 ≤ payload6 f h len → (f.bytes (h + 40)).toNat = icmp6Ra → s.ip6Ok = false →
    RaFits f (h + 40) (payload6 f h len) fuel 16

lemma netIpv6Deliver_succ {h : Nat} (inside : h + len ≤ f.len)
    (quiet : ∀ p t, Quiet p → Ends (netIpv6Deliver fuel p 0 p.len) t) :
    Ends (netIpv6Deliver (fuel + 1) f h len) s ↔ Ip6Fits f s h len fuel := by
  unfold netIpv6Deliver
  by_cases hLen : len < 40
  · rw [if_pos hLen]
    exact iff_of_true ends_pure fun hD => by have := hD.long; omega
  rw [if_neg hLen, ends_peek_bind]
  by_cases hVersion : (f.bytes h).toNat / 16 = 6
  · rw [if_neg (not_not.mpr hVersion), ends_peek16_bind, ends_peek_bind]
    rw [ends_peekN_bind, ends_peekN_bind, ends_fill_bind, ends_fill_bind, ends_get_bind]
    have hRead : h < f.len ∧ h + 4 + 2 ≤ f.len ∧ h + 6 < f.len ∧ (16 = 0 ∨ h + 8 + 16 ≤ f.len) ∧
        (16 = 0 ∨ h + 24 + 16 ≤ f.len) := by omega
    simp only [hRead, true_and, forall_mem_singleton, Nat.zero_add, Nat.le_refl, or_true]
    rw [show filled zeros [⟨0, fun k => f.bytes (h + 24 + k), 16⟩] = addr6 f (h + 24) from rfl,
      show (if len < 40 + f.u16 (h + 4) then len - 40 else f.u16 (h + 4)) = payload6 f h len from rfl]
    have hPayload : payload6 f h len ≤ len - 40 := by
      unfold payload6
      split <;> omega
    by_cases hOurs : (s.ip6Ok = true ∧ eq16 (addr6 f (h + 24)) s.ip6 = true) ∨
        eq16 (addr6 f (h + 24)) ip6AllNodes = true ∨ ip6IsMulticast (addr6 f (h + 24)) = true ∨
        eq16 (addr6 f (h + 24)) s.ip6 = true
    · rw [if_pos hOurs]
      by_cases hProto : f.bytes (h + 6) = 58
      · rw [if_pos hProto, icmp6Handle_ends quiet (by omega)]
        exact ⟨fun hFits _ => hFits, fun hFits => hFits ⟨by omega, hVersion, hProto, hOurs⟩⟩
      · rw [if_neg hProto]
        exact iff_of_true ends_pure fun hD => absurd hD.proto hProto
    · rw [if_neg hOurs]
      exact iff_of_true ends_pure fun hD => absurd hD.ours hOurs
  · rw [if_pos hVersion]
    exact iff_of_true ⟨by omega, ends_pure⟩ fun hD => absurd hD.version hVersion

/-- A quiet packet is delivered without a reply. -/
lemma quiet_ends {p : Packet} {t : Stack} (quiet : Quiet p) : Ends (netIpv6Deliver fuel p 0 p.len) t := by
  induction fuel generalizing p t with
  | zero => exact ends_pure
  | succ fuel ih =>
    rw [netIpv6Deliver_succ (by omega) fun _ _ => ih]
    intro _ _ hRa
    rcases quiet with hKind | hKind
    · exact absurd (hKind.symm.trans hRa) (by decide)
    · exact absurd (hKind.symm.trans hRa) (by decide)

/-! The frame. -/

/-- A frame is read inside its length, and buffers are written inside. -/
def Confined (f : Packet) (s : Stack) : Prop := ∀ fuel, Ends (processEth fuel f) s

/-- An echo request leaves four bytes of room, DHCP options do not end after a code, and a prefix
option is whole. -/
def Fits (f : Packet) (s : Stack) : Prop :=
  14 ≤ f.len → (f.u16 12 = ethIpv4 → Ip4Fits f s 14 (f.len - 14)) ∧
    (f.u16 12 = ethIpv6 → ∀ steps, Ip6Fits f s 14 (f.len - 14) steps)

/-- Parsing is confined exactly for the frames that fit. -/
theorem parsing_confined_iff (f : Packet) (s : Stack) : Confined f s ↔ Fits f s := by
  unfold Confined Fits
  by_cases hLen : f.len < 14
  · refine iff_of_true (fun fuel => ?_) fun h => by omega
    rw [processEth, if_pos hLen]
    exact ends_pure
  have hStart : ∀ fuel, Ends (processEth fuel f) s ↔ (f.u16 12 = ethIpv4 → Ip4Fits f s 14 (f.len - 14)) ∧
        (f.u16 12 = ethIpv6 → Ends (netIpv6Deliver fuel f 14 (f.len - 14)) s) := by
    intro fuel
    rw [processEth, if_neg hLen, ends_peek16_bind]
    by_cases hArp : f.u16 12 = ethArp
    · rw [if_pos hArp, hArp]
      exact iff_of_true ⟨by omega, processArp_ends (by omega)⟩ ⟨nofun, nofun⟩
    rw [if_neg hArp]
    by_cases hIpv4 : f.u16 12 = ethIpv4
    · rw [if_pos hIpv4, processIp_ends (by omega), hIpv4]
      exact ⟨fun h => ⟨fun _ => h.2, nofun⟩, fun h => ⟨by omega, h.1 rfl⟩⟩
    rw [if_neg hIpv4]
    by_cases hIpv6 : f.u16 12 = ethIpv6
    · rw [if_pos hIpv6]
      exact ⟨fun h => ⟨fun hType => absurd hType hIpv4, fun _ => h.2⟩, fun h => ⟨by omega, h.2 hIpv6⟩⟩
    · rw [if_neg hIpv6]
      exact iff_of_true ⟨by omega, ends_pure⟩ ⟨fun hType => absurd hType hIpv4, fun hType => absurd hType hIpv6⟩
  have hDeliver : ∀ fuel, Ends (netIpv6Deliver (fuel + 1) f 14 (f.len - 14)) s ↔ Ip6Fits f s 14 (f.len - 14) fuel :=
    fun fuel => netIpv6Deliver_succ (by omega) fun _ _ => quiet_ends
  simp only [hStart]
  constructor
  · intro hEnds _
    exact ⟨(hEnds 0).1, fun hType steps => (hDeliver steps).mp ((hEnds (steps + 1)).2 hType)⟩
  intro hFits fuel
  obtain ⟨hFour, hSix⟩ := hFits (by omega)
  refine ⟨hFour, fun hType => ?_⟩
  cases fuel with
  | zero => exact ends_pure
  | succ fuel => exact (hDeliver fuel).mpr (hSix hType fuel)

def freshStack : Stack where
  now := 0
  mac := zeros
  ip := 0
  mask := 0
  gw := 0
  dns := 0
  udpSrcPort := 7777
  routes := []
  fw := []
  fwDropped := 0
  loQ := []
  pingHit := false
  pingReplySrc := 0
  pingReplyId := 0
  pingReplySeq := 0
  arp := fun _ => none
  dhcpState := .idle
  xid := 0
  dhcpLast := 0
  offerIp := 0
  serverId := 0
  udpRx := zeros
  udpRxLen := 0
  dnsRx := zeros
  dnsRxLen := 0
  mac6 := zeros
  ip6 := zeros
  ip6Gw := zeros
  ip6Ok := false
  icmp6Id := 0
  icmp6Seq := 0
  ping6Hit := false
  nd6 := fun _ => none
  sent := []

def shortEcho : Packet where
  bytes := bytesOf (replicate 12 0 ++ [0x08, 0x00] ++
    [0x45, 0, 0, 28, 0, 0, 0, 0, 64, 1, 0, 0, 10, 0, 2, 2, 10, 0, 2, 15] ++ [8, 0, 0, 0, 0, 1, 0, 1])
  len := 42

/-- The reply to it copies four bytes that the frame does not have. -/
theorem shortEcho_not_confined : ¬ Confined shortEcho freshStack := by
  intro hConfined
  exact absurd (hConfined 0) (by unfold Ends; decide +kernel)

end YartOS.Net.Inbound
