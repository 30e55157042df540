import YartOS.Net.Options
import Mathlib.Algebra.BigOperators.Ring.Finset

/-! The internet checksum, and the echo replies that carry it. -/
namespace YartOS.Net.Inbound

open Bytes Programs List

/-! One's complement sums of 16 bits. -/

/-- What folding the carries of a sum into its low word ends with. -/
def foldCarry (n : Nat) : Nat :=
  if n < 65536 then n else foldCarry (n / 65536 + n % 65536)
termination_by n

/-- The same as a remainder: only an empty sum is zero. -/
def residue (n : Nat) : Nat := if n = 0 then 0 else (n - 1) % 65535 + 1

lemma foldCarry_eq (n : Nat) : foldCarry n = residue n := by
  induction n using foldCarry.induct with
  | case1 n hSmall =>
    rw [foldCarry, if_pos hSmall, residue]
    split <;> omega
  | case2 n hCarry ih =>
    rw [foldCarry, if_neg hCarry, ih, residue, residue]
    split_ifs <;> omega

lemma csumAdd_residue {n w : Nat} (small : w < 65536) : csumAdd (residue n) w = residue (n + w) := by
  unfold csumAdd residue
  dsimp only
  split_ifs <;> omega

/-- The words of RFC 1071: a string of odd length is filled up with a zero. -/
def csumWord (b : Buffer) (len k : Nat) : Nat := Packet.u16 ⟨fun i => if i < len then b i else 0, len⟩ (2 * k)

def csumTotal (b : Buffer) (len : Nat) : Nat := ∑ k ∈ Finset.range ((len + 1) / 2), csumWord b len k

def rfc1071 (b : Buffer) (len : Nat) : Nat := 65535 - foldCarry (csumTotal b len)

variable {b b' : Buffer} {c j k len : Nat}

lemma csumWord_lt : csumWord b len k < 65536 := by
  have hHigh := UInt8.toNat_lt (if 2 * k < len then b (2 * k) else 0)
  have hLow := UInt8.toNat_lt (if 2 * k + 1 < len then b (2 * k + 1) else 0)
  simp only [csumWord, Packet.u16]
  omega

lemma csumWord_inside (inside : 2 * k + 1 < len) : csumWord b len k = (b (2 * k)).toNat * 256 + (b (2 * k + 1)).toNat := by
  simp [csumWord, Packet.u16, inside, show 2 * k < len by omega]

lemma netCsum_eq : netCsum b len = 65535 - residue (csumTotal b len) := by
  have hFold (n : Nat) (hn : n ≤ (len + 1) / 2) : (range n).foldl (fun sum k => csumAdd sum ((b (2 * k)).toNat * 256 +
        if 2 * k + 1 < len then (b (2 * k + 1)).toNat else 0)) 0 =
        residue (∑ k ∈ Finset.range n, csumWord b len k) := by
    induction n with
    | zero => rfl
    | succ n ih =>
      rw [range_succ, foldl_append, ih (by omega), Finset.sum_range_succ, ← csumAdd_residue csumWord_lt]
      simp only [foldl_cons, foldl_nil, csumWord, Packet.u16, show 2 * n < len by omega, if_true]
      split <;> rfl
  have hSmall : residue (csumTotal b len) ≤ 65535 := by
    unfold residue
    split <;> omega
  unfold netCsum
  dsimp only
  rw [hFold _ le_rfl, ← csumTotal]
  omega

/-- The sum when the words differ in two places. -/
lemma csumTotal_add {c' j' : Nat} (hj : j < (len + 1) / 2) (hj' : j' < (len + 1) / 2)
    (words : ∀ k, csumWord b' len k + (if k = j' then c' else 0) = csumWord b len k + if k = j then c else 0) :
    csumTotal b' len + c' = csumTotal b len + c := by
  have hSum := Finset.sum_congr (rfl : Finset.range ((len + 1) / 2) = _) fun k _ => words k
  rw [Finset.sum_add_distrib, Finset.sum_add_distrib, Finset.sum_ite_eq', Finset.sum_ite_eq',
    if_pos (Finset.mem_range.mpr hj), if_pos (Finset.mem_range.mpr hj')] at hSum
  exact hSum

lemma u16_be16 (small : c < 65536) : (be16 c 0).toNat * 256 + (be16 c 1).toNat = c := by
  simp only [be16, bytesOf, getD_cons_succ, getD_cons_zero, UInt8.toNat_ofNat']
  omega

lemma netCsum_store (inside : 2 * j + 2 ≤ len) (high : b (2 * j) = 0) (low : b (2 * j + 1) = 0) :
    netCsum (copyTo b (2 * j) (be16 (netCsum b len)) 2) len = 0 := by
  have hField := @u16_be16 (netCsum b len) (by rw [netCsum_eq]; omega)
  have hSum : csumTotal (copyTo b (2 * j) (be16 (netCsum b len)) 2) len + 0 = csumTotal b len + netCsum b len := by
    refine csumTotal_add (show j < _ by omega) (show j < _ by omega) fun k => ?_
    by_cases hk : k = j
    · subst hk
      simp [csumWord_inside inside, copyTo, high, low, hField]
    · have hApart {i} (hi : i = 2 * k ∨ i = 2 * k + 1) : copyTo b (2 * j) (be16 (netCsum b len)) 2 i = b i :=
        if_neg (by omega)
      simp [csumWord, Packet.u16, hApart (.inl rfl), hApart (.inr rfl), hk]
  rw [netCsum_eq, ← Nat.add_zero (csumTotal _ len), hSum, netCsum_eq]
  unfold residue
  split_ifs <;> omega

/-! The checksum of ICMPv6. -/

/-- What a receiver sums up: the pseudo-header of RFC 4443, and the message. -/
def pseudoHeader (src dst m : Buffer) (len : Nat) : Buffer :=
  filled zeros [⟨0, src, 16⟩, ⟨16, dst, 16⟩, ⟨32, be32 len, 4⟩, ⟨39, bytesOf [58], 1⟩, ⟨40, m, len⟩]

/-- The code has the length in the next word, which is the same for the sum. -/
def codeHeader (src dst m : Buffer) (len : Nat) : Buffer :=
  filled zeros [⟨0, src, 16⟩, ⟨16, dst, 16⟩, ⟨36, be16 len, 2⟩, ⟨39, bytesOf [58], 1⟩, ⟨40, m, len⟩]

variable {src dst m : Buffer} {i : Nat}

lemma pseudoHeader_eq (long : 8 ≤ len) (apart : i < 32 ∨ 38 ≤ i) :
    pseudoHeader src dst (copyTo m 2 (be16 c) 2) len i = copyTo (codeHeader src dst m len) 42 (be16 c) 2 i := by
  simp only [pseudoHeader, codeHeader, filled, foldl_cons, foldl_nil, copyTo]
  grind

lemma csumTotal_pseudoHeader (long : 8 ≤ len) (small : len < 65536) :
    csumTotal (pseudoHeader src dst (copyTo m 2 (be16 c) 2) len) (40 + len) =
      csumTotal (copyTo (codeHeader src dst m len) 42 (be16 c) 2) (40 + len) := by
  refine @Nat.add_right_cancel _ len _ (csumTotal_add (show 17 < _ by omega) (show 18 < _ by omega) fun k => ?_)
  by_cases hApart : k < 16 ∨ 19 ≤ k
  · simp [csumWord, Packet.u16, pseudoHeader_eq (m := m) (c := c) long (show 2 * k < 32 ∨ 38 ≤ 2 * k by omega),
      pseudoHeader_eq (m := m) (c := c) long (show 2 * k + 1 < 32 ∨ 38 ≤ 2 * k + 1 by omega), if_neg (show k ≠ 17 by omega),
      if_neg (show k ≠ 18 by omega)]
  · obtain rfl | rfl | rfl : k = 16 ∨ k = 17 ∨ k = 18 := by omega
    all_goals rw [csumWord_inside (by omega), csumWord_inside (by omega)]
    all_goals simp [pseudoHeader, codeHeader, filled, copyTo, be32, be16, bytesOf, zeros]
    all_goals omega

lemma icmp6Message_verifies {ip6 param data : Buffer} {kind code dlen : Nat} (small : dlen ≤ 312) :
    netCsum (pseudoHeader ip6 dst (icmp6Message ip6 dst kind code param data dlen) (8 + dlen)) (40 + (8 + dlen)) = 0 := by
  rw [netCsum_eq]
  refine Eq.trans (congrArg (fun n => 65535 - residue n) (csumTotal_pseudoHeader (by omega) (by omega))) ?_
  rw [← netCsum_eq]
  refine netCsum_store (j := 21) (by omega) ?_ ?_ <;> simp [codeHeader, filled, copyTo, zeros]

/-- The checksum is that of RFC 1071, and data that holds its checksum sums to zero. -/
theorem checksum_correct : (∀ b len, netCsum b len = rfc1071 b len) ∧
      (∀ b len j, 2 * j + 2 ≤ len → b (2 * j) = 0 → b (2 * j + 1) = 0 →
        netCsum (copyTo b (2 * j) (be16 (netCsum b len)) 2) len = 0) ∧
      ∀ deliver dst kind code param data dlen s, Ends (icmp6Send deliver dst kind code param data dlen) s →
        ∃ m, icmp6Send deliver dst kind code param data dlen s = ip6Send deliver dst 58 m (8 + dlen) s ∧
          rfc1071 (pseudoHeader s.ip6 dst m (8 + dlen)) (40 + (8 + dlen)) = 0 := by
  have hRfc (b : Buffer) (len : Nat) : netCsum b len = rfc1071 b len := by rw [netCsum_eq, rfc1071, foldCarry_eq]
  refine ⟨hRfc, fun b len j => netCsum_store, fun deliver dst kind code param data dlen s hEnds => ?_⟩
  have small : dlen ≤ 312 := by
    rw [icmp6Send, ends_get_bind, ends_fill_bind] at hEnds
    have := hEnds.1 ⟨8, data, dlen⟩ (by simp)
    simp only at this
    omega
  exact ⟨_, congrFun (icmp6Send_eq small) s, (hRfc _ _).symm.trans (icmp6Message_verifies small)⟩

/-- A string of odd length, and an echo reply of three bytes. -/
theorem odd_checksum :
    netCsum (copyTo (bytesOf [0x45, 0, 0, 84]) 4 (be16 (netCsum (bytesOf [0x45, 0, 0, 84]) 7)) 2) 7 = 0 ∧
      ∃ m, icmp6Send (fun _ => pure ⟨⟩) ip6AllNodes 129 0 zeros (bytesOf [1, 2, 3]) 3 freshStack =
          ip6Send (fun _ => pure ⟨⟩) ip6AllNodes 58 m 11 freshStack ∧
        rfc1071 (pseudoHeader freshStack.ip6 ip6AllNodes m 11) 51 = 0 := by
  obtain ⟨-, hStore, hSend⟩ := checksum_correct
  refine ⟨hStore (bytesOf [0x45, 0, 0, 84]) 7 2 (by decide) rfl rfl, ?_⟩
  exact hSend (fun _ => pure ⟨⟩) ip6AllNodes 129 0 zeros (bytesOf [1, 2, 3]) 3 freshStack rfl

/-! Echo replies. -/

variable {f : Packet} {s : Stack}

/-- The program sends a right checksum and the bytes from the identifier on. -/
def Mirrors (f : Packet) (p len kind : Nat) (csum : Buffer → Nat) (send : Buffer → Run PUnit) (x : Run PUnit)
    (s : Stack) : Prop :=
  ∃ r, x s = send r s ∧ (r 0).toNat = kind ∧ (∀ i, 4 ≤ i → i < len → r i = f.bytes (p + i)) ∧ csum r = 0

lemma peekN_pos {n : Nat} (inside : i + n ≤ f.len) : f.peekN i n = pure fun k => f.bytes (i + k) := by
  rw [Packet.peekN, require_pos (.inr inside), pure_bind]

lemma processIcmp_mirrors {p src : Nat} (inside : p + 64 ≤ f.len) (echo : f.bytes p = 8) :
    Mirrors f p 64 0 (netCsum · 64) (ipSend src 1 · 64) (processIcmp f p 64 src) s := by
  rw [processIcmp, if_neg (by decide), peek_pos (by omega), pure_bind, echo, if_pos rfl, peekN_pos (by omega), pure_bind,
    fill_pos (by simp), pure_bind]
  simp only [Nat.reduceLT, Nat.reduceSub, reduceIte]
  rw [peekN_pos (by omega), pure_bind, fill_pos (by simp), pure_bind, fill_pos (by simp), pure_bind]
  refine ⟨_, rfl, rfl, fun i hLow hHigh => ?_, netCsum_store (j := 1) (by decide) rfl rfl⟩
  simp only [filled, foldl_cons, foldl_nil, copyTo]
  grind

/-- The sender can be answered: the queue has room, or the next hop is known. -/
def Resolvable (s : Stack) (dst : Nat) : Prop :=
  if isLoopback dst then s.loQ.length < loopbackQueue else (nextMac s dst).isSome

/-- The bytes that wait in the loopback queue or have been sent. -/
def outputBytes (s : Stack) : Nat := (s.loQ.map (·.2)).sum + (s.sent.map (·.2)).sum

/-- What an ICMP message adds for a host that can send it tells how long it is. -/
lemma outputBytes_ipSend {dst n : Nat} {r : Buffer} {t : Stack} (resolvable : Resolvable s dst)
    (run : ipSend dst 1 r n s = some (⟨⟩, t)) :
    outputBytes t = outputBytes s + (if isLoopback dst then 20 else 34) + n := by
  have hPass : (Ipv4.mk 1 dst r n).blocked s = false := by simp [Ipv4.blocked, Ipv4.port]
  have hOut := @Ipv4.netIpSend_output s s.ip ⟨1, dst, r, n⟩
  change netIpSend s.ip dst 1 r n s = _ at run
  dsimp only at hOut
  rw [run] at hOut
  unfold Resolvable at resolvable
  unfold outputBytes
  cases hOut with
  | blocked no => exact absurd (hPass.symm.trans no) (by decide)
  | unreachable wire mac => simp [wire, mac] at resolvable
  | busy loop fits full =>
    rw [if_pos loop] at resolvable
    omega
  | queued pass loop =>
    simp only [map_append, map_cons, map_nil, sum_append, sum_cons, sum_nil, if_pos loop]
    omega
  | sent pass wire =>
    simp only [map_append, map_cons, map_nil, sum_append, sum_cons, sum_nil, wire, Bool.false_eq_true, if_false]
    omega

lemma processIcmp_sends {p src : Nat} (long : 8 ≤ len) (inside : p + len ≤ f.len) (echo : f.bytes p = 8)
    (ends : Ends (processIcmp f p len src) s) :
    ∃ r, processIcmp f p len src s = ipSend src 1 r (8 + min (len - 4) 56) s := by
  have hFits : p + 8 + min (len - 4) 56 ≤ f.len := (processIcmp_ends inside).mp ends long echo
  have hLong : (if 4 < len then len - 4 else 0) = len - 4 := if_pos (by omega)
  have hData : (if 56 < len - 4 then 56 else len - 4) = min (len - 4) 56 := by split <;> omega
  rw [processIcmp, if_neg (by omega), peek_pos (by omega), pure_bind, echo, if_pos rfl, peekN_pos (by omega), pure_bind,
    fill_pos (by simp), pure_bind, hLong, hData, peekN_pos (by omega), pure_bind,
    fill_pos (by simp; omega), pure_bind, fill_pos (by simp), pure_bind]
  exact ⟨_, rfl⟩

lemma processIcmp_mirrors_iff {p src : Nat} (long : 8 ≤ len) (inside : p + len ≤ f.len) (echo : f.bytes p = 8)
    (resolvable : Resolvable s src) :
    Mirrors f p len 0 (netCsum · len) (ipSend src 1 · len) (processIcmp f p len src) s ↔ len = 64 := by
  constructor
  · rintro ⟨r, hSame, -⟩
    by_cases hEnds : Ends (processIcmp f p len src) s
    · obtain ⟨⟨⟨⟩, t⟩, hRun⟩ := Option.isSome_iff_exists.mp hEnds
      obtain ⟨r', hReply⟩ := processIcmp_sends long inside echo hEnds
      have hReplied := outputBytes_ipSend resolvable (hReply.symm.trans hRun)
      have hMirrored := outputBytes_ipSend resolvable (hSame.symm.trans hRun)
      omega
    · -- The frame ends inside the reply, so the request is shorter than that and would have been sent.
      have hShort : ¬ EchoFits f p len := fun hFits => hEnds ((processIcmp_ends inside).mpr hFits)
      have hLess : len ≤ 1484 := by
        by_contra hLarge
        exact hShort fun _ _ => by omega
      refine absurd ?_ hEnds
      rw [Ends, hSame]
      exact ipSend_ends hLess
  · rintro rfl
    exact processIcmp_mirrors inside echo

lemma icmp6Handle_sends {deliver : Packet → Run PUnit} {fuel m : Nat} (inside : m + len ≤ f.len) (long : 8 ≤ len)
    (echo : (f.bytes m).toNat = icmp6EchoRequest) : icmp6Handle deliver f fuel m len src s =
      ip6Send deliver src 58 (icmp6Message s.ip6 src icmp6EchoReply 0 (fun i => f.bytes (m + 4 + i))
        (fun i => f.bytes (m + 8 + i)) (min (len - 8) 56)) (8 + min (len - 8) 56) s := by
  have hLong : (if 8 < len then len - 8 else 0) = len - 8 := by split <;> omega
  have hData : (if 56 < len - 8 then 56 else len - 8) = min (len - 8) 56 := by split <;> omega
  rw [icmp6Handle, if_neg (by omega), peek_pos (by omega), pure_bind, get_bind_run, echo, if_pos rfl, hLong, hData,
    peekN_pos (by omega), pure_bind, peekN_pos (by omega), pure_bind, icmp6Send_eq (by omega)]
  rfl

lemma icmp6Handle_mirrors {deliver : Packet → Run PUnit} {fuel m : Nat}
    (inside : m + len ≤ f.len) (long : 8 ≤ len) (short : len ≤ 64) (echo : (f.bytes m).toNat = icmp6EchoRequest) :
    Mirrors f m len icmp6EchoReply (fun r => netCsum (pseudoHeader s.ip6 src r len) (40 + len))
      (ip6Send deliver src 58 · len) (icmp6Handle deliver f fuel m len src) s := by
  have hReply := @icmp6Handle_sends len src f s deliver fuel m inside long echo
  obtain ⟨dlen, rfl⟩ := Nat.exists_eq_add_of_le long
  rw [Nat.add_sub_cancel_left, min_eq_left (by omega)] at hReply
  refine ⟨_, hReply, rfl, fun i hLow hHigh => ?_, icmp6Message_verifies (by omega)⟩
  simp only [icmp6Message, filled, foldl_cons, foldl_nil, copyTo]
  grind

lemma ip6Send_ends_other {deliver : Packet → Run PUnit} {n : Nat} {r : Buffer} (other : eq16 dst s.ip6 = false)
    (small : n ≤ 1500) : Ends (ip6Send deliver dst 58 r n) s := by
  rw [ip6Send, ends_get_bind, if_neg (by simp [other]), ends_fill_bind]
  exact ⟨forall_mem_append.mpr ⟨by simp, ip6Pieces_fit (by omega)⟩, ends_modify⟩

lemma outputBytes_ip6Send {deliver : Packet → Run PUnit} {n : Nat} {r : Buffer} {t : Stack}
    (other : eq16 dst s.ip6 = false) (run : ip6Send deliver dst 58 r n s = some (⟨⟩, t)) :
    outputBytes t = outputBytes s + 54 + n := by
  rw [ip6Send, get_bind_run, if_neg (by simp [other])] at run
  have hFits := (ends_fill_bind.mp (Option.isSome_of_eq_some run)).1 ⟨54, r, n⟩ (by simp [ip6Pieces])
  have hSmall : n ≤ 1500 := by
    dsimp only at hFits
    omega
  rw [fill_pos (forall_mem_append.mpr ⟨by simp, ip6Pieces_fit (by omega)⟩)] at run
  cases run
  unfold outputBytes
  simp only [map_append, map_cons, map_nil, sum_append, sum_cons, sum_nil]
  omega

lemma icmp6Handle_mirrors_iff {deliver : Packet → Run PUnit} {fuel m : Nat} (inside : m + len ≤ f.len) (long : 8 ≤ len)
    (echo : (f.bytes m).toNat = icmp6EchoRequest) (other : eq16 src s.ip6 = false) :
    Mirrors f m len icmp6EchoReply (fun r => netCsum (pseudoHeader s.ip6 src r len) (40 + len))
      (ip6Send deliver src 58 · len) (icmp6Handle deliver f fuel m len src) s ↔ len ≤ 64 := by
  refine ⟨?_, fun short => icmp6Handle_mirrors inside long short echo⟩
  rintro ⟨r, hSame, -⟩
  rw [icmp6Handle_sends inside long echo] at hSame
  generalize icmp6Message _ _ _ _ _ _ _ = reply at hSame
  have hEnds : Ends (ip6Send deliver src 58 reply (8 + min (len - 8) 56)) s := ip6Send_ends_other other (by omega)
  obtain ⟨⟨⟨⟩, t⟩, hRun⟩ := Option.isSome_iff_exists.mp hEnds
  have hReplied := outputBytes_ip6Send other hRun
  have hMirrored := outputBytes_ip6Send other (hSame.symm.trans hRun)
  omega

/-- An ICMP echo request to a host that can answer it is mirrored exactly if it has 64 bytes, and one of ICMPv6 from
another host if it has no more. -/
theorem echo_mirrored_iff (f : Packet) (s : Stack) (p len : Nat) (inside : p + len ≤ f.len) (long : 8 ≤ len) :
    (∀ src, f.bytes p = 8 → Resolvable s src →
      (Mirrors f p len 0 (netCsum · len) (ipSend src 1 · len) (processIcmp f p len src) s ↔ len = 64)) ∧
      ∀ deliver fuel src, (f.bytes p).toNat = icmp6EchoRequest → eq16 src s.ip6 = false →
        (Mirrors f p len icmp6EchoReply (fun r => netCsum (pseudoHeader s.ip6 src r len) (40 + len))
          (ip6Send deliver src 58 · len) (icmp6Handle deliver f fuel p len src) s ↔ len ≤ 64) := by
  exact ⟨fun src echo => processIcmp_mirrors_iff long inside echo,
    fun deliver fuel src echo => icmp6Handle_mirrors_iff inside long echo⟩

theorem full_echo_mirrored :
    Mirrors ⟨bytesOf [8, 0, 0, 0, 7], 64⟩ 0 64 0 (netCsum · 64) (ipSend 0x7F000001 1 · 64)
        (processIcmp ⟨bytesOf [8, 0, 0, 0, 7], 64⟩ 0 64 0x7F000001) freshStack ∧
      Mirrors ⟨bytesOf [128, 0, 0, 0, 7], 20⟩ 0 20 129 (fun r => netCsum (pseudoHeader freshStack.ip6 ip6AllNodes r 20) 60)
        (ip6Send (fun _ => pure ⟨⟩) ip6AllNodes 58 · 20)
        (icmp6Handle (fun _ => pure ⟨⟩) ⟨bytesOf [128, 0, 0, 0, 7], 20⟩ 0 0 20 ip6AllNodes) freshStack :=
  ⟨((echo_mirrored_iff _ _ 0 64 (by decide) (by decide)).1 0x7F000001 rfl (by unfold Resolvable; decide)).mpr rfl,
    ((echo_mirrored_iff _ _ 0 20 (by decide) (by decide)).2 _ 0 ip6AllNodes rfl (by decide)).mpr (by decide)⟩

/-- A request of 8 bytes in a frame with padding is answered with 12. -/
theorem short_echo_grows : (processIcmp ⟨bytesOf [8], 60⟩ 0 8 0x7F000001 freshStack).map
    (fun r => r.2.loQ.map (·.2)) = some [20 + 12] := by
  decide +kernel

end YartOS.Net.Inbound
