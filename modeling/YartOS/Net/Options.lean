import YartOS.Net.Output

/-! The walks over the options of router advertisements and of DHCP messages. -/
namespace YartOS.Net.Inbound

open Bytes Programs List

variable {f : Packet} {s : Stack} {m len opt n last fuel : Nat} {src dst param data payload : Buffer}
  {deliver deliver' : Packet → Run PUnit}

/-! Router advertisements. -/

/-- The walk has come to the end of the message, or to a prefix that is taken. -/
def RaLast (f : Packet) (m len last : Nat) : Prop := len < last + 4 ∨ Taken f m last

/-- No option that the walk passes from `opt` on has length zero. -/
def RaMoves (f : Packet) (m len opt : Nat) : Prop :=
  ∀ n next, RaOption f m len n opt next → ¬ RaLast f m len next → f.bytes (m + next + 1) ≠ 0

/-- Below 63500 bytes the offset does not wrap, and each option leads further. -/
lemma ra_walk_ends (small : len < 63500) (moves : RaMoves f m len opt) :
    ∃ n last, RaOption f m len n opt last ∧ RaLast f m len last := by
  induction hLeft : len - opt using Nat.strong_induction_on generalizing opt with
  | _ left ih =>
    by_cases hLast : RaLast f m len opt
    · exact ⟨0, opt, .here opt, hLast⟩
    obtain ⟨hInside, hMore⟩ := not_or.mp hLast
    have hMoves : (f.bytes (m + opt + 1)).toNat ≠ 0 :=
      fun hZero => moves 0 opt (.here opt) hLast (UInt8.toNat_inj.mp hZero)
    have hByte := (f.bytes (m + opt + 1)).toNat_lt
    obtain ⟨n, last, hWalk, hEnd⟩ := ih _ (by omega)
      (fun n next hNext => moves (n + 1) next (.there (by omega) hMore hNext)) rfl
    exact ⟨n + 1, last, .there (by omega) hMore hWalk, hEnd⟩

/-- A walk that ends has passed no option of length zero, which would have led it back to itself. -/
lemma raMoves_of_walk (small : len < 63500) (walk : RaOption f m len n opt last) (hLast : RaLast f m len last) :
    RaMoves f m len opt := by
  induction walk with
  | here opt =>
    rintro k next (_ | ⟨hInside, hMore, -⟩) hNext
    · exact absurd hLast hNext
    · exact absurd hLast (not_or.mpr ⟨by omega, hMore⟩)
  | @there n opt last hInside hMore rest ih =>
    rintro k next (_ | ⟨-, -, hWalk⟩) hNext
    · intro hZero
      have hStays : (opt + (f.bytes (m + opt + 1)).toNat * 8) % 65536 = opt := by
        rw [hZero, UInt8.toNat_zero]
        exact Nat.mod_eq_of_lt (by omega)
      have hMoves := ih hLast
      rw [hStays] at hMoves
      exact hMoves 0 opt (.here opt) hNext hZero
    · exact ih hLast _ next hWalk hNext

/-- More rounds than the walk has change nothing. -/
lemma raOptions_rounds (inside : m + len ≤ f.len) (walk : RaOption f m len n opt last) (hLast : RaLast f m len last)
    (enough : n < fuel) : raOptions f m len src fuel opt = raOptions f m len src (n + 1) opt := by
  induction walk generalizing fuel with
  | here opt =>
    obtain ⟨fuel, rfl⟩ := Nat.exists_eq_succ_of_ne_zero (Nat.ne_of_gt enough)
    unfold raOptions
    split
    · obtain ⟨hKind, hTaken⟩ := hLast.resolve_left (by omega)
      simp (disch := omega) only [peek_pos, pure_bind, if_pos hKind, if_pos hTaken]
    · rfl
  | there hInside hMore rest ih =>
    obtain ⟨fuel, rfl⟩ := Nat.exists_eq_succ_of_ne_zero (Nat.ne_zero_of_lt enough)
    have hRest := ih hLast (Nat.lt_of_succ_lt_succ enough)
    rw [raOptions, raOptions]
    simp (disch := omega) only [if_pos hInside, peek_pos, pure_bind, hRest]

/-- Delivery matters only for packets the host does not answer. -/
lemma ip6Send_congr {proto plen : Nat} (agree : ∀ p, Quiet p → deliver p = deliver' p) (small : plen ≤ 1500)
    (pos : 0 < plen) (kind : (payload 0).toNat = icmp6EchoReply ∨ (payload 0).toNat = icmp6Na) :
    ip6Send deliver dst proto payload plen = ip6Send deliver' dst proto payload plen := by
  refine bind_congr fun s => ?_
  dsimp only
  generalize (ite (ip6IsMulticast dst = true) _ _ : Option Buffer) = known
  split
  · rw [fill_pos (ip6Pieces_fit (by omega)), pure_bind, pure_bind, agree _ (quiet_filled pos kind)]
  · rfl

/-- The message that `icmp6_send` makes, with its checksum. -/
def icmp6Message (ip6 dst : Buffer) (kind code : Nat) (param data : Buffer) (dlen : Nat) : Buffer :=
  let m := filled zeros [⟨0, bytesOf [kind, code], 2⟩, ⟨4, param, 4⟩, ⟨8, data, dlen⟩]
  let ph := filled zeros
    [⟨0, ip6, 16⟩, ⟨16, dst, 16⟩, ⟨36, be16 (8 + dlen), 2⟩, ⟨39, bytesOf [58], 1⟩, ⟨40, m, 8 + dlen⟩]
  filled m [⟨2, be16 (netCsum ph (40 + (8 + dlen))), 2⟩]

lemma icmp6Send_eq {kind code dlen : Nat} (small : dlen ≤ 312) : icmp6Send deliver dst kind code param data dlen =
    get >>= fun s => ip6Send deliver dst 58 (icmp6Message s.ip6 dst kind code param data dlen) (8 + dlen) := by
  refine bind_congr fun s => ?_
  rw [Nat.mod_eq_of_lt (show 8 + dlen < 65536 by omega), fill_pos (by simp; omega), pure_bind]
  dsimp only
  rw [fill_pos (by simp; omega), pure_bind, fill_pos (by simp), pure_bind]
  rfl

lemma icmp6Send_congr {kind code dlen : Nat} (agree : ∀ p, Quiet p → deliver p = deliver' p) (small : dlen ≤ 56)
    (reply : kind = icmp6EchoReply ∨ kind = icmp6Na) :
    icmp6Send deliver dst kind code param data dlen = icmp6Send deliver' dst kind code param data dlen := by
  rw [icmp6Send_eq (by omega), icmp6Send_eq (by omega)]
  refine bind_congr fun s => ip6Send_congr agree (by omega) (by omega) ?_
  rcases reply with rfl | rfl
  · exact .inl rfl
  · exact .inr rfl

/-- The message is an advertisement whose options are looked at. -/
def Walked (s : Stack) (f : Packet) (m len : Nat) : Prop := 8 ≤ len ∧ (f.bytes m).toNat = icmp6Ra ∧ s.ip6Ok = false

lemma icmp6Handle_rounds (inside : m + len ≤ f.len)
    (walk : Walked s f m len → ∃ last, RaOption f m len n 16 last ∧ RaLast f m len last) (enough : n < fuel)
    (agree : ∀ p, Quiet p → deliver p = deliver' p) :
    icmp6Handle deliver f fuel m len src s = icmp6Handle deliver' f (n + 1) m len src s := by
  unfold icmp6Handle
  split
  · rfl
  rw [peek_pos (by omega), pure_bind, pure_bind, get_bind_run, get_bind_run]
  split
  · refine congrFun (bind_congr fun param => bind_congr fun data => icmp6Send_congr agree ?_ (.inl rfl)) s
    split_ifs <;> omega
  split
  · rfl
  split
  case isTrue hRa =>
    cases hAddress : s.ip6Ok with
    | true => rfl
    | false =>
      obtain ⟨last, hWalk, hLast⟩ := walk ⟨by omega, hRa, hAddress⟩
      rw [raOptions_rounds inside hWalk hLast enough]
  split
  · rfl
  split
  · split
    · refine congrFun (bind_congr fun target => ?_) s
      split
      · exact bind_congr fun body => icmp6Send_congr agree (by decide) (.inr rfl)
      · rfl
    · rfl
  · rfl

/-- A message that the host answers nothing to is not followed by another. -/
lemma icmp6Handle_quiet (inside : m + len ≤ f.len)
    (quiet : (f.bytes m).toNat = icmp6EchoReply ∨ (f.bytes m).toNat = icmp6Na) :
    icmp6Handle deliver f fuel m len src = icmp6Handle deliver' f n m len src := by
  unfold icmp6Handle
  split
  · rfl
  rw [peek_pos (by omega), pure_bind, pure_bind]
  refine bind_congr fun s => ?_
  have hReply : icmp6EchoReply ≠ icmp6EchoRequest := by decide
  have hNa : icmp6Na ≠ icmp6EchoRequest ∧ icmp6Na ≠ icmp6EchoReply ∧ icmp6Na ≠ icmp6Ra := by decide
  rcases quiet with hKind | hKind
  · simp [hKind, hReply, reduceIte]
  · simp [hKind, hNa, reduceIte]

/-- The walk over the options, if there is one, ends, and more rounds than it has change nothing. -/
def Terminates (s : Stack) (f : Packet) (m len : Nat) : Prop :=
  ∃ n, (Walked s f m len → ∃ last, RaOption f m len n 16 last ∧ RaLast f m len last) ∧
    ∀ deliver deliver' fuel src, (∀ p, Quiet p → deliver p = deliver' p) → n < fuel →
      icmp6Handle deliver f fuel m len src s = icmp6Handle deliver' f (n + 1) m len src s

/-- A message hangs the host exactly if its options are looked at and one that the walk comes to has length zero. What
the host then delivers to itself is answered with nothing. -/
theorem icmp6Handle_terminates_iff (f : Packet) (m len : Nat) (s : Stack) (inside : m + len ≤ f.len)
    (small : len < 63500) : (Terminates s f m len ↔ (Walked s f m len → RaMoves f m len 16)) ∧
      ((f.bytes m).toNat = icmp6EchoReply ∨ (f.bytes m).toNat = icmp6Na → ∀ deliver deliver' src,
        icmp6Handle deliver f 0 m len src = icmp6Handle deliver' f 0 m len src) := by
  refine ⟨⟨?_, fun moves => ?_⟩, fun quiet _ _ _ => icmp6Handle_quiet inside quiet⟩
  · rintro ⟨n, hWalk, -⟩ walked
    obtain ⟨last, hWalk, hLast⟩ := hWalk walked
    exact raMoves_of_walk small hWalk hLast
  · obtain ⟨n, hWalk⟩ : ∃ n, Walked s f m len → ∃ last, RaOption f m len n 16 last ∧ RaLast f m len last := by
      by_cases walked : Walked s f m len
      · obtain ⟨n, last, hWalk⟩ := ra_walk_ends small (moves walked)
        exact ⟨n, fun _ => ⟨last, hWalk⟩⟩
      · exact ⟨0, fun h => absurd h walked⟩
    exact ⟨n, hWalk, fun _ _ _ _ agree enough => icmp6Handle_rounds inside hWalk enough agree⟩

def zeroOption (len : Nat) : Packet := ⟨bytesOf [134], len⟩

/-- A source address of the link layer, and an MTU. -/
def twoOptions : Packet := ⟨bytesOf ([134] ++ replicate 15 0 ++ [1, 1, 0, 0, 0, 0, 0, 0] ++ [5, 1]), 32⟩

theorem twoOptions_terminates : Terminates freshStack twoOptions 0 32 := by
  refine (icmp6Handle_terminates_iff twoOptions 0 32 freshStack (by decide) (by decide)).1.mpr fun _ n next walk hMore => ?_
  rcases walk with _ | ⟨-, -, _ | ⟨-, -, _ | ⟨hInside, -, -⟩⟩⟩
  · decide
  · decide
  · exact absurd (Or.inl (by decide)) hMore
  · exact absurd hInside (by decide)

/-- An option of length zero is looked at for ever. -/
theorem zero_option_hangs : ((zeroOption 24).bytes 0).toNat = icmp6Ra ∧
    ∀ n last, RaOption (zeroOption 24) 0 24 n 16 last → ¬ RaLast (zeroOption 24) 0 24 last := by
  refine ⟨by decide, fun n last walk => ?_⟩
  have hStay : last = 16 := by
    generalize hOpt : 16 = opt at walk
    induction walk with
    | here => rfl
    | there _ _ _ ih =>
      subst hOpt
      exact ih rfl
  rw [hStay]
  unfold RaLast Taken
  decide

/-! DHCP. -/

/-- The bytes of an option; a PAD, which has the code 0, is just that. -/
def optionBytes (x : UInt8 × List UInt8) : List UInt8 :=
  if x.1 = 0 then [0] else x.1 :: UInt8.ofNat x.2.length :: x.2

/-- The options in their order, and the END. -/
def optionList (opts : List (UInt8 × List UInt8)) : List UInt8 := opts.flatMap optionBytes ++ [255]

/-- An option as RFC 2132 has it. -/
structure OptionOk (code : UInt8) (d : List UInt8) : Prop where
  not_end : code ≠ 255
  short : d.length < 256
  msgtype : code = 53 → 1 ≤ d.length
  address : code = 1 ∨ code = 3 ∨ code = 6 ∨ code = 54 → 4 ≤ d.length

def Lease.read (l : Lease) (x : UInt8 × List UInt8) : Lease :=
  let v : Packet := ⟨fun i => x.2.getD i 0, x.2.length⟩
  { msgtype := if x.1 = 53 then (v.bytes 0).toNat else l.msgtype
    mask := if x.1 = 1 then v.u32 0 else l.mask
    router := if x.1 = 3 then v.u32 0 else l.router
    dns := if x.1 = 6 then v.u32 0 else l.dns
    srv := if x.1 = 54 then v.u32 0 else l.srv }

/-- PADs stand in pairs, which the walk takes for an option without data, or alone before the END of a message
that has no room for the 255 bytes it then wants to skip. -/
inductive Readable (left : Nat) : List (UInt8 × List UInt8) → Prop where
  | nil : Readable left []
  | last (d : List UInt8) (short : left < 255) : Readable left [(0, d)]
  | pair {opts} (d d' : List UInt8) (rest : Readable left opts) : Readable left ((0, d) :: (0, d') :: opts)
  | option {code d opts} (ok : OptionOk code d) (no_pad : code ≠ 0) (rest : Readable left opts) : Readable left ((code, d) :: opts)

variable {p o : Nat} {l : Lease} {code : UInt8} {d : List UInt8} {opts : List (UInt8 × List UInt8)} {s : Stack}

def HoldsAt (f : Packet) (i : Nat) (bytes : List UInt8) : Prop := ∀ k < bytes.length, f.bytes (i + k) = bytes.getD k 0

lemma leaseOption_eq (ok : OptionOk code d) (inside : p + o + 2 + d.length ≤ f.len)
    (holds : HoldsAt f (p + o + 2) d) : leaseOption f p o code.toNat d.length l = pure (l.read (code, d)) := by
  have hU32 (long : 4 ≤ d.length) : f.u32 (p + o + 2) = Packet.u32 ⟨fun i => d.getD i 0, d.length⟩ 0 := by
    have hLast : f.bytes (p + o + 2 + 2 + 1) = d.getD 3 0 := holds 3 (by omega)
    have hFirst : f.bytes (p + o + 2) = d.getD 0 0 := holds 0 (by omega)
    rw [Packet.u32, Packet.u16, Packet.u16, hFirst, holds 1 (by omega), holds 2 (by omega), hLast]
    rfl
  unfold leaseOption leaseField
  by_cases hType : code = 53
  · have hLong := ok.msgtype hType
    subst hType
    rw [if_pos ⟨rfl, hLong⟩, peek_pos (by omega), pure_bind, show f.bytes (p + o + 2) = d.getD 0 0 from holds 0 hLong]
    rfl
  rw [if_neg fun h => hType (UInt8.toNat_inj.mp h.1)]
  by_cases hAddress : code = 1 ∨ code = 3 ∨ code = 6 ∨ code = 54
  · have hLong := ok.address hAddress
    rw [peek32_pos (by omega), pure_bind, hU32 hLong]
    rcases hAddress with rfl | rfl | rfl | rfl <;> exact if_pos ⟨by decide, hLong⟩
  · rw [if_neg fun h => hAddress (by simpa [← UInt8.toNat_inj] using h.1)]
    simp only [not_or] at hAddress
    simp [Lease.read, hType, hAddress]

/-- One round of the walk. -/
lemma dhcpOptions_option (ok : OptionOk code d) (inside : p + len ≤ f.len) (room : o + 2 + d.length ≤ len)
    (holds : HoldsAt f (p + o) (code :: UInt8.ofNat d.length :: d)) :
    dhcpOptions f p len (fuel + 1) o l = dhcpOptions f p len fuel (o + 2 + d.length) (l.read (code, d)) := by
  have hFirst : f.bytes (p + o) = code := holds 0 (by simp)
  have hSecond : (f.bytes (p + o + 1)).toNat = d.length := by
    rw [holds 1 (by simp)]
    exact UInt8.toNat_ofNat_of_lt' ok.short
  have hData : HoldsAt f (p + o + 2) d := fun k hk => by
    rw [Nat.add_assoc, Nat.add_comm 2 k]
    exact holds (k + 2) (by simp only [length_cons]; omega)
  rw [dhcpOptions, if_pos (by omega), peek_pos (by omega), pure_bind, if_neg (hFirst ▸ ok.not_end), peek_pos (by omega),
    pure_bind, hSecond, if_neg (by omega), hFirst, leaseOption_eq ok (by omega) hData, pure_bind]

lemma HoldsAt.left {i : Nat} {a b : List UInt8} (holds : HoldsAt f i (a ++ b)) : HoldsAt f i a := fun k hk => by
  rw [holds k (by simp; omega), getD_append _ _ _ _ hk]

lemma HoldsAt.right {i : Nat} {a b : List UInt8} (holds : HoldsAt f i (a ++ b)) : HoldsAt f (i + a.length) b :=
  fun k hk => by
    rw [Nat.add_assoc, holds (a.length + k) (by simp; omega), getD_append_right _ _ _ _ (by omega), Nat.add_sub_cancel_left]

lemma optionOk_pad : OptionOk 0 [] := ⟨by decide, by decide, by decide, by decide⟩

lemma Lease.read_pad : l.read (0, d) = l := rfl

lemma dhcpOptions_eq {left : Nat} (readable : Readable left opts) (inside : p + len ≤ f.len)
    (holds : HoldsAt f (p + o) (optionList opts)) (room : o + (optionList opts).length + left = len)
    (enough : opts.length < fuel) : dhcpOptions f p len fuel o l = pure (opts.foldl Lease.read l) := by
  induction readable generalizing o l fuel with
  | nil =>
    obtain ⟨fuel, rfl⟩ := Nat.exists_eq_succ_of_ne_zero (Nat.ne_zero_of_lt enough)
    have hEnd : f.bytes (p + o) = 255 := holds 0 (by decide)
    have hRoom : o + 1 + left = len := room
    rw [dhcpOptions, if_pos (by omega), peek_pos (by omega), pure_bind, if_pos hEnd]
    rfl
  | last d short =>
    obtain ⟨fuel, rfl⟩ := Nat.exists_eq_succ_of_ne_zero (Nat.ne_zero_of_lt enough)
    have hPad : f.bytes (p + o) = 0 := holds 0 (by simp [optionList, optionBytes])
    have hEnd : f.bytes (p + o + 1) = 255 := holds 1 (by simp [optionList, optionBytes])
    have hRoom : o + 2 + left = len := room
    rw [dhcpOptions, if_pos (by omega), peek_pos (by omega), pure_bind, hPad, if_neg (by decide), peek_pos (by omega),
      pure_bind, hEnd, if_pos (show len - o < UInt8.toNat 255 + 2 from show len - o < 255 + 2 by omega)]
    rfl
  | @pair opts d d' rest ih =>
    obtain ⟨fuel, rfl⟩ := Nat.exists_eq_succ_of_ne_zero (Nat.ne_zero_of_lt enough)
    have hList : optionList ((0, d) :: (0, d') :: opts) = [0, 0] ++ optionList opts := by simp [optionList, optionBytes]
    rw [hList] at holds room
    simp only [length_append, length_cons, length_nil] at room enough
    rw [dhcpOptions_option optionOk_pad inside (by simp; omega) holds.left, ih holds.right (by simp; omega) (by omega)]
    simp only [foldl_cons, Lease.read_pad]
  | @option code d opts ok no_pad rest ih =>
    obtain ⟨fuel, rfl⟩ := Nat.exists_eq_succ_of_ne_zero (Nat.ne_zero_of_lt enough)
    have hList : optionList ((code, d) :: opts) = (code :: UInt8.ofNat d.length :: d) ++ optionList opts := by
      simp [optionList, optionBytes, no_pad]
    rw [hList] at holds room
    simp only [length_append, length_cons] at room
    have hNext := holds.right
    rw [Nat.add_assoc, show o + (code :: UInt8.ofNat d.length :: d).length = o + 2 + d.length by simp; omega] at hNext
    rw [dhcpOptions_option ok inside (by omega) holds.left, ih hNext (by omega) (Nat.lt_of_succ_lt_succ enough)]
    rfl

lemma length_lt_optionList : opts.length < (optionList opts).length := by
  induction opts with
  | nil => decide
  | cons x opts ih =>
    have hPos : 0 < (optionBytes x).length := by
      unfold optionBytes
      split <;> simp
    simp only [optionList, flatMap_cons, length_append, length_cons] at ih ⊢
    omega

def Installs (s : Stack) (ip : Nat) (l : Lease) : Prop := s.ip = ip ∧ s.mask = l.mask ∧ s.gw = l.router ∧ s.dns = l.dns

lemma Installs.routeAdd {ip dst mask gw : Nat} {default : Bool} (h : Installs s ip l) :
    Installs (routeAdd dst mask gw default s) ip l := by
  unfold Inbound.routeAdd
  dsimp only
  split_ifs <;> exact h

/-- Options whose PADs do not shift the walk are read as they are, and the lease is installed. -/
theorem dhcp_lease_read (f : Packet) (p len left : Nat) (opts : List (UInt8 × List UInt8))
    (readable : Readable left opts) (inside : p + len ≤ f.len) (holds : HoldsAt f (p + 240) (optionList opts))
    (room : 240 + (optionList opts).length + left = len) :
    dhcpOptions f p len len 240 {} = pure (opts.foldl Lease.read {}) ∧
      ∀ s, f.u32 (p + 4) = s.xid → s.dhcpState ≠ .done → (opts.foldl Lease.read {}).msgtype = dhcpAck →
        f.u32 (p + 16) ≠ 0 → ∃ t, dhcpHandle f p len s = some (⟨⟩, t) ∧
          Installs t (f.u32 (p + 16)) (opts.foldl Lease.read {}) := by
  have hOptions := @dhcpOptions_eq f len len p 240 {} opts left readable inside holds room
    (by have := @length_lt_optionList opts; omega)
  refine ⟨hOptions, fun s hXid hState hAck hIp => ?_⟩
  have hOffer : ¬ ((opts.foldl Lease.read {}).msgtype = dhcpOffer ∧ s.dhcpState = .discover) := by
    rw [hAck]
    exact fun h => absurd h.1 (by decide)
  rw [dhcpHandle, if_neg (by omega), peek32_pos (by omega), pure_bind, get_bind_run, if_neg (not_not.mpr hXid), hOptions,
    pure_bind, peek32_pos (by omega), pure_bind, if_neg hState, if_neg hOffer, if_pos ⟨hAck, hIp⟩]
  refine ⟨_, rfl, ?_⟩
  dsimp only
  split_ifs
  · exact Installs.routeAdd (Installs.routeAdd ⟨rfl, rfl, rfl, rfl⟩)
  · exact Installs.routeAdd ⟨rfl, rfl, rfl, rfl⟩
  · exact Installs.routeAdd ⟨rfl, rfl, rfl, rfl⟩
  · exact ⟨rfl, rfl, rfl, rfl⟩

/-- A message with these options, whose other bytes are all one. -/
def dhcpMessage (opts : List (UInt8 × List UInt8)) : Packet :=
  ⟨fun i => if i < 240 then 1 else (optionList opts).getD (i - 240) 0, 240 + (optionList opts).length⟩

lemma holdsAt_dhcpMessage : HoldsAt (dhcpMessage opts) (0 + 240) (optionList opts) := by
  intro k _
  refine (if_neg (by omega)).trans (congrArg ((optionList opts).getD · 0) ?_)
  omega

/-- An unknown option, every field of a lease, a pair of PADs and one before the END. -/
def ackOptions : List (UInt8 × List UInt8) :=
  [(53, [5]), (12, [104, 105]), (0, []), (0, []), (1, [255, 255, 255, 0]), (3, [10, 0, 2, 2]), (6, [10, 0, 2, 3]),
    (54, [10, 0, 2, 4]), (0, [])]

theorem ack_installed : ∃ t, dhcpHandle (dhcpMessage ackOptions) 0 275 { freshStack with xid := 0x01010101 } =
    some (⟨⟩, t) ∧ Installs t 0x01010101 ⟨5, 0xFFFFFF00, 0x0A000202, 0x0A000203, 0x0A000204⟩ := by
  have ok (code : UInt8) (d : List UInt8) (h : code ≠ 255 ∧ d.length < 256 ∧ (code = 53 → 1 ≤ d.length) ∧
      (code = 1 ∨ code = 3 ∨ code = 6 ∨ code = 54 → 4 ≤ d.length)) : OptionOk code d := ⟨h.1, h.2.1, h.2.2.1, h.2.2.2⟩
  have readable : Readable 0 ackOptions :=
    .option (ok _ _ (by decide)) (by decide) <| .option (ok _ _ (by decide)) (by decide) <| .pair [] [] <|
      .option (ok _ _ (by decide)) (by decide) <| .option (ok _ _ (by decide)) (by decide) <|
      .option (ok _ _ (by decide)) (by decide) <| .option (ok _ _ (by decide)) (by decide) <| .last [] (by decide)
  exact (dhcp_lease_read (dhcpMessage ackOptions) 0 275 0 ackOptions readable (by decide) holdsAt_dhcpMessage (by decide)).2
    { freshStack with xid := 0x01010101 } (by decide) (by decide) (by decide) (by decide)

/-- Behind a PAD the message type of an ACK is taken for a length. -/
theorem pad_hides_ack : (Lease.read (Lease.read {} (0, [])) (53, [5])).msgtype = dhcpAck ∧
    (dhcpOptions (dhcpMessage [(0, []), (53, [5])]) 0 245 245 240 {} freshStack).map (fun r => r.1.msgtype) = some 0 := by
  decide +kernel

end YartOS.Net.Inbound
