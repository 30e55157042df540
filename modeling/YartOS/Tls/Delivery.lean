import YartOS.Tls.Flights

/-! What a connection reads when its peer's records arrive as they were sent. -/
namespace YartOS.Tls

open Programs List

/-! Numbers in big-endian bytes. -/

variable {want : UInt8}

lemma bigEndian_two (n : Nat) : bigEndian 2 n = [UInt8.ofNat (n / 2 ^ 8), UInt8.ofNat n] := by
  simp [bigEndian, range_succ]

lemma bigEndian_three (n : Nat) :
    bigEndian 3 n = [UInt8.ofNat (n / 2 ^ 16), UInt8.ofNat (n / 2 ^ 8), UInt8.ofNat n] := by
  simp [bigEndian, range_succ]

variable {before after : List UInt8} {n i : Nat} {type : UInt8}

lemma number_bigEndian_two (h : n < 2 ^ 16)
    (hi : before.length = i) : number (before ++ (bigEndian 2 n ++ after)) i 2 = n := by
  subst hi
  rw [number, drop_left, take_left' (bigEndian_length 2 n), bigEndian_two]
  simp only [foldl_cons, foldl_nil, UInt8.toNat_ofNat']
  omega

lemma number_bigEndian_three (h : n < 2 ^ 24)
    (hi : before.length = i) : number (before ++ (bigEndian 3 n ++ after)) i 3 = n := by
  subst hi
  rw [number, drop_left, take_left' (bigEndian_length 3 n), bigEndian_three]
  simp only [foldl_cons, foldl_nil, UInt8.toNat_ofNat']
  omega

/-! Frames. -/

lemma recvBytes_append (l : List UInt8) (rest : List Arrival) :
    recvBytes l.length (l.map .byte ++ rest) = (some l, rest) := by
  induction l with
  | nil => rfl
  | cons b l ih => simp [recvBytes, ih]

lemma recvBytes_length_le (n : Nat) (arrivals : List Arrival) : (recvBytes n arrivals).2.length ≤ arrivals.length := by
  induction arrivals generalizing n with
  | nil => cases n <;> simp [recvBytes]
  | cons a arrivals ih =>
    cases n with
    | zero => simp [recvBytes]
    | succ n =>
      cases a with
      | deadline => simp [recvBytes]
      | byte b => exact Nat.le_succ_of_le (ih n)

/-- A read of at least one byte takes something off the connection. -/
lemma recvBytes_length_lt (n : Nat) (a : Arrival) (arrivals : List Arrival) :
    (recvBytes (n + 1) (a :: arrivals)).2.length < (a :: arrivals).length := by
  cases a with
  | deadline => simp [recvBytes]
  | byte b => exact Nat.lt_succ_of_le (recvBytes_length_le n arrivals)

lemma recvPayload_length_le (type major minor : UInt8) (rlen : Nat) (arrivals : List Arrival) :
    (recvPayload type major minor rlen arrivals).2.length ≤ arrivals.length := by
  have hPayload := recvBytes_length_le rlen arrivals
  unfold recvPayload
  split <;> (rename_i hRecv; rw [hRecv] at hPayload; exact hPayload)

lemma recvFrame_length_lt (a : Arrival) (arrivals : List Arrival) :
    (recvFrame (a :: arrivals)).2.length < (a :: arrivals).length := by
  have hHeader := recvBytes_length_lt 4 a arrivals
  unfold recvFrame
  split
  · rename_i rest hRecv
    rw [hRecv] at hHeader
    split
    · exact hHeader
    split
    · exact hHeader
    · exact Nat.lt_of_le_of_lt (recvPayload_length_le _ _ _ _ rest) hHeader
  · rename_i hRecv
    rw [hRecv] at hHeader
    exact hHeader

/-- As many rounds as there are arrivals are enough. -/
lemma frames_eq {m : Nat} {arrivals : List Arrival} (hn : arrivals.length ≤ n)
    (hm : arrivals.length ≤ m) : frames n arrivals = frames m arrivals := by
  induction n generalizing m arrivals with
  | zero =>
    obtain rfl := length_eq_zero_iff.mp (Nat.le_zero.mp hn)
    cases m <;> rfl
  | succ n ih =>
    cases arrivals with
    | nil => cases m <;> rfl
    | cons a arrivals =>
      have hLt := recvFrame_length_lt a arrivals
      obtain ⟨m, rfl⟩ : ∃ k, m = k + 1 := ⟨m - 1, by omega⟩
      exact congrArg _ (ih (by omega) (by omega))

lemma deframe_cons (a : Arrival) (arrivals : List Arrival) : deframe (a :: arrivals) =
      (recvFrame (a :: arrivals)).1 :: deframe (recvFrame (a :: arrivals)).2 := by
  have hLt := recvFrame_length_lt a arrivals
  rw [length_cons] at hLt
  rw [deframe, length_cons, frames, deframe, frames_eq (by omega) (Nat.le_refl _)]

@[simp] lemma deframe_deadline (arrivals : List Arrival) :
    deframe (.deadline :: arrivals) = .late :: deframe arrivals := deframe_cons _ _

/-- A record on the wire is read as it was sent. -/
lemma recvFrame_wire {payload : List UInt8} {rest : List Arrival} (hLen : payload.length ≤ tlsMaxRecord) :
    recvFrame ((wire type payload).map .byte ++ rest) = (.record type 3 3 payload, rest) := by
  have hMax : tlsMaxRecord = 20000 := rfl
  have hHeader := recvBytes_append [type, 3, 3, UInt8.ofNat (payload.length / 2 ^ 8),
    UInt8.ofNat payload.length] (payload.map .byte ++ rest)
  have hSplit : (wire type payload).map .byte ++ rest = [type, 3, 3,
      UInt8.ofNat (payload.length / 2 ^ 8), UInt8.ofNat payload.length].map .byte ++ (payload.map .byte ++ rest) := by
    rw [wire, bigEndian_two]
    simp
  have hNumber : (UInt8.ofNat (payload.length / 2 ^ 8)).toNat * 256 +
      (UInt8.ofNat payload.length).toNat = payload.length := by
    simp only [UInt8.toNat_ofNat']
    omega
  rw [hSplit, recvFrame]
  simp only [length_cons, length_nil, Nat.zero_add, Nat.reduceAdd] at hHeader
  rw [hHeader]
  have hVersion : (3 : UInt8) ≠ 0 := by decide
  simp only [hVersion, false_and, and_false, if_false, hNumber, Nat.not_lt.mpr hLen, recvPayload, recvBytes_append]

lemma deframe_wire {payload : List UInt8} {rest : List Arrival} (hLen : payload.length ≤ tlsMaxRecord) :
    deframe ((wire type payload).map .byte ++ rest) = .record type 3 3 payload :: deframe rest := by
  have hFrame := @recvFrame_wire type payload rest hLen
  have hCons : (wire type payload).map Arrival.byte ++ rest =
      .byte type :: (([3, 3] ++ bigEndian 2 payload.length ++ payload).map .byte ++ rest) := rfl
  rw [hCons] at hFrame ⊢
  rw [deframe_cons, hFrame]

/-! Messages. -/

@[simp] lemma handshakeMsg_length (type : UInt8) (body : List UInt8) :
    (handshakeMsg type body).length = 4 + body.length := by
  simp [handshakeMsg]
  omega

lemma handshakeMsg_drop (type : UInt8) (body : List UInt8) : (handshakeMsg type body).drop 4 = body := by
  simp [handshakeMsg, bigEndian_three]

lemma isMessage_handshakeMsg {body : List UInt8} (type : UInt8) (hLen : body.length < 2 ^ 24) :
    IsMessage type (handshakeMsg type body) where
  type := rfl
  header := by
    rw [handshakeMsg_length]
    omega
  length := by
    have hNumber : number ([type] ++ (bigEndian 3 body.length ++ body)) 1 3 = body.length :=
      number_bigEndian_three hLen rfl
    rw [handshakeMsg_length]
    exact congrArg (4 + ·) hNumber.symm

/-- The reader takes the wanted message off the head of its buffer. -/
lemma drain_message {body extra : List UInt8} {t : Conn} (feed : Bool) (hLen : body.length < 2 ^ 24)
    (h : values t.hsbuf = handshakeMsg want body ++ extra) : ∃ octets rest, t.hsbuf = octets ++ rest ∧
      values octets = handshakeMsg want body ∧ values (octets.drop 4) = body ∧ values rest = extra ∧
      drain want feed t.hsbuf.length t = (some (octets.drop 4), takeMessage feed octets rest t) := by
  rcases @drain_ahead t want _ extra [] feed (isMessage_handshakeMsg want hLen) (by rw [append_nil, h]) with
    ⟨-, hNe⟩ | ⟨octets, rest, hBuf, hMsg, hRest, hDrain⟩
  · exact absurd rfl hNe
  · refine ⟨octets, rest, hBuf, hMsg, ?_, by rwa [append_nil] at hRest, hDrain⟩
    rw [values, map_drop, ← values, hMsg, handshakeMsg_drop]

/-- A message was taken, and fed to the transcript if it is to be. -/
structure Received (feed : Bool) (msg : List UInt8) (t t' : Conn) : Prop where
  server : t'.server = t.server
  cseq : t'.cseq = t.cseq
  sseq : t'.sseq = t.sseq + 1
  encSend : t'.encSend = t.encSend
  encRecv : t'.encRecv = t.encRecv
  rx : t'.rx = t.rx
  peerClosed : t'.peerClosed = t.peerClosed
  keys : t'.keys = t.keys
  master : t'.master = t.master
  out : t'.out = t.out
  hs : t'.hs = if feed then sha256Update t.hs msg else t.hs

variable {t : Conn} {feed : Bool} {inp : List Frame}

lemma dispatchRecord_handshake {payload : List Octet} (h : t.hsbuf.length + payload.length ≤ tlsMaxRecord) :
    dispatchRecord rtHandshake payload t = ({ t with hsbuf := t.hsbuf ++ payload }, true) := by
  rw [dispatchRecord, if_neg (by decide), if_neg (by decide), if_neg (by decide), if_neg (by decide), if_neg (by omega)]

/-- A record with a whole message, opened with nothing waiting. -/
lemma tlsReadHandshake_message {feed : Bool} {f : Frame} {inp : List Frame} {t : Conn} {payload : List Octet}
    {body extra : List UInt8} (hEmpty : t.hsbuf = []) (hData : recordData t f = some (rtHandshake, payload))
    (hValues : values payload = handshakeMsg want body ++ extra) (hLen : payload.length ≤ tlsMaxRecord) :
    ∃ octets t', tlsReadHandshake want feed (f :: inp) t = (some octets, t', inp) ∧
      values octets = body ∧ Received feed (handshakeMsg want body) t t' ∧ values t'.hsbuf = extra := by
  have hMax : tlsMaxRecord = 20000 := rfl
  have hLength : payload.length = 4 + body.length + extra.length := by
    rw [← values_length, hValues, length_append, handshakeMsg_length]
  have hRecord : readRecord t f = ({ t with sseq := t.sseq + 1, hsbuf := payload }, true) := by
    rw [readRecord, tlsReadRecord, hData]
    exact (dispatchRecord_handshake (by simp [hEmpty, hLen])).trans (by simp [hEmpty])
  obtain ⟨octets, rest, -, hMsg, hBody, hRest, hDrain⟩ := @drain_message want body extra
    { t with sseq := t.sseq + 1, hsbuf := payload } feed (by omega) hValues
  refine ⟨octets.drop 4, takeMessage feed octets rest { t with sseq := t.sseq + 1, hsbuf := payload }, ?_, hBody,
    ⟨rfl, rfl, rfl, rfl, rfl, rfl, rfl, rfl, rfl, rfl, by rw [takeMessage, hMsg]⟩, hRest⟩
  rw [tlsReadHandshake_more (drain_empty hEmpty), hRecord]
  exact tlsReadHandshake_found hDrain

lemma readMessage_of {cap : Nat} {t' : Conn} {inp' : List Frame} {octets : List Octet} (hCap : octets.length ≤ cap)
    (h : tlsReadHandshake want feed inp t = (some octets, t', inp')) :
    readMessage want cap feed ⟨t, inp⟩ = some (octets, ⟨t', inp'⟩) := by
  rw [readMessage]
  simp only [h]
  exact if_pos hCap

/-- The handshake reader finds a message in the clear and takes it whole. -/
lemma readMessage_plain {cap : Nat} {feed : Bool} {body : List UInt8} {inp : List Frame} {t : Conn}
    (hEmpty : t.hsbuf = []) (hOff : t.encRecv = false) (hCap : body.length ≤ cap)
    (hLen : body.length ≤ 19996) : ∃ octets t', readMessage want cap feed
        ⟨t, .record rtHandshake 3 3 (handshakeMsg want body) :: inp⟩ = some (octets, ⟨t', inp⟩) ∧
      values octets = body ∧ Received feed (handshakeMsg want body) t t' ∧ t'.hsbuf = [] := by
  have hData : recordData t (.record rtHandshake 3 3 (handshakeMsg want body)) =
      some (rtHandshake, note rtHandshake none (handshakeMsg want body)) := by
    rw [recordData, if_neg (by simp [hOff])]
  have hValues : values (note rtHandshake none (handshakeMsg want body)) = handshakeMsg want body ++ [] := by
    rw [values_note, append_nil]
  have hLength : (note rtHandshake none (handshakeMsg want body)).length = 4 + body.length := by
    rw [← values_length, values_note, handshakeMsg_length]
  have hMax : tlsMaxRecord = 20000 := rfl
  obtain ⟨octets, t', hRead, hBody, hReceived, hRest⟩ :=
    @tlsReadHandshake_message want feed _ inp t _ body [] hEmpty hData hValues (by omega)
  refine ⟨octets, t', readMessage_of ?_ hRead, hBody, hReceived, ?_⟩
  · rw [← values_length, hBody]
    exact hCap
  · exact map_eq_nil_iff.mp hRest

lemma tlsReadHandshake_ccs (hEmpty : t.hsbuf = []) :
    tlsReadHandshake want feed (.record rtChangeCipherSpec 3 3 [1] :: inp) t =
      tlsReadHandshake want feed inp t.turnOn := by
  rw [tlsReadHandshake_more (drain_empty hEmpty), readRecord, tlsReadRecord, recordData, if_neg (by simp)]
  rfl

lemma tlsReadHandshake_late (hEmpty : t.hsbuf = []) :
    tlsReadHandshake want feed (.late :: inp) t = (none, t, inp) := by
  rw [tlsReadHandshake_more (drain_empty hEmpty)]
  rfl

/-! Sealed records. -/

variable (key : List UInt8) (seq : Nat) (type : UInt8) (data : List UInt8)

lemma innerData_length : (innerData key seq type data).length = data.length + 32 + (16 - (data.length + 32) % 16) := by
  simp only [innerData, length_append, recordMac, hmacSha256_length, length_replicate]

/-- The padding put on is one for which the MAC is right. -/
lemma findPad_innerData : ∃ pad, findPad key seq type 3 3 (innerData key seq type data) = some pad ∧
      pad ≤ 16 - (data.length + 32) % 16 := by
  set sentPad := 16 - (data.length + 32) % 16 with hPad
  have hLength := innerData_length key seq type data
  have hFits : macFits key seq type 3 3 (innerData key seq type data) sentPad = true := by
    have hData : (innerData key seq type data).length - sentPad - 32 = data.length := by omega
    refine decide_eq_true ⟨by omega, ?_⟩
    rw [hData, innerData, append_assoc, take_left, drop_left, recordMac, take_left' (hmacSha256_length _ _)]
  have hMem : sentPad ∈ range' 1 16 := mem_range'_1.mpr (by omega)
  obtain ⟨pad, hFind⟩ := Option.isSome_iff_exists.mp (find?_isSome.mpr ⟨_, hMem, hFits⟩)
  refine ⟨pad, hFind, ?_⟩
  by_contra hLater
  have hFirst := (find?_range'_eq_some.mp hFind).2.2 sentPad (by omega) (by omega)
  rw [hFits] at hFirst
  cases hFirst

def Conn.readRk (t : Conn) : List UInt8 := if t.server then t.keys.rkC else t.keys.rkS

def Conn.readMac (t : Conn) : List UInt8 := if t.server then t.keys.cMac else t.keys.sMac

/-- What a record with `data` opens to; longer where a shorter padding has a right MAC. -/
def reread : List UInt8 :=
  let plain := innerData key seq type data
  plain.take (plain.length - (findPad key seq type 3 3 plain).getD 0 - 32)

lemma reread_spec : ∃ extra, reread key seq type data = data ++ extra ∧ extra.length ≤ 15 := by
  have hLength := innerData_length key seq type data
  obtain ⟨pad, hFind, hPad⟩ := findPad_innerData key seq type data
  have hPos : 1 ≤ pad := (mem_range'_1.mp (mem_of_find?_eq_some hFind)).1
  have hHead : (innerData key seq type data).take data.length = data := by rw [innerData, append_assoc, take_left]
  have hSplit : (innerData key seq type data).length - pad - 32 =
      data.length + ((innerData key seq type data).length - pad - 32 - data.length) := by omega
  refine ⟨((innerData key seq type data).drop data.length).take
    ((innerData key seq type data).length - pad - 32 - data.length), ?_, ?_⟩
  · simp only [reread, hFind, Option.getD_some]
    rw [hSplit, take_add, hHead, Nat.add_sub_cancel_left]
  · rw [length_take]
    omega

lemma openSealed_eq (t : Conn) (type major minor : UInt8) (payload : List UInt8) :
    openSealed t type major minor payload = let plain := Aes.aes128CbcDecrypt t.readRk (payload.take 16) (payload.drop 16)
      if payload.length < 16 + 16 + 32 then none
      else (findPad t.readMac t.sseq type major minor plain).map fun pad =>
        plain.take (plain.length - pad - 32) := rfl

lemma openSealed_sent {iv : List UInt8} {type : UInt8}
    {data : List UInt8} {t : Conn} (hIv : iv.length = 16) : openSealed t type 3 3
        (iv ++ Aes.aes128CbcEncrypt t.readRk iv (innerData t.readMac t.sseq type data)) =
      some (reread t.readMac t.sseq type data) := by
  have hLength := innerData_length t.readMac t.sseq type data
  obtain ⟨pad, hFind, -⟩ := findPad_innerData t.readMac t.sseq type data
  have hPlain : Aes.aes128CbcDecrypt t.readRk iv (Aes.aes128CbcEncrypt t.readRk iv
      (innerData t.readMac t.sseq type data)) = innerData t.readMac t.sseq type data :=
    Aes.cbcDecrypt_cbcEncrypt (by omega)
  rw [openSealed_eq, if_neg]
  · simp [take_left' hIv, drop_left' hIv, hPlain, hFind, Option.map_some, reread, Option.getD_some]
  · rw [length_append, Aes.cbcEncrypt_length, hIv]
    omega

/-- A sealed message is taken whole; what a mistaken padding adds stays. -/
lemma tlsReadHandshake_sealed {want : UInt8} {feed : Bool}
    {iv body : List UInt8} {inp : List Frame} {t : Conn} (hIv : iv.length = 16) (hOn : t.encRecv = true)
    (hEmpty : t.hsbuf = []) (hLen : body.length ≤ 16000) :
    ∃ octets t', tlsReadHandshake want feed (.record rtHandshake 3 3 (iv ++ Aes.aes128CbcEncrypt t.readRk iv
            (innerData t.readMac t.sseq rtHandshake (handshakeMsg want body))) :: inp) t =
        (some octets, t', inp) ∧ values octets = body ∧ Received feed (handshakeMsg want body) t t' := by
  obtain ⟨extra, hReread, hExtra⟩ := reread_spec t.readMac t.sseq rtHandshake (handshakeMsg want body)
  have hData : recordData t (.record rtHandshake 3 3 (iv ++ Aes.aes128CbcEncrypt t.readRk iv
      (innerData t.readMac t.sseq rtHandshake (handshakeMsg want body)))) =
        some (rtHandshake, note rtHandshake (some t.keys) (handshakeMsg want body ++ extra)) := by
    rw [recordData, if_pos ⟨hOn, by decide⟩, openSealed_sent hIv, hReread]
    rfl
  have hLength : (handshakeMsg want body ++ extra).length ≤ tlsMaxRecord := by
    have hMax : tlsMaxRecord = 20000 := rfl
    rw [length_append, handshakeMsg_length]
    omega
  obtain ⟨octets, t', hRead, hBody, hReceived, -⟩ := @tlsReadHandshake_message want feed
    _ inp t _ _ extra hEmpty hData (values_note _ _ _)
    (by rw [← values_length, values_note]; exact hLength)
  exact ⟨octets, t', hRead, hBody, hReceived⟩

end YartOS.Tls
