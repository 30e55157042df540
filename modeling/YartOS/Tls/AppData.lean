import YartOS.Tls.Authentic

/-! Which records the bytes that `tls_recv` hands out came in. -/
namespace YartOS.Tls

open Programs List Option

inductive Role where
  | client (e : ClientEnv)
  | server (v : ServerEnv)

def handshake (C : Crypto) (role : Role) (arrivals : List Arrival) : Option Session :=
  match role with
  | .client e => (tlsConnect C e (startClient arrivals)).map (·.2)
  | .server v => (tlsServerHandshake C v (startServer arrivals)).map (·.2)

/-- The messages from which the keys are derived. -/
def Role.flight : Role → List UInt8
  | .client _ => serverFlight
  | .server _ => [hsClientHello, hsClientKeyExchange]

inductive Call where
  | recv (cap : Nat)
  | sendChunk (iv data : List UInt8)
deriving DecidableEq, Repr

def runCall : Call → Session → List Octet × Session
  | .recv cap, s => tlsRecv cap s
  | .sendChunk iv data, s =>
    ([], { s with conn := tlsSendEncrypted iv rtApplicationData data s.conn })

def runCalls : List Call → Session → List Octet × Session
  | [], s => ([], s)
  | c :: calls, s =>
    ((runCall c s).1 ++ (runCalls calls (runCall c s).2).1, (runCalls calls (runCall c s).2).2)

/-- The byte was in application data with a right MAC under these keys. -/
structure AuthenticData (keys : Keys) (o : Octet) : Prop where
  type : o.source.type = rtApplicationData
  checked : o.source.checked = some keys

/-- The cipher is on with these keys, and all data that waits came under it. -/
structure On (keys : Keys) (t : Conn) : Prop where
  encRecv : t.encRecv = true
  rx : ∀ o ∈ t.rx, AuthenticData keys o
  keys : t.keys = keys

variable {keys : Keys} {t t' : Conn} {f : Frame} {s s' : Session}

lemma recordData_on {type : UInt8} {payload : List Octet} (on : On keys t) (h : recordData t f = some (type, payload))
    (hApp : type = rtApplicationData) : ∀ o ∈ payload, AuthenticData keys o := by
  cases f with
  | refused | late => cases h
  | record rtype major minor bytes =>
    rw [recordData] at h
    split at h
    · obtain ⟨data, -, hData⟩ := map_eq_some_iff.mp h
      cases hData
      intro o ho
      obtain ⟨b, -, rfl⟩ := mem_map.mp ho
      exact ⟨hApp, congrArg some on.keys⟩
    · rename_i hOff
      cases h
      exact absurd ⟨on.encRecv, hApp ▸ by decide⟩ hOff

lemma readRecord_on (on : On keys t) (f : Frame) : On keys (readRecord t f).1 := by
  unfold readRecord
  split
  · exact on
  rename_i type payload t₁ hRead
  obtain ⟨hData, rfl⟩ := tlsReadRecord_eq_some hRead
  unfold dispatchRecord
  split_ifs with hAlert hCcs hApp
  all_goals first
    | exact ⟨on.encRecv, on.rx, on.keys⟩
    | exact ⟨rfl, on.rx, on.keys⟩
    | exact ⟨on.encRecv, forall_mem_append.mpr ⟨on.rx, recordData_on on hData hApp⟩, on.keys⟩

lemma on_kept (keys : Keys) : Kept (On keys) where
  take _ _ on := ⟨on.encRecv, on.rx, on.keys⟩
  record f on := readRecord_on on f

lemma tlsReadAppdata_on (on : On keys t) (f : Frame) : On keys (tlsReadAppdata f t) := by
  unfold tlsReadAppdata
  split
  · exact on
  rename_i type payload t₁ hRead
  obtain ⟨hData, rfl⟩ := tlsReadRecord_eq_some hRead
  split_ifs with hAlert hClose hApp
  · exact ⟨on.encRecv, on.rx, on.keys⟩
  · exact ⟨on.encRecv, on.rx, on.keys⟩
  · refine ⟨on.encRecv, forall_mem_append.mpr ⟨on.rx, fun o ho => ?_⟩, on.keys⟩
    exact recordData_on on hData hApp o (mem_of_mem_take ho)
  · exact ⟨on.encRecv, on.rx, on.keys⟩

lemma recvLoop_on (on : On keys t) (inp : List Frame) : On keys (recvLoop inp t).1 := by
  induction inp generalizing t with
  | nil => exact on
  | cons f inp ih =>
    cases f with
    | late =>
      rw [recvLoop]
      split <;> exact on
    | refused | record type major minor payload =>
      rw [recvLoop]
      · split
        · exact ih (tlsReadAppdata_on on _)
        · exact on
      · exact nofun

/-- One call keeps the cipher on and hands out bytes that came under it. -/
lemma runCall_on (on : On keys s.conn) (c : Call) :
    On keys (runCall c s).2.conn ∧ ∀ o ∈ (runCall c s).1, AuthenticData keys o := by
  cases c with
  | sendChunk iv data => exact ⟨⟨on.encRecv, on.rx, on.keys⟩, nofun⟩
  | recv cap =>
    have hLoop := recvLoop_on on s.inp
    exact ⟨⟨hLoop.encRecv, fun o ho => hLoop.rx o (mem_of_mem_drop ho), hLoop.keys⟩,
      fun o ho => hLoop.rx o (mem_of_mem_take ho)⟩

lemma runCalls_on {calls : List Call} (on : On keys s.conn) : ∀ o ∈ (runCalls calls s).1, AuthenticData keys o := by
  induction calls generalizing s with
  | nil => exact nofun
  | cons c calls ih =>
    obtain ⟨hNext, hOut⟩ := runCall_on on c
    exact forall_mem_append.mpr ⟨hOut, ih hNext⟩

/-! The handshake. -/

variable {major minor want : UInt8} {payload : List UInt8} {post inp inp' : List Frame} {feed : Bool}
  {r : Option (List Octet)}

/-- Keys are there, and no application data has come; the ChangeCipherSpec is still to come. -/
def Waits (post : List Frame) (s : Session) : Prop :=
  ∃ major minor payload, Ahead False [] (.record rtChangeCipherSpec major minor payload :: post) s.conn s.inp

/-- A call that returns a message has seen the ChangeCipherSpec. -/
lemma Waits.read (waits : Waits post ⟨t, inp⟩) (h : tlsReadHandshake want feed inp t = (r, t', inp')) :
    (r = none ∧ t'.keys = t.keys ∧ Waits post ⟨t', inp'⟩) ∨ On t.keys t' := by
  obtain ⟨major, minor, payload, hAhead⟩ := waits
  obtain ⟨sseq, rx, hRx, ⟨hNone, hConn, hStill⟩ | hOn⟩ := tlsReadHandshake_waiting hAhead h
  · exact .inl ⟨hNone, by rw [hConn], major, minor, payload, hStill⟩
  · obtain rfl := hRx not_false
    have hStart : On t.keys (Conn.turnOn { t with rx := [] }) := ⟨rfl, forall_mem_nil _, rfl⟩
    exact .inr ((on_kept t.keys).read hStart hOn)

lemma Waits.message {cap : Nat} {body : List Octet} (waits : Waits post s)
    (h : readMessage want cap feed s = some (body, s')) : On s.conn.keys s'.conn := by
  rcases waits.read (readMessage_eq_some h) with ⟨hNone, -⟩ | hOn
  · cases hNone
  · exact hOn

lemma On.same (on : On keys t) : On t.keys t := on.keys ▸ on

variable {C : Crypto} {msgs : List (List UInt8)} {arrivals : List Arrival}

lemma tlsConnect_on {e : ClientEnv} {u : PUnit} (opens : Opens False serverFlight msgs post (deframe arrivals))
    (h : tlsConnect C e (startClient arrivals) = some (u, s)) : On s.conn.keys s.conn := by
  obtain ⟨hMsgs, clear, major, minor, payload, hInp, hClear, hFlight⟩ := opens
  obtain ⟨sh, cert, done, rfl⟩ : ∃ sh cert done, msgs = [sh, cert, done] := length_eq_three.mp hMsgs.length_eq.symm
  rw [startClient, hInp] at h
  obtain ⟨_, s₁, h₁, h⟩ := of_bind h
  obtain ⟨hAhead, -⟩ := connectFlight_ahead hMsgs (hFlight ▸ ahead_of_clear hClear) h₁
  obtain ⟨fin, s₂, h₂, h⟩ := of_bind h
  obtain ⟨-, rfl⟩ := require_eq_some.mp h
  have hWaits : Waits post s₁ := ⟨major, minor, payload, hAhead⟩
  exact (hWaits.message h₂).same

variable {v : ServerEnv}

/-- The server has derived its keys, and nothing else is left in the clear. -/
lemma acceptKeys_ahead {ch cke : List UInt8} {tail : List Frame} {u : PUnit}
    (hCh : IsMessage hsClientHello ch) (hCke : IsMessage hsClientKeyExchange cke)
    (ahead : Ahead False (ch ++ (cke ++ [])) tail s.conn s.inp) (h : acceptKeys C v s = some (u, s')) :
    Ahead False [] tail s'.conn s'.inp := by
  obtain ⟨_, s₁, h₁, h⟩ := of_bind h
  obtain ⟨-, hAhead⟩ := tlsReadHandshake_ahead hCh ahead (readMessage_eq_some h₁)
  obtain ⟨clientRandom, _, h₂, h⟩ := of_bind h
  obtain ⟨-, rfl⟩ := ofOption_eq_some.mp h₂
  obtain ⟨_, _, h₃, h⟩ := of_bind h
  obtain rfl := of_modify h₃
  obtain ⟨_, ⟨_, _⟩, h₄, h⟩ := of_bind h
  have hSent : Ahead False (cke ++ []) tail (sendServerFlight v s₁.conn) s₁.inp := by
    rw [sendServerFlight_eq]
    exact ⟨hAhead.off, hAhead.rx, hAhead.clear⟩
  obtain ⟨-, hAhead⟩ := tlsReadHandshake_ahead hCke hSent (readMessage_eq_some h₄)
  obtain ⟨enc, _, h₅, h⟩ := of_bind h
  obtain ⟨-, rfl⟩ := ofOption_eq_some.mp h₅
  obtain ⟨eb, _, h₆, h⟩ := of_bind h
  obtain ⟨-, rfl⟩ := ofOption_eq_some.mp h₆
  obtain ⟨premaster, _, h₇, h⟩ := of_bind h
  obtain ⟨-, rfl⟩ := ofOption_eq_some.mp h₇
  obtain rfl := of_modify h
  exact ⟨hAhead.off, hAhead.rx, hAhead.clear⟩

/-- The early read stops before the ChangeCipherSpec, or the cipher is on. -/
lemma Waits.early {cap : Nat} (waits : Waits post s) (h : tryMessage want cap feed s = some (r, s')) :
    (r = none ∧ Waits post s') ∨ On s'.conn.keys s'.conn := by
  unfold tryMessage at h
  split at h
  · rename_i hRead
    split at h
    · cases h
      rcases waits.read hRead with ⟨hNone, -⟩ | hOn
      · cases hNone
      · exact .inr hOn.same
    · cases h
  · rename_i hRead
    cases h
    rcases waits.read hRead with ⟨-, -, hWaits⟩ | hOn
    · exact .inl ⟨rfl, hWaits⟩
    · exact .inr hOn.same

lemma acceptFinish_on {hpre svd : List UInt8} (start : (r = none ∧ Waits post s) ∨ On s.conn.keys s.conn)
    (h : acceptFinish v hpre r s = some (svd, s')) : On s'.conn.keys s'.conn := by
  obtain ⟨_, _, h₁, h⟩ := of_bind h
  obtain rfl := of_modify h₁
  have h := of_get_bind h
  obtain ⟨_, _, h₂, h⟩ := of_bind h
  obtain rfl := of_modify h₂
  obtain ⟨cfin, s₃, h₃, h⟩ := of_bind h
  obtain ⟨_, _, h₄, h⟩ := of_bind h
  obtain ⟨-, rfl⟩ := require_eq_some.mp h₄
  obtain ⟨_, _, h₅, h⟩ := of_bind h
  obtain ⟨-, rfl⟩ := require_eq_some.mp h₅
  obtain ⟨-, rfl⟩ := of_pure h
  rcases start with ⟨rfl, major, minor, payload, hAhead⟩ | hOn
  · have hWaits : Waits post ⟨sentFinished v (serverFinished none hpre s.conn) s.conn, s.inp⟩ :=
      ⟨major, minor, payload, hAhead.off, hAhead.rx, hAhead.clear⟩
    exact (hWaits.message h₃).same
  · have hSent : On s.conn.keys (sentFinished v (serverFinished r hpre s.conn) s.conn) :=
      ⟨hOn.encRecv, hOn.rx, rfl⟩
    cases r with
    | some body =>
      obtain ⟨-, rfl⟩ := of_pure h₃
      exact hSent
    | none => exact ((on_kept _).read hSent (readMessage_eq_some h₃)).same

lemma tlsServerHandshake_on {svd : List UInt8}
    (opens : Opens False [hsClientHello, hsClientKeyExchange] msgs post (deframe arrivals))
    (h : tlsServerHandshake C v (startServer arrivals) = some (svd, s)) : On s.conn.keys s.conn := by
  obtain ⟨hMsgs, clear, major, minor, payload, hInp, hClear, hFlight⟩ := opens
  obtain ⟨ch, cke, rfl⟩ : ∃ ch cke, msgs = [ch, cke] := length_eq_two.mp hMsgs.length_eq.symm
  obtain ⟨hCh, hCke, -⟩ : IsMessage _ ch ∧ IsMessage _ cke ∧ True := by simpa using hMsgs
  rw [startServer, hInp] at h
  obtain ⟨_, s₁, h₁, h⟩ := of_bind h
  have hAhead := acceptKeys_ahead hCh hCke (hFlight ▸ ahead_of_clear hClear) h₁
  have h := of_get_bind h
  obtain ⟨early, s₂, h₂, h⟩ := of_bind h
  exact acceptFinish_on (Waits.early ⟨major, minor, payload, hAhead⟩ h₂) h

/-- The handshake readers take application data at any time, and no ChangeCipherSpec is asked for.
If the messages up to the keys come in the clear, then the ChangeCipherSpec and no application data
before it, all bytes handed out came in application data with a right MAC under these keys. -/
theorem received_authentic (C : Crypto) (role : Role) (arrivals : List Arrival) (calls : List Call)
    (opens : ∃ msgs post, Opens False role.flight msgs post (deframe arrivals)) :
    ∀ s, handshake C role arrivals = some s → ∀ o ∈ (runCalls calls s).1, AuthenticData s.conn.keys o := by
  obtain ⟨msgs, post, hOpens⟩ := opens
  intro s h
  cases role with
  | client e =>
    obtain ⟨⟨u, s⟩, hRun, rfl⟩ := map_eq_some_iff.mp h
    exact runCalls_on (tlsConnect_on hOpens hRun)
  | server v =>
    obtain ⟨⟨svd, s⟩, hRun, rfl⟩ := map_eq_some_iff.mp h
    exact runCalls_on (tlsServerHandshake_on hOpens hRun)

/-- A record is opened and its data put in the buffer. -/
lemma tlsReadAppdata_record {payload data : List UInt8} (hOn : t.encRecv = true)
    (opens : openSealed t rtApplicationData 3 3 payload = some data) (hRx : t.rx = [])
    (fits : data.length ≤ tlsAppbuf) : tlsReadAppdata (.record rtApplicationData 3 3 payload) t =
      { t with sseq := t.sseq + 1, rx := note rtApplicationData (some t.keys) data } := by
  have hLength : (note rtApplicationData (some t.keys) data).length ≤ tlsAppbuf := by
    rw [← values_length, values_note]
    exact fits
  have hRead : tlsReadRecord t (.record rtApplicationData 3 3 payload) =
      some (rtApplicationData, note rtApplicationData (some t.keys) data, { t with sseq := t.sseq + 1 }) := by
    rw [tlsReadRecord, recordData, if_pos ⟨hOn, by decide⟩, opens]
    rfl
  simp only [tlsReadAppdata, hRead]
  rw [if_neg (by decide), if_pos trivial]
  simp [hRx, length_nil, take_of_length_le hLength, nil_append]

/-- A call on the record hands out the first bytes of its data. -/
lemma tlsRecv_record {data : List UInt8} (hOn : t.encRecv = true) (hRx : t.rx = []) (hOpen : t.peerClosed = false)
    (opens : openSealed t rtApplicationData 3 3 payload = some data) (fits : data.length ≤ tlsAppbuf) (cap : Nat) :
    values (tlsRecv cap ⟨t, [.record rtApplicationData 3 3 payload]⟩).1 = data.take cap := by
  have hLoop : recvLoop [.record rtApplicationData 3 3 payload] t =
      (tlsReadAppdata (.record rtApplicationData 3 3 payload) t, []) := by
    simp [recvLoop, hRx, hOpen]
  rw [tlsRecv, hLoop, tlsReadAppdata_record hOn opens hRx fits]
  simp only [values, map_take]
  rw [← values, values_note]

variable {e : ClientEnv} {enc svd iv data : List UInt8}

/-- The server's first record of data. -/
def greeting (e : ClientEnv) (v : ServerEnv) (iv data : List UInt8) : List UInt8 :=
  iv ++ Aes.aes128CbcEncrypt (agreedKeys e v).rkS iv (innerData (agreedKeys e v).sMac 1 rtApplicationData data)

def serverStream (e : ClientEnv) (v : ServerEnv) (svd iv data : List UInt8) : List Arrival :=
  onWire (serverRecords v ++ serverFinish e v svd ++ [(rtApplicationData, greeting e v iv data)])

lemma greeting_fits (hIv : iv.length = 16) (hData : data.length ≤ 4000) :
    ∀ r ∈ [(rtApplicationData, greeting e v iv data)], r.2.length ≤ tlsMaxRecord := by
  have hMax : tlsMaxRecord = 20000 := rfl
  refine forall_mem_singleton.mpr ?_
  rw [greeting, length_append, Aes.cbcEncrypt_length, innerData_length, hIv]
  omega

/-- The client hands out what the server of this code base sends it after the handshake. -/
lemma greeting_received (transport : KeyTransport C e v enc) (hSvd : svd.length = 12) (hIv : iv.length = 16)
    (hData : data.length ≤ 4000) : ∃ s, handshake C (.client e) (serverStream e v svd iv data) = some s ∧
      values (runCalls [.recv data.length] s).1 = data := by
  have hFit := @greeting_fits v e iv data hIv hData
  obtain ⟨t₀, t, hRun, hShares, hQuiet, -, -, r⟩ := tlsConnect_server transport hSvd hFit
  refine ⟨_, congrArg (Option.map Prod.snd) hRun, ?_⟩
  obtain ⟨extra, hReread, hExtra⟩ := reread_spec (agreedKeys e v).sMac 1 rtApplicationData data
  have hOpen := @openSealed_sent iv rtApplicationData data { keys := agreedKeys e v, sseq := 1 } hIv
  have hKeys : t.keys = agreedKeys e v := r.keys.trans hShares.keys
  have hServer : t.server = false := r.server.trans hQuiet.server
  have hSame : openSealed t rtApplicationData 3 3 (greeting e v iv data) = some (data ++ extra) := by
    rw [← hReread]
    refine Eq.trans ?_ hOpen
    rw [openSealed, openSealed, hServer, hKeys, r.sseq]
    rfl
  have hBuffer : tlsAppbuf = 4096 := rfl
  rw [runCalls, runCalls, append_nil]
  refine (tlsRecv_record r.encRecv (r.rx.trans hQuiet.rx) (r.peerClosed.trans hQuiet.peerClosed) hSame ?_ _).trans
    take_left
  rw [length_append]
  omega

theorem greeting_authentic : ∃ s, handshake plainCrypto (.client zeroClient) (serverStream zeroClient zeroServer
      (sentVerifyData zeroClient zeroServer zeroEnc 2) (replicate 16 0) [0x68, 0x69]) = some s ∧
    values (runCalls [.recv 2] s).1 = [0x68, 0x69] ∧ ∀ o ∈ (runCalls [.recv 2] s).1, AuthenticData s.conn.keys o := by
  have hSvd := @sentVerifyData_length zeroClient zeroServer zeroEnc 2
  obtain ⟨s, hRun, hValues⟩ := @greeting_received _ _ _ _ _ (replicate 16 0) [0x68, 0x69] zeroEnc_transport hSvd rfl
    (by decide)
  exact ⟨s, hRun, hValues, received_authentic _ (.client zeroClient) _ _
    ⟨_, _, server_opens hSvd (greeting_fits rfl (by decide))⟩ s hRun⟩

/-- A first flight with application data before its end, and a Finished in the clear. -/
def injectedBytes : List Arrival :=
  onWire [(rtHandshake, serverHello zeroServer), (rtHandshake, certificate zeroServer),
    (rtApplicationData, [0x68, 0x69]), (rtHandshake, serverHelloDone),
    (rtHandshake, handshakeMsg hsFinished (replicate 12 0))]

/-- The client hands out the bytes of that record. -/
lemma injectedBytes_received : (handshake plainCrypto (.client zeroClient) injectedBytes).map
      (fun s => (runCalls [.recv 16] s).1.map fun o => (o.val, o.source.checked)) =
        some [(0x68, none), (0x69, none)] := by
  decide +kernel

theorem injected_not_authentic : ∃ s, handshake plainCrypto (.client zeroClient) injectedBytes = some s ∧
      ¬ ∀ o ∈ (runCalls [.recv 16] s).1, AuthenticData s.conn.keys o := by
  obtain ⟨s, hRun, hOut⟩ := map_eq_some_iff.mp injectedBytes_received
  refine ⟨s, hRun, fun hAll => ?_⟩
  have hMem : (0x68, none) ∈ (runCalls [.recv 16] s).1.map fun o => (o.val, o.source.checked) := by
    rw [hOut]
    exact mem_cons_self
  obtain ⟨o, ho, hEq⟩ := mem_map.mp hMem
  have hChecked := (congrArg Prod.snd hEq).symm.trans (hAll o ho).checked
  cases hChecked

end YartOS.Tls
