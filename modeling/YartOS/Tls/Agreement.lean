import YartOS.Tls.Delivery
import YartOS.Tls.Padding

/-! The client and the server of this code base with each other. -/
namespace YartOS.Tls

open Programs List

/-! What each side reads out of the other's messages. -/

lemma serverHelloRandom_body (v : ServerEnv) : serverHelloRandom (serverHelloBody v) = some v.random := by
  have hRandom := v.random_length
  have hLength : (serverHelloBody v).length = 45 := by simp [serverHelloBody, hRandom]
  have hSession : number (serverHelloBody v) 34 1 = 0 := by
    rw [number, serverHelloBody, drop_left' (by simp [hRandom])]
    rfl
  have hCipher : ((serverHelloBody v).drop 35).take 2 = [0, cipherRsaAes128Sha256] := by
    rw [serverHelloBody, ← drop_drop (i := 1) (j := 34), drop_left' (by simp [hRandom])]
    rfl
  rw [serverHelloRandom]
  simp only [hSession, Nat.add_zero, hCipher, hLength]
  rw [if_pos (by decide), serverHelloBody, append_assoc, drop_left' (by rfl), take_left' hRandom]

lemma clientHelloRandom_body (e : ClientEnv) : clientHelloRandom (clientHelloBody e) = some e.random := by
  have hRandom := e.random_length
  have hLength : (clientHelloBody e).length = 57 := by simp [clientHelloBody, hRandom]
  have hDrop : ∀ n, (clientHelloBody e).drop (34 + n) = ([0, 0, 2, 0, cipherRsaAes128Sha256, 1, 0,
      0, 14, 0, 13, 0, 10, 0, 8, 4, 1, 5, 1, 6, 1, 2, 1] : List UInt8).drop n := by
    intro n
    rw [clientHelloBody, ← drop_drop, drop_left' (by simp [hRandom])]
  have hSession : number (clientHelloBody e) 34 1 = 0 := by
    rw [number, hDrop 0]
    rfl
  have hList : number (clientHelloBody e) 35 2 = 2 := by
    rw [number, hDrop 1]
    rfl
  have hOffers : offersCipher (clientHelloBody e) = true := by
    rw [offersCipher]
    simp only [hSession, Nat.add_zero, hList, hLength, any_eq_true]
    exact ⟨0, by decide, by rw [hDrop 3]; rfl⟩
  rw [clientHelloRandom]
  simp only [hSession, Nat.add_zero, hOffers, hLength]
  rw [if_pos (by decide), clientHelloBody, append_assoc, drop_left' (by rfl), take_left' hRandom]

lemma firstCertificate_body (v : ServerEnv) : firstCertificate (certificateBody v) = some v.cert := by
  have hCert := v.cert_length
  have hPos : 0 < v.cert.length := length_pos_of_ne_nil v.cert_ne
  have hLength : (certificateBody v).length = 6 + v.cert.length := by
    simp only [certificateBody, length_append, bigEndian_length]
    omega
  have hList : number (certificateBody v) 0 3 = 3 + v.cert.length := @number_bigEndian_three [] _ _ _ (by omega) rfl
  have hDer : number (certificateBody v) 3 3 = v.cert.length := number_bigEndian_three (by omega) (bigEndian_length _ _)
  rw [firstCertificate]
  simp only [hList, hDer, hLength]
  rw [if_pos (by omega), certificateBody, ← append_assoc, drop_left' (by simp), take_length]

lemma encryptedPremaster_body {v : ServerEnv} {enc : List UInt8} (h : enc.length = v.nlen) :
    encryptedPremaster v (bigEndian 2 enc.length ++ enc) = some enc := by
  have hGe := v.nlen_ge
  have hLe := v.nlen_le
  have hNumber : number (bigEndian 2 enc.length ++ enc) 0 2 = enc.length := by
    have hNumber := @number_bigEndian_two [] enc enc.length 0 (by omega) rfl
    exact hNumber
  rw [encryptedPremaster]
  simp only [hNumber, length_append, bigEndian_length]
  rw [if_pos (by omega), drop_left' (bigEndian_length _ _), ← h, take_length]

/-! The exchange. -/

def onWire (records : List (UInt8 × List UInt8)) : List Arrival := records.flatMap fun r => (wire r.1 r.2).map .byte

/-- The first `k` records arrive before a deadline passes, the others after it. -/
def arriving (k : Nat) (records : List (UInt8 × List UInt8)) : List Arrival :=
  onWire (records.take k) ++ .deadline :: onWire (records.drop k)

def asFrame (r : UInt8 × List UInt8) : Frame := .record r.1 3 3 r.2

def serverRecords (v : ServerEnv) : List (UInt8 × List UInt8) :=
  [(rtHandshake, serverHello v), (rtHandshake, certificate v), (rtHandshake, serverHelloDone)]

/-- What the client encrypts to `enc`, the server decrypts. -/
structure KeyTransport (C : Crypto) (e : ClientEnv) (v : ServerEnv) (enc : List UInt8) : Prop where
  key : ∃ modulus exponent, C.rsaKey v.cert = some (modulus, exponent) ∧ modulus.length = v.nlen ∧
    C.rsaPublic (encryptionBlock e v.nlen) exponent modulus = some enc
  length : enc.length = v.nlen
  decrypts : C.rsaPrivateCrt enc = some (encryptionBlock e v.nlen)

variable (C : Crypto) (e : ClientEnv) (v : ServerEnv) (enc : List UInt8)

def transcript : Sha256Ctx :=
  [clientHello e, serverHello v, certificate v, serverHelloDone, clientKeyExchange enc].foldl
    sha256Update sha256Init

def agreedMaster : List UInt8 := masterSecret e.premaster e.random v.random

def agreedKeys : Keys := keyBlock (agreedMaster e v) e.random v.random

def finishedMsg : List UInt8 :=
  handshakeMsg hsFinished (clientVerifyData (agreedMaster e v) (sha256Final (transcript e v enc)))

def sealedFinished : List UInt8 :=
  e.iv ++ Aes.aes128CbcEncrypt (agreedKeys e v).rkC e.iv
    (innerData (agreedKeys e v).cMac 0 rtHandshake (finishedMsg e v enc))

def clientFinish : List (UInt8 × List UInt8) := [(rtChangeCipherSpec, [1]), (rtHandshake, sealedFinished e v enc)]

def clientRecords : List (UInt8 × List UInt8) :=
  (rtHandshake, clientHello e) :: (rtHandshake, clientKeyExchange enc) :: clientFinish e v enc

def Sent (t : Conn) (records : List (UInt8 × List UInt8)) : Prop := t.out = records.map fun r => wire r.1 r.2

/-- Both sides have the same secrets and transcript. -/
structure Shares (e : ClientEnv) (v : ServerEnv) (enc : List UInt8) (t : Conn) : Prop where
  hs : t.hs = transcript e v enc
  master : t.master = agreedMaster e v
  keys : t.keys = agreedKeys e v

/-- Nothing waits to be read, and no close was seen. -/
structure Quiet (server : Bool) (t : Conn) : Prop where
  server : t.server = server
  hsbuf : t.hsbuf = []
  rx : t.rx = []
  peerClosed : t.peerClosed = false

lemma Quiet.received {server feed : Bool} {msg : List UInt8} {t t' : Conn} (h : Quiet server t)
    (r : Received feed msg t t') (hEmpty : t'.hsbuf = []) : Quiet server t' :=
  ⟨r.server.trans h.server, hEmpty, r.rx.trans h.rx, r.peerClosed.trans h.peerClosed⟩

section Exchange

variable {C : Crypto} {e : ClientEnv} {v : ServerEnv} {enc : List UInt8}

lemma certificateBody_length (v : ServerEnv) : (certificateBody v).length = 6 + v.cert.length := by
  simp only [certificateBody, length_append, bigEndian_length]
  omega

lemma serverHelloBody_length (v : ServerEnv) : (serverHelloBody v).length = 45 := by
  simp [serverHelloBody, v.random_length]

lemma clientHelloBody_length (e : ClientEnv) : (clientHelloBody e).length = 57 := by
  simp [clientHelloBody, e.random_length]

/-- Records that fit are read as they were sent. -/
lemma deframe_onWire {records : List (UInt8 × List UInt8)} {rest : List Arrival}
    (fit : ∀ r ∈ records, r.2.length ≤ tlsMaxRecord) :
    deframe (onWire records ++ rest) = records.map asFrame ++ deframe rest := by
  induction records with
  | nil => rfl
  | cons r records ih =>
    rw [onWire, flatMap_cons, append_assoc, deframe_wire (fit r mem_cons_self)]
    exact congrArg _ (ih fun r hr => fit r (mem_cons_of_mem _ hr))

lemma deframe_records {records : List (UInt8 × List UInt8)} (fit : ∀ r ∈ records, r.2.length ≤ tlsMaxRecord) :
    deframe (onWire records) = records.map asFrame := by
  have hFrames := @deframe_onWire records [] fit
  rwa [append_nil, show deframe [] = [] from rfl, append_nil] at hFrames

lemma deframe_arriving {records : List (UInt8 × List UInt8)} {k : Nat}
    (fit : ∀ r ∈ records, r.2.length ≤ tlsMaxRecord) : deframe (arriving k records) =
      (records.take k).map asFrame ++ .late :: (records.drop k).map asFrame := by
  have hRest : deframe (onWire (records.drop k)) = _ := deframe_records fun r hr => fit r (mem_of_mem_drop hr)
  rw [arriving, deframe_onWire fun r hr => fit r (mem_of_mem_take hr), deframe_deadline, hRest]

lemma serverRecords_fit (v : ServerEnv) : ∀ r ∈ serverRecords v, r.2.length ≤ tlsMaxRecord := by
  have hCert := v.cert_length
  have hMax : tlsMaxRecord = 20000 := rfl
  simp only [serverRecords, serverHello, certificate, serverHelloDone, forall_mem_cons,
    handshakeMsg_length, serverHelloBody_length, certificateBody_length]
  exact ⟨by omega, by omega, by decide, nofun⟩

/-- The client gets through the server's first flight. -/
lemma connectHello_server {modulus exponent : List UInt8}
    (hKey : C.rsaKey v.cert = some (modulus, exponent)) (inp : List Frame) :
    ∃ t, connectHello C e ⟨{}, (serverRecords v).map asFrame ++ inp⟩ = some ((v.random, modulus, exponent), ⟨t, inp⟩) ∧
      t.hs = [clientHello e, serverHello v, certificate v, serverHelloDone].foldl sha256Update
        sha256Init ∧ Quiet false t ∧ Sent t [(rtHandshake, clientHello e)] := by
  have hCert := v.cert_length
  have hHello := serverHelloBody_length v
  have hBody := certificateBody_length v
  obtain ⟨sh, t₁, h₁, hv₁, r₁, e₁⟩ := @readMessage_plain hsServerHello 512 true
    (serverHelloBody v) (.record rtHandshake 3 3 (certificate v) :: .record rtHandshake 3 3 serverHelloDone :: inp)
    (tlsSendRecord rtHandshake (clientHello e) (feedHash (clientHello e) {})) rfl rfl
    (by omega) (by omega)
  obtain ⟨certmsg, t₂, h₂, hv₂, r₂, e₂⟩ := @readMessage_plain hsCertificate 20000 true
    (certificateBody v) (.record rtHandshake 3 3 serverHelloDone :: inp) t₁ e₁ r₁.encRecv
    (by omega) (by omega)
  obtain ⟨done, t₃, h₃, hv₃, r₃, e₃⟩ := @readMessage_plain hsServerHelloDone 8 true [] inp t₂ e₂
    (r₂.encRecv.trans r₁.encRecv) (by decide) (by decide)
  refine ⟨t₃, ?_, ?_, ?_, ?_⟩
  · refine bind_of rfl ?_
    refine bind_of rfl ?_
    refine bind_of h₁ ?_
    refine ofOption_bind (a := v.random) ?_ ?_
    · rw [hv₁, serverHelloRandom_body]
    refine bind_of h₂ ?_
    refine ofOption_bind (a := v.cert) ?_ ?_
    · rw [hv₂, firstCertificate_body]
    refine ofOption_bind hKey ?_
    exact bind_of h₃ rfl
  · simp only [r₃.hs, r₂.hs, r₁.hs, if_true, foldl_cons, foldl_nil]
    rfl
  · have hQuiet₁ : Quiet false t₁ := .received ⟨rfl, rfl, rfl, rfl⟩ r₁ e₁
    exact (hQuiet₁.received r₂ e₂).received r₃ e₃
  · rw [Sent, r₃.out, r₂.out, r₁.out]
    rfl

/-- The client sends its four records, and has the agreed secrets. -/
lemma connectFlight_server (transport : KeyTransport C e v enc) (inp : List Frame) :
    ∃ t, connectFlight C e ⟨{}, (serverRecords v).map asFrame ++ inp⟩ = some (⟨⟩, ⟨t, inp⟩) ∧
      Shares e v enc t ∧ Sent t (clientRecords e v enc) ∧ Quiet false t ∧
      t.encSend = true ∧ t.cseq = 1 := by
  obtain ⟨modulus, exponent, hKey, hModulus, hPublic⟩ := transport.key
  obtain ⟨t, hRun, hHs, hQuiet, hOut⟩ := @connectHello_server C e v modulus exponent hKey inp
  have hGe := v.nlen_ge
  have hTranscript : (sendClientFlight e v.random enc t).hs = transcript e v enc := by
    change sha256Update t.hs (clientKeyExchange enc) = _
    rw [hHs]
    rfl
  refine ⟨sendClientFlight e v.random enc t, ?_, ⟨hTranscript, rfl, rfl⟩, ?_,
    ⟨hQuiet.server, hQuiet.hsbuf, hQuiet.rx, hQuiet.peerClosed⟩, rfl, rfl⟩
  · refine bind_of hRun ?_
    refine require_bind (by omega) ?_
    refine ofOption_bind (a := enc) ?_ ?_
    · rw [hModulus]
      exact hPublic
    · rfl
  have hWhole : transcript e v enc = sha256Update t.hs (clientKeyExchange enc) := by
    rw [hHs]
    rfl
  simp only [Sent, sendClientFlight, sendClientFinished, tlsSendEncrypted,
    sendChangeCipherSpec, deriveKeys, tlsSendRecord, feedHash, hQuiet.server,
    show t.out = _ from hOut, ← hWhole]
  rfl

lemma sendServerFlight_eq (v : ServerEnv) (t : Conn) : sendServerFlight v t = { t with
      hs := sha256Update (sha256Update (sha256Update t.hs (serverHello v)) (certificate v))
        serverHelloDone
      out := t.out ++ (serverRecords v).map fun r => wire r.1 r.2 } := by
  simp [sendServerFlight, tlsSendRecord, feedHash, serverRecords]

/-- The server reads the client's first two records and has the agreed secrets. -/
lemma acceptKeys_client (transport : KeyTransport C e v enc) (inp : List Frame) :
    ∃ t, acceptKeys C v ⟨{ server := true }, .record rtHandshake 3 3 (clientHello e) ::
          .record rtHandshake 3 3 (clientKeyExchange enc) :: inp⟩ = some (⟨⟩, ⟨t, inp⟩) ∧
      Shares e v enc t ∧ Quiet true t ∧ Sent t (serverRecords v) := by
  have hHello := clientHelloBody_length e
  have hLe := v.nlen_le
  have hExchange : (bigEndian 2 enc.length ++ enc).length = 2 + v.nlen := by
    rw [length_append, bigEndian_length, transport.length]
  obtain ⟨ch, t₁, h₁, hv₁, r₁, e₁⟩ := @readMessage_plain hsClientHello 4096 true
    (clientHelloBody e) (.record rtHandshake 3 3 (clientKeyExchange enc) :: inp)
    { server := true } rfl rfl (by omega) (by omega)
  obtain ⟨cke, t₂, h₂, hv₂, r₂, e₂⟩ := @readMessage_plain hsClientKeyExchange 512 true
    (bigEndian 2 enc.length ++ enc) inp (sendServerFlight v t₁)
    (by rw [sendServerFlight_eq]; exact e₁) (by rw [sendServerFlight_eq]; exact r₁.encRecv)
    (by omega) (by omega)
  have hTranscript : t₂.hs = transcript e v enc := by
    simp only [r₂.hs, sendServerFlight_eq, r₁.hs, if_true]
    rfl
  refine ⟨deriveKeys e.premaster e.random v.random t₂, ?_, ⟨hTranscript, rfl, rfl⟩, ?_, ?_⟩
  · refine bind_of h₁ ?_
    refine ofOption_bind (a := e.random) ?_ ?_
    · rw [hv₁, clientHelloRandom_body]
    refine bind_of rfl ?_
    refine bind_of h₂ ?_
    refine ofOption_bind (a := enc) ?_ ?_
    · rw [hv₂, encryptedPremaster_body transport.length]
    refine ofOption_bind transport.decrypts ?_
    refine ofOption_bind (unpad_encryptionBlock e v.stack (Nat.le_trans (by decide) v.nlen_ge)) ?_
    rfl
  · have hQuiet₁ : Quiet true t₁ := .received ⟨rfl, rfl, rfl, rfl⟩ r₁ e₁
    have hFlight : Quiet true (sendServerFlight v t₁) := by
      rw [sendServerFlight_eq]
      exact ⟨hQuiet₁.server, e₁, hQuiet₁.rx, hQuiet₁.peerClosed⟩
    have hQuiet₂ := hFlight.received r₂ e₂
    exact ⟨hQuiet₂.server, e₂, hQuiet₂.rx, hQuiet₂.peerClosed⟩
  · simp [Sent, deriveKeys, r₂.out, sendServerFlight_eq, r₁.out, nil_append]

@[simp] lemma prfBlocks_length (secret buf a : List UInt8) (n : Nat) : (prfBlocks secret buf n a).length = 32 * n := by
  induction n generalizing a with
  | zero => rfl
  | succ n ih =>
    rw [prfBlocks, length_append, hmacSha256_length, ih]
    omega

lemma tlsPrf_length (secret seed : List UInt8) (label : String) (outlen : Nat) :
    (tlsPrf secret label seed outlen).length = outlen := by
  rw [tlsPrf, length_take, prfBlocks_length]
  omega

lemma sealedFinished_length : (sealedFinished e v enc).length = 80 := by
  rw [sealedFinished, length_append, Aes.cbcEncrypt_length, innerData_length, finishedMsg,
    handshakeMsg_length, clientVerifyData, tlsPrf_length, e.iv_length]

/-- The server reads the client's Finished once the ChangeCipherSpec has come. -/
lemma tlsReadHandshake_finished {t : Conn} {inp : List Frame} {feed : Bool}
    (shares : Shares e v enc t) (hServer : t.server = true) (hOn : t.encRecv = true)
    (hSeq : t.sseq = 0) (hEmpty : t.hsbuf = []) : ∃ octets t', tlsReadHandshake hsFinished feed
        (.record rtHandshake 3 3 (sealedFinished e v enc) :: inp) t = (some octets, t', inp) ∧
      values octets = clientVerifyData (agreedMaster e v) (sha256Final (transcript e v enc)) ∧
      Received feed (finishedMsg e v enc) t t' := by
  have hRk : (agreedKeys e v).rkC = t.readRk := by rw [Conn.readRk, if_pos hServer, shares.keys]
  have hMac : (agreedKeys e v).cMac = t.readMac := by rw [Conn.readMac, if_pos hServer, shares.keys]
  rw [sealedFinished, hRk, hMac, ← hSeq]
  refine tlsReadHandshake_sealed e.iv_length hOn hEmpty ?_
  rw [clientVerifyData, tlsPrf_length]
  decide

lemma clientRecords_fit (transport : KeyTransport C e v enc) :
    ∀ r ∈ clientRecords e v enc, r.2.length ≤ tlsMaxRecord := by
  have hMax : tlsMaxRecord = 20000 := rfl
  have hLe := v.nlen_le
  simp only [clientRecords, clientFinish, clientHello, clientKeyExchange, forall_mem_cons,
    handshakeMsg_length, clientHelloBody_length, length_append, bigEndian_length,
    transport.length, sealedFinished_length]
  exact ⟨by omega, by omega, by decide, by omega, nofun⟩

def sentFinished (v : ServerEnv) (svd : List UInt8) (t : Conn) : Conn :=
  tlsSendEncrypted v.iv rtHandshake (handshakeMsg hsFinished svd) (sendChangeCipherSpec t)

/-- The server accepts once it has the client's verify data. -/
lemma acceptFinish_run {hpre : List UInt8} {early : Option (List Octet)} {t t' : Conn}
    {inp inp' : List Frame} {cfin : List Octet}
    (hRead : clientFinished early ⟨sentFinished v (serverFinished early hpre t) t, inp⟩ =
      some (cfin, ⟨t', inp'⟩)) (hValues : values cfin = clientVerifyData t.master hpre) :
    acceptFinish v hpre early ⟨t, inp⟩ = some (serverFinished early hpre t, ⟨t', inp'⟩) := by
  have hLength : (values cfin).length = 12 := by rw [hValues, clientVerifyData, tlsPrf_length]
  refine bind_of rfl ?_
  rw [get_bind_run]
  refine bind_of rfl ?_
  refine bind_of hRead ?_
  refine require_bind ?_ ?_
  · rw [← values_length, hLength]
    decide
  refine require_bind ?_ ?_
  · rw [take_left' hLength]
    exact hValues
  · rfl

/-- The server's verify data if `n` of the client's last records are early. -/
def sentVerifyData (e : ClientEnv) (v : ServerEnv) (enc : List UInt8) (n : Nat) : List UInt8 :=
  serverVerifyData (agreedMaster e v) (sha256Final (if n < 2 then transcript e v enc
     else sha256Update (transcript e v enc) (finishedMsg e v enc)))

lemma sentVerifyData_length (n : Nat) : (sentVerifyData e v enc n).length = 12 := by
  rw [sentVerifyData, serverVerifyData, tlsPrf_length]

def serverFinish (e : ClientEnv) (v : ServerEnv) (svd : List UInt8) : List (UInt8 × List UInt8) :=
  [(rtChangeCipherSpec, [1]), (rtHandshake, v.iv ++ Aes.aes128CbcEncrypt (agreedKeys e v).rkS v.iv
    (innerData (agreedKeys e v).sMac 0 rtHandshake (handshakeMsg hsFinished svd)))]

/-- The server has keys, sent these records and has not read Finished. -/
structure Waiting (e : ClientEnv) (v : ServerEnv) (enc : List UInt8)
    (records : List (UInt8 × List UInt8)) (t : Conn) : Prop
    extends Shares e v enc t, Quiet true t where
  out : Sent t records

/-- Each side has sent and read ChangeCipherSpec and Finished. -/
structure Ready (t : Conn) : Prop where
  encSend : t.encSend = true
  cseq : t.cseq = 1
  encRecv : t.encRecv = true
  sseq : t.sseq = 1
  rx : t.rx = []
  peerClosed : t.peerClosed = false

structure Accepted (e : ClientEnv) (v : ServerEnv) (svd : List UInt8) (t : Conn) :
    Prop extends Ready t where
  server : t.server = true
  master : t.master = agreedMaster e v
  keys : t.keys = agreedKeys e v
  out : Sent t (serverRecords v ++ serverFinish e v svd)

section Waiting

variable {t t' : Conn} {records : List (UInt8 × List UInt8)} {svd : List UInt8}

lemma Waiting.turnOn (h : Waiting e v enc records t) : Waiting e v enc records t.turnOn :=
  ⟨⟨h.hs, h.master, h.keys⟩, ⟨h.server, h.hsbuf, h.rx, h.peerClosed⟩, h.out⟩

lemma sentFinished_out (hServer : t.server = true) (hKeys : t.keys = agreedKeys e v)
    (hOut : Sent t records) : Sent (sentFinished v svd t) (records ++ serverFinish e v svd) := by
  simp only [Sent, sentFinished, tlsSendEncrypted, sendChangeCipherSpec, tlsSendRecord, hServer,
    hKeys, show t.out = _ from hOut, if_true, map_append, append_assoc]
  rfl

lemma Waiting.sent (h : Waiting e v enc records t) (svd : List UInt8) :
    Waiting e v enc (records ++ serverFinish e v svd) (sentFinished v svd t) :=
  ⟨⟨h.hs, h.master, h.keys⟩, ⟨h.server, h.hsbuf, h.rx, h.peerClosed⟩, sentFinished_out h.server h.keys h.out⟩

/-- The client's Finished, read after the server has sent its own. -/
lemma readMessage_finished {inp : List Frame}
    (h : Waiting e v enc (serverRecords v ++ serverFinish e v svd) t) (hOn : t.encRecv = true)
    (hSeq : t.sseq = 0) (hSend : t.encSend = true) (hSent : t.cseq = 1) :
    ∃ octets t', readMessage hsFinished 64 false
        ⟨t, .record rtHandshake 3 3 (sealedFinished e v enc) :: inp⟩ = some (octets, ⟨t', inp⟩) ∧
      values octets = clientVerifyData (agreedMaster e v) (sha256Final (transcript e v enc)) ∧
      Accepted e v svd t' := by
  obtain ⟨octets, t', hRead, hValues, r⟩ := @tlsReadHandshake_finished e v enc t
    inp false h.toShares h.server hOn hSeq h.hsbuf
  refine ⟨octets, t', readMessage_of ?_ hRead, hValues, ⟨r.encSend.trans hSend, r.cseq.trans hSent,
    r.encRecv.trans hOn, r.sseq.trans (congrArg (· + 1) hSeq), r.rx.trans h.rx,
    r.peerClosed.trans h.peerClosed⟩, r.server.trans h.server, r.master.trans h.master,
    r.keys.trans h.keys, r.out.trans h.out⟩
  rw [← values_length, hValues, clientVerifyData, tlsPrf_length]
  decide

end Waiting

section

variable {want : UInt8} {cap : Nat} {feed : Bool} {inp : List Frame} {t : Conn}

lemma readMessage_ccs (hEmpty : t.hsbuf = []) :
    readMessage want cap feed ⟨t, .record rtChangeCipherSpec 3 3 [1] :: inp⟩ =
      readMessage want cap feed ⟨t.turnOn, inp⟩ := by
  rw [readMessage, readMessage, tlsReadHandshake_ccs hEmpty]

lemma tryMessage_ccs (hEmpty : t.hsbuf = []) :
    tryMessage want cap feed ⟨t, .record rtChangeCipherSpec 3 3 [1] :: inp⟩ =
      tryMessage want cap feed ⟨t.turnOn, inp⟩ := by
  rw [tryMessage, tryMessage, tlsReadHandshake_ccs hEmpty]

lemma tryMessage_late (hEmpty : t.hsbuf = []) :
    tryMessage want cap feed ⟨t, .late :: inp⟩ = some (none, ⟨t, inp⟩) := by
  rw [tryMessage, tlsReadHandshake_late hEmpty]

end

variable {t : Conn}

/-- The server accepts a Finished after its own. -/
lemma acceptFinish_late {inp : List Frame} (h : Waiting e v enc (serverRecords v) t) {n : Nat}
    (hn : n < 2) (hInp : inp = (clientFinish e v enc).map asFrame ∨
      t.encRecv = true ∧ t.sseq = 0 ∧ inp = [asFrame (rtHandshake, sealedFinished e v enc)]) :
    ∃ s, acceptFinish v (sha256Final (transcript e v enc)) none ⟨t, inp⟩ =
      some (sentVerifyData e v enc n, s) ∧ Accepted e v (sentVerifyData e v enc n) s.conn := by
  have hSvd : serverFinished none (sha256Final (transcript e v enc)) t = sentVerifyData e v enc n := by
    rw [serverFinished, h.master, sentVerifyData, if_pos hn]
  have hSent := h.sent (sentVerifyData e v enc n)
  have hRead : ∃ octets t', readMessage hsFinished 64 false
      ⟨sentFinished v (sentVerifyData e v enc n) t, inp⟩ = some (octets, ⟨t', []⟩) ∧
      values octets = clientVerifyData (agreedMaster e v) (sha256Final (transcript e v enc)) ∧
      Accepted e v (sentVerifyData e v enc n) t' := by
    rcases hInp with rfl | ⟨hOn, hSeq, rfl⟩
    · obtain ⟨octets, t', hRead, hRest⟩ := @readMessage_finished e v enc _ _ [] hSent.turnOn rfl rfl rfl rfl
      exact ⟨octets, t', (readMessage_ccs hSent.hsbuf).trans hRead, hRest⟩
    · exact readMessage_finished hSent hOn hSeq rfl rfl
  obtain ⟨octets, t', hRead, hValues, hAccepted⟩ := hRead
  refine ⟨⟨t', []⟩, ?_, hAccepted⟩
  rw [← hSvd] at hRead ⊢
  exact acceptFinish_run hRead (hValues.trans (by rw [h.master]))

/-- A Finished that comes early goes into the transcript of the server's own. -/
lemma acceptFinish_early {inp : List Frame} (h : Waiting e v enc (serverRecords v) t) (hOn : t.encRecv = true)
    (hSeq : t.sseq = 0) {n : Nat} (hn : ¬ n < 2) : ∃ early s₁ s₂, tryMessage hsFinished 64 true
        ⟨t, asFrame (rtHandshake, sealedFinished e v enc) :: inp⟩ = some (early, s₁) ∧
      acceptFinish v (sha256Final (transcript e v enc)) early s₁ =
        some (sentVerifyData e v enc n, s₂) ∧ Accepted e v (sentVerifyData e v enc n) s₂.conn := by
  obtain ⟨octets, t', hRead, hValues, r⟩ := @tlsReadHandshake_finished e v enc t
    inp true h.toShares h.server hOn hSeq h.hsbuf
  have hMaster : t'.master = agreedMaster e v := r.master.trans h.master
  have hSvd : serverFinished (some octets) (sha256Final (transcript e v enc)) t' = sentVerifyData e v enc n := by
    rw [serverFinished, hMaster, r.hs, if_pos rfl, h.hs, sentVerifyData, if_neg hn]
  refine ⟨some octets, ⟨t', inp⟩, ⟨sentFinished v (sentVerifyData e v enc n) t', inp⟩, ?_, ?_,
    ⟨rfl, rfl, r.encRecv.trans hOn, r.sseq.trans (congrArg (· + 1) hSeq), r.rx.trans h.rx,
      r.peerClosed.trans h.peerClosed⟩, r.server.trans h.server, hMaster, r.keys.trans h.keys, ?_⟩
  · rw [tryMessage, asFrame, hRead]
    refine if_pos ?_
    rw [← values_length, hValues, clientVerifyData, tlsPrf_length]
    decide
  · rw [← hSvd]
    exact acceptFinish_run rfl (hValues.trans (by rw [hMaster]))
  · exact sentFinished_out (r.server.trans h.server) (r.keys.trans h.keys) (r.out.trans h.out)

/-- The end of the server's handshake, for every timing. -/
lemma finish_run (h : Waiting e v enc (serverRecords v) t) (n : Nat)
    : ∃ early s₁ s₂, tryMessage hsFinished 64 true ⟨t, ((clientFinish e v enc).take n).map asFrame ++
          .late :: ((clientFinish e v enc).drop n).map asFrame⟩ = some (early, s₁) ∧
      acceptFinish v (sha256Final (transcript e v enc)) early s₁ =
        some (sentVerifyData e v enc n, s₂) ∧ Accepted e v (sentVerifyData e v enc n) s₂.conn := by
  match n with
  | 0 =>
    obtain ⟨s, hRun, hAccepted⟩ := acceptFinish_late h Nat.two_pos (.inl rfl)
    exact ⟨none, _, s, tryMessage_late h.hsbuf, hRun, hAccepted⟩
  | 1 =>
    obtain ⟨s, hRun, hAccepted⟩ := acceptFinish_late h.turnOn Nat.one_lt_two (.inr ⟨rfl, rfl, rfl⟩)
    exact ⟨none, _, s, (tryMessage_ccs h.hsbuf).trans (tryMessage_late h.turnOn.hsbuf), hRun, hAccepted⟩
  | m + 2 =>
    obtain ⟨early, s₁, s₂, hTry, hRun⟩ :=
      @acceptFinish_early e v enc _ [.late] h.turnOn rfl rfl (m + 2) (by omega)
    refine ⟨early, s₁, s₂, (Eq.trans ?_ (tryMessage_ccs h.hsbuf)).trans hTry, hRun⟩
    simp [clientFinish, asFrame]

/-- Whatever the timing, the server accepts with the agreed secrets. -/
lemma tlsServerHandshake_client (transport : KeyTransport C e v enc) (n : Nat) :
    ∃ s, tlsServerHandshake C v (startServer (arriving (n + 2) (clientRecords e v enc))) =
      some (sentVerifyData e v enc n, s) ∧ Accepted e v (sentVerifyData e v enc n) s.conn := by
  obtain ⟨t, hKeys, hShares, hQuiet, hSent⟩ := acceptKeys_client transport
    (((clientFinish e v enc).take n).map asFrame ++ .late :: ((clientFinish e v enc).drop n).map asFrame)
  obtain ⟨early, s₁, s₂, hTry, hRun, hAccepted⟩ := finish_run ⟨hShares, hQuiet, hSent⟩ n
  refine ⟨s₂, ?_, hAccepted⟩
  rw [startServer, deframe_arriving (clientRecords_fit transport)]
  refine bind_of hKeys ?_
  rw [get_bind_run, hShares.hs]
  exact bind_of hTry hRun

lemma serverFinish_fit {svd : List UInt8} (hSvd : svd.length = 12) :
    ∀ r ∈ serverFinish e v svd, r.2.length ≤ tlsMaxRecord := by
  have hMax : tlsMaxRecord = 20000 := rfl
  simp only [serverFinish, forall_mem_cons, length_append, Aes.cbcEncrypt_length,
    innerData_length, handshakeMsg_length, hSvd, v.iv_length]
  exact ⟨by decide, by omega, nofun⟩

lemma deframe_serverStream {svd : List UInt8} {more : List (UInt8 × List UInt8)} (hSvd : svd.length = 12)
    (fit : ∀ r ∈ more, r.2.length ≤ tlsMaxRecord) : deframe (onWire (serverRecords v ++ serverFinish e v svd ++ more)) =
      (serverRecords v).map asFrame ++ ((serverFinish e v svd).map asFrame ++ more.map asFrame) := by
  rw [deframe_records, map_append, map_append, append_assoc]
  simp only [mem_append]
  rintro r ((hr | hr) | hr)
  · exact serverRecords_fit v r hr
  · exact serverFinish_fit hSvd r hr
  · exact fit r hr

/-- The client reads the server's Finished, whatever verify data it has. -/
lemma connectFinish_server {svd : List UInt8} (shares : Shares e v enc t)
    (quiet : Quiet false t) (hSvd : svd.length = 12) (inp : List Frame) :
    ∃ t', connectFinish ⟨t, (serverFinish e v svd).map asFrame ++ inp⟩ = some (⟨⟩, ⟨t', inp⟩) ∧
      Received false (handshakeMsg hsFinished svd) t.turnOn t' := by
  obtain ⟨octets, t', hRead, hValues, hReceived⟩ := @tlsReadHandshake_sealed hsFinished
    false v.iv svd inp t.turnOn v.iv_length rfl quiet.hsbuf (by omega)
  have hRk : t.turnOn.readRk = (agreedKeys e v).rkS := by
    rw [Conn.readRk, if_neg (by rw [Conn.turnOn, quiet.server]; decide), ← shares.keys]
    rfl
  have hMac : t.turnOn.readMac = (agreedKeys e v).sMac := by
    rw [Conn.readMac, if_neg (by rw [Conn.turnOn, quiet.server]; decide), ← shares.keys]
    rfl
  rw [hRk, hMac, show t.turnOn.sseq = 0 from rfl] at hRead
  have hLength : octets.length = 12 := by rw [← values_length, hValues, hSvd]
  have hMessage : readMessage hsFinished 64 false ⟨t, (serverFinish e v svd).map asFrame ++ inp⟩ =
      some (octets, ⟨t', inp⟩) :=
    (readMessage_ccs quiet.hsbuf).trans (readMessage_of (by omega) hRead)
  refine ⟨t', bind_of hMessage ?_, hReceived⟩
  exact require_eq_some.mpr ⟨by omega, rfl⟩

/-- The client accepts what the server sends, whatever verify data it has. -/
lemma tlsConnect_server (transport : KeyTransport C e v enc) {svd : List UInt8} {more : List (UInt8 × List UInt8)}
    (hSvd : svd.length = 12) (fit : ∀ r ∈ more, r.2.length ≤ tlsMaxRecord) :
    ∃ t t', tlsConnect C e (startClient (onWire (serverRecords v ++ serverFinish e v svd ++ more))) =
        some (⟨⟩, ⟨t', more.map asFrame⟩) ∧
      Shares e v enc t ∧ Quiet false t ∧ t.encSend = true ∧ t.cseq = 1 ∧
      Received false (handshakeMsg hsFinished svd) t.turnOn t' := by
  obtain ⟨t, hFlight, hShares, -, hQuiet, hSend, hCseq⟩ := connectFlight_server transport
    ((serverFinish e v svd).map asFrame ++ more.map asFrame)
  obtain ⟨t', hFinish, hReceived⟩ := connectFinish_server hShares hQuiet hSvd (more.map asFrame)
  refine ⟨t, t', ?_, hShares, hQuiet, hSend, hCseq, hReceived⟩
  rw [startClient, deframe_serverStream hSvd fit]
  exact bind_of hFlight hFinish

end Exchange

/-- The client sends its records, `n` of the last two before the server's early read ends. The
server accepts, both have the same keys, and its verify data is what the client expects. -/
def Agree (C : Crypto) (e : ClientEnv) (v : ServerEnv) (enc : List UInt8) (n : Nat) : Prop :=
  ∃ c s svd, connectFlight C e (startClient (onWire (serverRecords v))) = some (⟨⟩, c) ∧
    Sent c.conn (clientRecords e v enc) ∧
    tlsServerHandshake C v (startServer (arriving (n + 2) (clientRecords e v enc))) = some (svd, s) ∧
    (serverRecords v).map (fun r => wire r.1 r.2) <+: s.conn.out ∧
    s.conn.master = c.conn.master ∧ s.conn.keys = c.conn.keys ∧ svd = expectedVerifyData c.conn

lemma agree_iff_sent {C : Crypto} {e : ClientEnv} {v : ServerEnv}
    {enc : List UInt8} (transport : KeyTransport C e v enc) (n : Nat) :
    Agree C e v enc n ↔ sentVerifyData e v enc n =
      serverVerifyData (agreedMaster e v) (sha256Final (transcript e v enc)) := by
  obtain ⟨t, hClient, hShares, hSent, -⟩ := connectFlight_server transport []
  obtain ⟨s, hServer, hAccepted⟩ := tlsServerHandshake_client transport n
  rw [append_nil, ← deframe_records (serverRecords_fit v), ← startClient] at hClient
  have hExpected : expectedVerifyData t = serverVerifyData (agreedMaster e v) (sha256Final (transcript e v enc)) := by
    rw [expectedVerifyData, hShares.master, hShares.hs]
  rw [← hExpected]
  constructor
  · rintro ⟨c', s', svd, hClient', -, hServer', -, -, -, hSvd⟩
    rw [hClient] at hClient'
    rw [hServer] at hServer'
    cases hClient'
    cases hServer'
    exact hSvd
  · intro hSvd
    refine ⟨⟨t, []⟩, s, _, hClient, hSent, hServer, ?_,
      hAccepted.master.trans hShares.master.symm, hAccepted.keys.trans hShares.keys.symm, hSvd⟩
    rw [show s.conn.out = _ from hAccepted.out, map_append]
    exact prefix_append _ _

/-- They agree iff the client's Finished misses the early read, or makes no difference to the
verify data. -/
theorem agree_iff {C : Crypto} {e : ClientEnv} {v : ServerEnv}
    {enc : List UInt8} (transport : KeyTransport C e v enc) (n : Nat) : Agree C e v enc n ↔ n < 2 ∨
      serverVerifyData (agreedMaster e v) (sha256Final (sha256Update (transcript e v enc) (finishedMsg e v enc))) =
        serverVerifyData (agreedMaster e v) (sha256Final (transcript e v enc)) := by
  rw [agree_iff_sent transport, sentVerifyData]
  by_cases hn : n < 2
  · simp [hn]
  · simp [hn]

def zeroEnc : List UInt8 := encryptionBlock zeroClient zeroServer.nlen

lemma zeroEnc_transport : KeyTransport plainCrypto zeroClient zeroServer zeroEnc where
  key := ⟨replicate 128 1, [3], rfl, rfl, rfl⟩
  length := encryptionBlock_length _ (by decide)
  decrypts := rfl

theorem agree_of_late : Agree plainCrypto zeroClient zeroServer zeroEnc 0 :=
  (agree_iff zeroEnc_transport 0).mpr (.inl Nat.two_pos)

/-- SHA-256 of the two transcripts gives different verify data. -/
lemma zeroEnc_differs : sentVerifyData zeroClient zeroServer zeroEnc 2 ≠
      serverVerifyData (agreedMaster zeroClient zeroServer)
        (sha256Final (transcript zeroClient zeroServer zeroEnc)) := by
  decide +kernel

theorem early_not_agree : ¬ Agree plainCrypto zeroClient zeroServer zeroEnc 2 :=
  fun h => zeroEnc_differs ((agree_iff_sent zeroEnc_transport 2).mp h)

end YartOS.Tls
