import YartOS.Tls.Records

/-! The two handshakes: `tls_connect` and `tls_server_handshake`. RSA and the certificate parser
are parameters. -/
namespace YartOS.Tls

open Programs

/-- The functions of the kernel this model does not look into. -/
structure Crypto where
  /-- `x509_get_spki_bitstring` and `x509_rsa_key`: the modulus and the exponent. -/
  rsaKey : (der : List UInt8) → Option (List UInt8 × List UInt8)
  rsaPublic : (input exponent modulus : List UInt8) → Option (List UInt8)
  /-- `bn_rsa_private_crt` with the server's own key. -/
  rsaPrivateCrt : List UInt8 → Option (List UInt8)

def hsClientHello : UInt8 := 1
def hsServerHello : UInt8 := 2
def hsCertificate : UInt8 := 11
def hsServerHelloDone : UInt8 := 14
def hsClientKeyExchange : UInt8 := 16
def hsFinished : UInt8 := 20

/-- The low byte of `TLS_CIPHER_RSA_AES128_SHA256`; its high byte is zero. -/
def cipherRsaAes128Sha256 : UInt8 := 0x3C

/-- The blocks of the pseudo-random function; `a` is the A(i) of the round. -/
def prfBlocks (secret buf : List UInt8) : Nat → List UInt8 → List UInt8
  | 0, _ => []
  | n + 1, a => hmacSha256 secret (a ++ buf) ++ prfBlocks secret buf n (hmacSha256 secret a)

def labelBytes (label : String) : List UInt8 := label.toList.map fun c => UInt8.ofNat c.toNat

def tlsPrf (secret : List UInt8) (label : String) (seed : List UInt8) (outlen : Nat) : List UInt8 :=
  let buf := labelBytes label ++ seed
  (prfBlocks secret buf ((outlen + 31) / 32) (hmacSha256 secret buf)).take outlen

def handshakeMsg (type : UInt8) (body : List UInt8) : List UInt8 := type :: bigEndian 3 body.length ++ body

def feedHash (msg : List UInt8) (t : Conn) : Conn := { t with hs := sha256Update t.hs msg }

def Keys.ofBlock (kb : List UInt8) : Keys where
  cMac := kb.take 32
  sMac := (kb.drop 32).take 32
  cKey := (kb.drop 64).take 16
  sKey := (kb.drop 80).take 16
  cIv := (kb.drop 96).take 16
  sIv := (kb.drop 112).take 16
  rkC := Aes.aes128Keyexpand ((kb.drop 64).take 16)
  rkS := Aes.aes128Keyexpand ((kb.drop 80).take 16)

def masterSecret (premaster clientRandom serverRandom : List UInt8) : List UInt8 :=
  tlsPrf premaster "master secret" (clientRandom ++ serverRandom) 48

def keyBlock (master clientRandom serverRandom : List UInt8) : Keys :=
  Keys.ofBlock (tlsPrf master "key expansion" (serverRandom ++ clientRandom) 128)

def deriveKeys (premaster clientRandom serverRandom : List UInt8) (t : Conn) : Conn :=
  let master := masterSecret premaster clientRandom serverRandom
  { t with
    master := master
    keys := keyBlock master clientRandom serverRandom }

def clientVerifyData (master digest : List UInt8) : List UInt8 := tlsPrf master "client finished" digest 12

def serverVerifyData (master digest : List UInt8) : List UInt8 := tlsPrf master "server finished" digest 12

/-- What the client expects of the server's Finished. -/
def expectedVerifyData (t : Conn) : List UInt8 := serverVerifyData t.master (sha256Final t.hs)

/-- Reads a message of type `want` into `cap` bytes. What a longer one overwrites is not followed. -/
def readMessage (want : UInt8) (cap : Nat) (feed : Bool) : Prog Session (List Octet) := fun s =>
  match tlsReadHandshake want feed s.inp s.conn with
  | (some body, t, inp) => if body.length ≤ cap then some (body, ⟨t, inp⟩) else none
  | (none, _, _) => none

def tryMessage (want : UInt8) (cap : Nat) (feed : Bool) : Prog Session (Option (List Octet)) := fun s =>
  match tlsReadHandshake want feed s.inp s.conn with
  | (some body, t, inp) => if body.length ≤ cap then some (some body, ⟨t, inp⟩) else none
  | (none, t, inp) => some (none, ⟨t, inp⟩)

def onConn (f : Conn → Conn) : Prog Session PUnit := modify fun s => { s with conn := f s.conn }

def sendChangeCipherSpec (t : Conn) : Conn :=
  { tlsSendRecord rtChangeCipherSpec [1] t with cseq := 0, encSend := true }

/-! The client. -/

/-- The client's random, premaster after its version, nonzero padding and initialization vector. -/
structure ClientEnv where
  random : List UInt8
  secret : List UInt8
  pad : Nat → UInt8
  iv : List UInt8
  random_length : random.length = 32
  secret_length : secret.length = 46
  pad_ne : ∀ i, pad i ≠ 0
  iv_length : iv.length = 16

variable (C : Crypto) (e : ClientEnv)

def ClientEnv.premaster : List UInt8 := [3, 3] ++ e.secret

/-- Version, random, one cipher suite, and the signature algorithms. -/
def clientHelloBody : List UInt8 :=
  [3, 3] ++ e.random ++ [0, 0, 2, 0, cipherRsaAes128Sha256, 1, 0, 0, 14, 0, 13, 0, 10, 0, 8, 4, 1, 5, 1, 6, 1, 2, 1]

def clientHello : List UInt8 := handshakeMsg hsClientHello (clientHelloBody e)

def serverHelloRandom (sh : List UInt8) : Option (List UInt8) :=
  let cipherAt := 35 + number sh 34 1
  if 38 ≤ sh.length ∧ cipherAt + 2 ≤ sh.length ∧ (sh.drop cipherAt).take 2 = [0, cipherRsaAes128Sha256] then
    some ((sh.drop 2).take 32)
  else none

def firstCertificate (msg : List UInt8) : Option (List UInt8) :=
  let clen := number msg 0 3
  let dlen := number msg 3 3
  if 7 ≤ msg.length ∧ 3 ≤ clen ∧ 3 + clen ≤ msg.length ∧ 6 + dlen ≤ 3 + clen then
    some ((msg.drop 6).take dlen)
  else none

def encryptionBlock (modlen : Nat) : List UInt8 :=
  [0, 2] ++ (List.range (modlen - 3 - 48)).map e.pad ++ [0] ++ e.premaster

def clientKeyExchange (enc : List UInt8) : List UInt8 :=
  handshakeMsg hsClientKeyExchange (bigEndian 2 enc.length ++ enc)

/-- From ClientHello to ServerHelloDone: the server's random and RSA key. -/
def connectHello : Prog Session (List UInt8 × List UInt8 × List UInt8) := do
  onConn (feedHash (clientHello e))
  onConn (tlsSendRecord rtHandshake (clientHello e))
  let sh ← readMessage hsServerHello 512 true
  let serverRandom ← ofOption (serverHelloRandom (values sh))
  let certmsg ← readMessage hsCertificate 20000 true
  let der ← ofOption (firstCertificate (values certmsg))
  let key ← ofOption (C.rsaKey der)
  let _ ← readMessage hsServerHelloDone 8 true
  pure (serverRandom, key)

def sendClientFinished (t : Conn) : Conn :=
  tlsSendEncrypted e.iv rtHandshake (handshakeMsg hsFinished (clientVerifyData t.master (sha256Final t.hs))) t

/-- The client's second flight; keys come before the cipher. -/
def sendClientFlight (serverRandom enc : List UInt8) (t : Conn) : Conn :=
  let sent := tlsSendRecord rtHandshake (clientKeyExchange enc)
    (feedHash (clientKeyExchange enc) t)
  sendClientFinished e (sendChangeCipherSpec (deriveKeys e.premaster e.random serverRandom sent))

def connectFlight : Prog Session PUnit := do
  let (serverRandom, modulus, exponent) ← connectHello C e
  require (8 + 3 + 48 ≤ modulus.length)
  let enc ← ofOption (C.rsaPublic (encryptionBlock e modulus.length) exponent modulus)
  onConn (sendClientFlight e serverRandom enc)

/-- The end of the handshake; the comparison of verify data has an empty body. -/
def connectFinish : Prog Session PUnit := do
  let fin ← readMessage hsFinished 64 false
  require (4 ≤ fin.length)

/-- `tls_connect` from the moment the TCP connection is up. -/
def tlsConnect : Prog Session PUnit := do
  connectFlight C e
  connectFinish

/-! The server. -/

/-- The server's random, certificate, key length, vector, and unfilled stack buffers. -/
structure ServerEnv where
  random : List UInt8
  cert : List UInt8
  nlen : Nat
  iv : List UInt8
  stack : List UInt8
  random_length : random.length = 32
  cert_ne : cert ≠ []
  cert_length : cert.length ≤ 4096
  nlen_ge : 128 ≤ nlen
  nlen_le : nlen ≤ 256
  iv_length : iv.length = 16

variable (v : ServerEnv)

/-- Version, random, the cipher suite, and the renegotiation extension. -/
def serverHelloBody : List UInt8 := [3, 3] ++ v.random ++ [0, 0, cipherRsaAes128Sha256, 0, 0, 5, 0xFF, 1, 0, 1, 0]

def serverHello : List UInt8 := handshakeMsg hsServerHello (serverHelloBody v)

def certificateBody : List UInt8 := bigEndian 3 (3 + v.cert.length) ++ (bigEndian 3 v.cert.length ++ v.cert)

def certificate : List UInt8 := handshakeMsg hsCertificate (certificateBody v)

def serverHelloDone : List UInt8 := handshakeMsg hsServerHelloDone []

def offersCipher (ch : List UInt8) : Bool :=
  let ciphersAt := 35 + number ch 34 1
  let clen := number ch ciphersAt 2
  (List.range (clen / 2)).any fun k =>
    let i := ciphersAt + 2 + 2 * k
    i + 2 ≤ ch.length ∧ (ch.drop i).take 2 = [0, cipherRsaAes128Sha256]

def clientHelloRandom (ch : List UInt8) : Option (List UInt8) :=
  if 36 ≤ ch.length ∧ 35 + number ch 34 1 + 2 ≤ ch.length ∧ offersCipher ch then
    some ((ch.drop 2).take 32)
  else none

def encryptedPremaster (cke : List UInt8) : Option (List UInt8) :=
  let elen := number cke 0 2
  if 2 + 128 ≤ cke.length ∧ 2 + elen ≤ cke.length ∧ elen = v.nlen then
    some ((cke.drop 2).take v.nlen)
  else none

/-- The unpadding in `tls_server_handshake`: the premaster, and the positions that it looks at.
`eb` goes on with what the stack holds behind the block of `nlen` bytes. -/
def unpad (nlen : Nat) (eb : List UInt8) : Option (List UInt8) × List Nat :=
  if eb.take 2 ≠ [0, 2] then (none, [0, 1])
  else
    let sep := 2 + (((eb.take nlen).drop 2).takeWhile (· ≠ 0)).length
    let seen := List.range (min (sep + 1) nlen)
    if sep < 10 ∨ nlen < sep + 48 then (none, seen)
    else
      let premaster := (eb.drop (sep + 1)).take 48
      (if premaster.take 2 = [3, 3] then some premaster else none, seen ++ List.range' (sep + 1) 48)

def sendServerFlight (t : Conn) : Conn :=
  let fed := feedHash serverHelloDone (feedHash (certificate v) (feedHash (serverHello v) t))
  tlsSendRecord rtHandshake serverHelloDone
    (tlsSendRecord rtHandshake (certificate v) (tlsSendRecord rtHandshake (serverHello v) fed))

/-- From the ClientHello to the keys. -/
def acceptKeys : Prog Session PUnit := do
  let ch ← readMessage hsClientHello 4096 true
  let clientRandom ← ofOption (clientHelloRandom (values ch))
  onConn (sendServerFlight v)
  let cke ← readMessage hsClientKeyExchange 512 true
  let enc ← ofOption (encryptedPremaster v (values cke))
  let eb ← ofOption (C.rsaPrivateCrt enc)
  let premaster ← ofOption (unpad v.nlen (eb ++ v.stack)).1
  onConn (deriveKeys premaster clientRandom v.random)

/-- The server's verify data; an early Finished is in the transcript. -/
def serverFinished (early : Option (List Octet)) (hpre : List UInt8) (t : Conn) : List UInt8 :=
  match early with
  | some _ => serverVerifyData t.master (sha256Final t.hs)
  | none => serverVerifyData t.master hpre

/-- The client's Finished, unless the early read has it. -/
def clientFinished : Option (List Octet) → Prog Session (List Octet)
  | some cfin => pure cfin
  | none => readMessage hsFinished 64 false

def acceptFinish (hpre : List UInt8)
    (early : Option (List Octet)) : Prog Session (List UInt8) := do
  onConn sendChangeCipherSpec
  let s ← get
  let svd := serverFinished early hpre s.conn
  onConn (tlsSendEncrypted v.iv rtHandshake (handshakeMsg hsFinished svd))
  let cfin ← clientFinished early
  require (4 ≤ cfin.length)
  require ((values cfin ++ v.stack).take 12 = clientVerifyData s.conn.master hpre)
  pure svd

/-- `tls_server_handshake`; the result is the verify data it has sent. -/
def tlsServerHandshake : Prog Session (List UInt8) := do
  acceptKeys C v
  let s ← get
  let early ← tryMessage hsFinished 64 true
  acceptFinish v (sha256Final s.conn.hs) early

def startClient (arrivals : List Arrival) : Session := ⟨{}, deframe arrivals⟩

def startServer (arrivals : List Arrival) : Session := ⟨{ server := true }, deframe arrivals⟩

/-- An RSA that leaves everything as it is, and a key that every certificate has. -/
def plainCrypto : Crypto where
  rsaKey _ := some (List.replicate 128 1, [3])
  rsaPublic input _ _ := some input
  rsaPrivateCrt input := some input

def zeroClient : ClientEnv where
  random := List.replicate 32 0
  secret := List.replicate 46 0
  pad _ := 1
  iv := List.replicate 16 0
  random_length := rfl
  secret_length := rfl
  pad_ne _ := by decide
  iv_length := rfl

def zeroServer : ServerEnv where
  random := List.replicate 32 0
  cert := [0x30]
  nlen := 128
  iv := List.replicate 16 0
  stack := []
  random_length := rfl
  cert_ne := by decide
  cert_length := by decide
  nlen_ge := by decide
  nlen_le := by decide
  iv_length := rfl

end YartOS.Tls
