import YartOS.Tls.Agreement

/-! What an accepted handshake of the client says about its peer. -/
namespace YartOS.Tls

open Programs List Option

def serverFlight : List UInt8 := [hsServerHello, hsCertificate, hsServerHelloDone]

/-- The master secret, the keys and the transcript that follow from the server's messages. -/
def clientSecrets (C : Crypto) (e : ClientEnv) (sh cert done : List UInt8) :
    Option (List UInt8 × Keys × Sha256Ctx) := do
  let serverRandom ← serverHelloRandom (sh.drop 4)
  let der ← firstCertificate (cert.drop 4)
  let (modulus, exponent) ← C.rsaKey der
  let enc ← C.rsaPublic (encryptionBlock e modulus.length) exponent modulus
  let master := masterSecret e.premaster e.random serverRandom
  let hs := [clientHello e, sh, cert, done, clientKeyExchange enc].foldl sha256Update sha256Init
  pure (master, keyBlock master e.random serverRandom, hs)

variable {C : Crypto} {e : ClientEnv} {s s' : Session} {app : Prop} {tail post inp : List Frame} {want : UInt8}
  {sh cert done msg more : List UInt8}

lemma readMessage_eq_some {cap : Nat} {feed : Bool} {body : List Octet} (h : readMessage want cap feed s = some (body, s')) :
    tlsReadHandshake want feed s.inp s.conn = (some body, s'.conn, s'.inp) := by
  unfold readMessage at h
  split at h
  · rename_i hRead
    split at h
    · cases h
      exact hRead
    · cases h
  · cases h

/-- The server's messages were taken, and nothing else. -/
def Conn.HasFlight (t : Conn) : Prop :=
  ∃ msgs : List (List Octet), t.taken = msgs.map .message ∧ msgs.map msgType = serverFlight.map some

/-- The client has taken the three messages and nothing else. -/
lemma connectHello_ahead {r : List UInt8 × List UInt8 × List UInt8} (msgs : Forall₂ IsMessage serverFlight [sh, cert, done])
    (ahead : Ahead app (sh ++ (cert ++ (done ++ more))) tail {} inp) (h : connectHello C e ⟨{}, inp⟩ = some (r, s')) :
    Ahead app more tail s'.conn s'.inp ∧ s'.conn.server = false ∧ s'.conn.HasFlight ∧
      s'.conn.hs = [clientHello e, sh, cert, done].foldl sha256Update sha256Init ∧
      serverHelloRandom (sh.drop 4) = some r.1 ∧ ∃ der, firstCertificate (cert.drop 4) = some der ∧ C.rsaKey der = some r.2 := by
  obtain ⟨hSh, hCert, hDone, -⟩ : IsMessage _ sh ∧ IsMessage _ cert ∧ IsMessage _ done ∧ True := by
    simpa [serverFlight] using msgs
  obtain ⟨_, _, h₁, h⟩ := of_bind h
  obtain rfl := of_modify h₁
  obtain ⟨_, _, h₂, h⟩ := of_bind h
  obtain rfl := of_modify h₂
  obtain ⟨_, ⟨_, _⟩, h₃, h⟩ := of_bind h
  have hSent : Ahead app (sh ++ (cert ++ (done ++ more))) tail
      (tlsSendRecord rtHandshake (clientHello e) (feedHash (clientHello e) {})) inp := ⟨ahead.off, ahead.rx, ahead.clear⟩
  obtain ⟨⟨o₁, sseq₁, rx₁, buf₁, hv₁, rfl, rfl⟩, hAhead⟩ := tlsReadHandshake_ahead hSh hSent (readMessage_eq_some h₃)
  obtain ⟨serverRandom, _, h₄, h⟩ := of_bind h
  obtain ⟨hRandom, rfl⟩ := ofOption_eq_some.mp h₄
  obtain ⟨_, ⟨_, _⟩, h₅, h⟩ := of_bind h
  obtain ⟨⟨o₂, sseq₂, rx₂, buf₂, hv₂, rfl, rfl⟩, hAhead⟩ := tlsReadHandshake_ahead hCert hAhead (readMessage_eq_some h₅)
  obtain ⟨der, _, h₆, h⟩ := of_bind h
  obtain ⟨hDer, rfl⟩ := ofOption_eq_some.mp h₆
  obtain ⟨key, _, h₇, h⟩ := of_bind h
  obtain ⟨hKey, rfl⟩ := ofOption_eq_some.mp h₇
  obtain ⟨_, ⟨_, _⟩, h₈, h⟩ := of_bind h
  obtain ⟨⟨o₃, sseq₃, rx₃, buf₃, hv₃, rfl, rfl⟩, hAhead⟩ := tlsReadHandshake_ahead hDone hAhead (readMessage_eq_some h₈)
  obtain ⟨rfl, rfl⟩ := of_pure h
  have hTypes : [o₁, o₂, o₃].map msgType = serverFlight.map some := by
    simp [hSh.msgType hv₁, hCert.msgType hv₂, hDone.msgType hv₃, serverFlight]
  have hBody : ∀ o : List Octet, values (o.drop 4) = (values o).drop 4 := fun o => map_drop
  rw [hBody, hv₁] at hRandom
  rw [hBody, hv₂] at hDer
  exact ⟨hAhead, rfl, ⟨[o₁, o₂, o₃], rfl, hTypes⟩, rfl, hRandom, der, hDer, hKey⟩

/-- After its own Finished the client has the secrets that follow from the server's messages. -/
lemma connectFlight_ahead {u : PUnit} (msgs : Forall₂ IsMessage serverFlight [sh, cert, done])
    (ahead : Ahead app (sh ++ (cert ++ (done ++ more))) tail {} inp) (h : connectFlight C e ⟨{}, inp⟩ = some (u, s')) :
    Ahead app more tail s'.conn s'.inp ∧ s'.conn.server = false ∧ s'.conn.HasFlight ∧
      clientSecrets C e sh cert done = some (s'.conn.master, s'.conn.keys, s'.conn.hs) := by
  obtain ⟨⟨serverRandom, modulus, exponent⟩, s₁, h₁, h⟩ := of_bind h
  obtain ⟨hAhead, hServer, hTaken, hHs, hRandom, der, hDer, hKey⟩ := connectHello_ahead msgs ahead h₁
  obtain ⟨_, _, h₂, h⟩ := of_bind h
  obtain ⟨-, rfl⟩ := require_eq_some.mp h₂
  obtain ⟨enc, _, h₃, h⟩ := of_bind h
  obtain ⟨hEnc, rfl⟩ := ofOption_eq_some.mp h₃
  obtain rfl := of_modify h
  refine ⟨⟨hAhead.off, hAhead.rx, hAhead.clear⟩, hServer, hTaken, ?_⟩
  have hFed : (sendClientFlight e serverRandom enc s₁.conn).hs = sha256Update s₁.conn.hs (clientKeyExchange enc) := rfl
  simp only [clientSecrets, hRandom, hDer, hKey, hEnc, Option.bind_eq_bind, bind_some, hFed, hHs]
  rfl

lemma ahead_of_clear {clear : List Frame} {server : Bool} (hClear : ∀ f ∈ clear, Clear app f) :
    Ahead app (flight clear) tail { server := server } (clear ++ tail) :=
  ⟨rfl, fun _ => rfl, clear, rfl, hClear, rfl⟩

section Server

variable {v : ServerEnv} {enc body : List UInt8}

lemma serverRecords_messages (v : ServerEnv) :
    Forall₂ IsMessage serverFlight [serverHello v, certificate v, serverHelloDone] := by
  have hCert := v.cert_length
  refine .cons (isMessage_handshakeMsg _ ?_) (.cons (isMessage_handshakeMsg _ ?_)
    (.cons (isMessage_handshakeMsg _ (by decide)) .nil))
  · rw [serverHelloBody_length]
    decide
  · rw [certificateBody_length]
    omega

lemma serverRecords_clear (v : ServerEnv) : ∀ f ∈ (serverRecords v).map asFrame, Clear app f := by
  simp [serverRecords, asFrame, Clear, Frame.type?, rtHandshake, rtChangeCipherSpec, rtApplicationData]

lemma serverRecords_flight (v : ServerEnv) :
    flight ((serverRecords v).map asFrame) = [serverHello v, certificate v, serverHelloDone].flatten := by
  simp [flight, serverRecords, asFrame, Frame.handshakeBytes]

/-- The records of the server up to its ChangeCipherSpec. -/
lemma server_opens {svd : List UInt8} {more : List (UInt8 × List UInt8)} (hSvd : svd.length = 12)
    (fit : ∀ r ∈ more, r.2.length ≤ tlsMaxRecord) :
    Opens app serverFlight [serverHello v, certificate v, serverHelloDone]
      (((serverFinish e v svd).tail ++ more).map asFrame)
      (deframe (onWire (serverRecords v ++ serverFinish e v svd ++ more))) :=
  ⟨serverRecords_messages v, (serverRecords v).map asFrame, 3, 3, [1], deframe_serverStream hSvd fit,
    serverRecords_clear v, serverRecords_flight v⟩

end Server

end YartOS.Tls
