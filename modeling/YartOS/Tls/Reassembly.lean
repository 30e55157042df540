import YartOS.Tls.Agreement

/-! Handshake messages that are put together from records, and the buffers they are copied to. -/
namespace YartOS.Tls

open List

variable {t t' : Conn} {want : UInt8} {feed : Bool} {inp : List Frame}

/-! Records of any size. -/

/-- The bytes of handshake records, with the notes that the connection makes on them now. -/
def Conn.heard (t : Conn) (bytes : List UInt8) : List Octet :=
  note rtHandshake (if t.encRecv then some t.keys else none) bytes

/-- The frames are opened one after the other to handshake records with these bytes. -/
def Conn.Receives (t : Conn) (inp : List Frame) (chunks : List (List UInt8)) : Prop :=
  (inp.zipIdx t.sseq).map (fun e => recordData { t with sseq := e.2 } e.1) =
    chunks.map fun bytes => some (rtHandshake, t.heard bytes)

/-- What a call does with all bytes to come: messages are taken up to the one wanted. -/
inductive Pulls (want : UInt8) (feed : Bool) :
    List Octet → Sha256Ctx → Option (List Octet) → List Octet → Sha256Ctx → Prop where
  | found {buf hs msg rest} : nextMessage buf = some (msg, rest) → msgType msg = some want →
      Pulls want feed buf hs (some (msg.drop 4)) rest (if feed then sha256Update hs (values msg) else hs)
  | skip {buf hs msg rest r buf' hs'} : nextMessage buf = some (msg, rest) → msgType msg ≠ some want →
      Pulls want feed rest (if feed then sha256Update hs (values msg) else hs) r buf' hs' →
      Pulls want feed buf hs r buf' hs'
  | stop {buf hs} : nextMessage buf = none → Pulls want feed buf hs none buf hs

variable {buf buf' rest : List Octet} {hs hs' : Sha256Ctx} {r : Option (List Octet)}

lemma Pulls.unique {buf₂ : List Octet} {hs₂ : Sha256Ctx} {r₂ : Option (List Octet)}
    (h : Pulls want feed buf hs r buf' hs') (h₂ : Pulls want feed buf hs r₂ buf₂ hs₂) :
    r = r₂ ∧ buf' = buf₂ ∧ hs' = hs₂ := by
  induction h with
  | found hNext hType => cases h₂ <;> simp_all
  | skip hNext hType _ ih => cases h₂ <;> simp_all
  | stop hNext => cases h₂ <;> simp_all

lemma nextMessage_split {msg : List Octet} (h : nextMessage buf = some (msg, rest)) :
    buf = msg ++ rest ∧ 4 ≤ msg.length := by
  unfold nextMessage at h
  split at h
  · cases h
    exact ⟨(take_append_drop _ _).symm, by rw [length_take]; omega⟩
  · cases h

/-- A message that is there stays the first one when more bytes come. -/
lemma nextMessage_append {msg : List Octet} (more : List Octet)
    (h : nextMessage buf = some (msg, rest)) : nextMessage (buf ++ more) = some (msg, rest ++ more) := by
  unfold nextMessage at *
  split at h
  · rename_i hWhole
    cases h
    have hNumber : number (values (buf ++ more)) 1 3 = number (values buf) 1 3 := by
      rw [values_append, number_append (by rw [values_length]; exact hWhole.1)]
    rw [hNumber, if_pos (by rw [length_append]; omega), take_append_of_le_length hWhole.2,
      drop_append_of_le_length hWhole.2]
  · cases h

/-- Bytes that come later go behind what is left, or are what the call goes on with. -/
lemma Pulls.append (more : List Octet) (h : Pulls want feed buf hs r buf' hs') :
    (r.isSome → Pulls want feed (buf ++ more) hs r (buf' ++ more) hs') ∧
      (r = none → ∀ {r₂ buf₂ hs₂}, Pulls want feed (buf' ++ more) hs' r₂ buf₂ hs₂ →
        Pulls want feed (buf ++ more) hs r₂ buf₂ hs₂) := by
  induction h with
  | found hNext hType => exact ⟨fun _ => .found (nextMessage_append more hNext) hType, nofun⟩
  | skip hNext hType _ ih =>
    exact ⟨fun hr => .skip (nextMessage_append more hNext) hType (ih.1 hr),
      fun hr _ _ _ h => .skip (nextMessage_append more hNext) hType (ih.2 hr h)⟩
  | stop hNext => exact ⟨nofun, fun _ _ _ _ h => h⟩

lemma drain_pulls {n : Nat} (hn : t.hsbuf.length ≤ n) (h : drain want feed n t = (r, t')) :
    Pulls want feed t.hsbuf t.hs r t'.hsbuf t'.hs ∧ t'.hsbuf.length ≤ t.hsbuf.length ∧
      ∃ hsbuf hs taken, t' = { t with hsbuf := hsbuf, hs := hs, taken := taken } := by
  induction n generalizing t with
  | zero =>
    cases h
    refine ⟨.stop ?_, Nat.le_refl _, _, _, _, rfl⟩
    rw [length_eq_zero_iff.mp (Nat.le_zero.mp hn)]
    rfl
  | succ n ih =>
    rw [drain] at h
    split at h
    · rename_i hNext
      cases h
      exact ⟨.stop hNext, Nat.le_refl _, _, _, _, rfl⟩
    rename_i msg rest hNext
    obtain ⟨hSplit, hHeader⟩ := nextMessage_split hNext
    have hLength := congrArg length hSplit
    rw [length_append] at hLength
    have hRest : (takeMessage feed msg rest t).hsbuf.length ≤ n := show rest.length ≤ n by omega
    split at h
    · rename_i hType
      cases h
      exact ⟨.found hNext hType, show rest.length ≤ _ by omega, _, _, _, rfl⟩
    · rename_i hType
      obtain ⟨hPulls, hLess, hSame⟩ := ih hRest h
      exact ⟨.skip hNext hType hPulls, Nat.le_trans hLess (show rest.length ≤ _ by omega), hSame⟩

/-- All bytes to come: those in the buffer and those of the records. -/
def Pending (buf : List Octet) (t : Conn) (inp : List Frame) : Prop :=
  ∃ chunks, t.Receives inp chunks ∧ t.hsbuf ++ t.heard chunks.flatten = buf ∧ buf.length ≤ tlsMaxRecord

lemma tlsReadHandshake_pulls (h : Pending buf t inp) :
    ∃ buf', Pulls want feed buf t.hs (tlsReadHandshake want feed inp t).1 buf'
        (tlsReadHandshake want feed inp t).2.1.hs ∧
      Pending buf' (tlsReadHandshake want feed inp t).2.1 (tlsReadHandshake want feed inp t).2.2 := by
  induction inp generalizing t buf with
  | nil =>
    obtain ⟨chunks, hReceives, rfl, hMax⟩ := h
    obtain rfl := map_eq_nil_iff.mp hReceives.symm
    rw [tlsReadHandshake]
    cases hDrain : drain want feed t.hsbuf.length t with
    | mk r t' =>
      obtain ⟨hPulls, hLess, -⟩ := drain_pulls (Nat.le_refl _) hDrain
      rw [show t.heard [].flatten = [] from rfl, append_nil] at hMax ⊢
      have hPending : Pending t'.hsbuf t' [] := ⟨[], rfl, append_nil _, Nat.le_trans hLess hMax⟩
      cases r <;> exact ⟨t'.hsbuf, hPulls, hPending⟩
  | cons f inp ih =>
    obtain ⟨chunks, hReceives, rfl, hMax⟩ := h
    rw [tlsReadHandshake]
    cases hDrain : drain want feed t.hsbuf.length t with
    | mk r t' =>
      obtain ⟨hPulls, hLess, hsbuf, hs, taken, rfl⟩ := drain_pulls (Nat.le_refl _) hDrain
      have hAppend := hPulls.append (t.heard chunks.flatten)
      rw [length_append] at hMax
      cases r with
      | some body =>
        refine ⟨_, hAppend.1 rfl, chunks, hReceives, rfl, ?_⟩
        rw [length_append]
        omega
      | none =>
        cases chunks with
        | nil => cases hReceives
        | cons bytes chunks =>
          obtain ⟨hData, hRest⟩ := cons.inj hReceives
          have hRecord : tlsReadRecord { t with hsbuf := hsbuf, hs := hs, taken := taken } f =
            some (rtHandshake, t.heard bytes, _) := congrArg (Option.map _) hData
          have hFlat : t.heard (bytes :: chunks).flatten = t.heard bytes ++ t.heard chunks.flatten := by
            rw [Conn.heard, note, flatten_cons, map_append]
            rfl
          rw [hFlat, length_append] at hMax
          simp only [hRecord]
          rw [dispatchRecord_handshake (by simp only at hLess ⊢; omega)]
          have hTotal : (hsbuf ++ t.heard bytes ++ t.heard chunks.flatten).length ≤ tlsMaxRecord := by
            simp only [length_append] at hLess ⊢
            omega
          obtain ⟨buf', hPulls', hPending⟩ := ih (t := { t with
            hs := hs, taken := taken, sseq := t.sseq + 1, hsbuf := hsbuf ++ t.heard bytes }) ⟨chunks, hRest, rfl, hTotal⟩
          refine ⟨buf', hAppend.2 rfl ?_, hPending⟩
          rw [hFlat, ← append_assoc]
          exact hPulls'

/-- Calls one after the other: the bodies they return, and the transcript they leave. -/
def readAll : List (UInt8 × Bool) → List Frame → Conn → List (Option (List Octet)) × Sha256Ctx
  | [], _, t => ([], t.hs)
  | (want, feed) :: calls, inp, t =>
    let (r, t, inp) := tlsReadHandshake want feed inp t
    let (bodies, hs) := readAll calls inp t
    (r :: bodies, hs)

lemma readAll_congr {calls : List (UInt8 × Bool)} {inp' : List Frame} (h : Pending buf t inp)
    (h' : Pending buf t' inp') (hHash : t.hs = t'.hs) : readAll calls inp t = readAll calls inp' t' := by
  induction calls generalizing buf t t' inp inp' with
  | nil => exact congrArg ([], ·) hHash
  | cons call calls ih =>
    obtain ⟨buf₁, hPulls, hNext⟩ := @tlsReadHandshake_pulls t call.1 call.2 inp buf h
    obtain ⟨buf₂, hPulls', hNext'⟩ := @tlsReadHandshake_pulls t' call.1 call.2 inp' buf h'
    rw [← hHash] at hPulls'
    obtain ⟨hBody, rfl, hHash⟩ := hPulls.unique hPulls'
    have hRest := ih hNext hNext' hHash
    simp only [readAll]
    rw [hBody, hRest]

/-- However the bytes of messages are cut into records, the calls return the same bodies and leave
the same transcript as with one message per record. -/
theorem reassembly_independent (t : Conn) (msgs : List (UInt8 × List UInt8)) (calls : List (UInt8 × Bool))
    (chunks : List (List UInt8)) (cut whole : List Frame) (hBuf : t.hsbuf = []) (hTotal : chunks.flatten.length ≤ 20000)
    (hBytes : chunks.flatten = (msgs.map fun m => handshakeMsg m.1 m.2).flatten) (hCut : t.Receives cut chunks)
    (hWhole : t.Receives whole (msgs.map fun m => handshakeMsg m.1 m.2)) :
    readAll calls cut t = readAll calls whole t := by
  have hLength : (t.hsbuf ++ t.heard chunks.flatten).length ≤ tlsMaxRecord := by
    rw [hBuf, nil_append, Conn.heard, note, length_map]
    exact hTotal
  exact readAll_congr ⟨chunks, hCut, rfl, hLength⟩ ⟨_, hWhole, by rw [hBytes], hLength⟩ rfl

lemma receives_plain (hOff : t.encRecv = false) (chunks : List (List UInt8)) :
    t.Receives (chunks.map (.record rtHandshake 3 3)) chunks := by
  rw [Conn.Receives]
  generalize t.sseq = n
  induction chunks generalizing n with
  | nil => rfl
  | cons bytes chunks ih =>
    refine congrArg₂ cons ?_ (ih (n + 1))
    simp [recordData, hOff, Conn.heard, note]

/-- Two messages in three records, cut inside of a header and inside of a body. -/
theorem two_messages_in_three_records : readAll [(14, true), (11, false)]
        ([[11, 0], [0, 1, 7, 14, 0, 0], [0]].map (.record rtHandshake 3 3)) {} =
      readAll [(14, true), (11, false)]
        ([[11, 0, 0, 1, 7], [14, 0, 0, 0]].map (.record rtHandshake 3 3)) {} :=
  reassembly_independent {} [(11, [7]), (14, [])] _ _ _ _ rfl (by decide) (by decide)
    (receives_plain rfl _) (receives_plain rfl _)

/-! The buffers for the bodies. -/

/-- A call of `tls_read_handshake`; `cap` is the size of the buffer for the body. -/
structure ReadCall where
  want : UInt8
  cap : Nat
  feed : Bool

/-- The calls in `tls_connect`, and those in `tls_server_handshake`. -/
def handshakeCalls : List ReadCall :=
  [⟨hsServerHello, 512, true⟩, ⟨hsCertificate, 20000, true⟩, ⟨hsServerHelloDone, 8, true⟩, ⟨hsFinished, 64, false⟩,
    ⟨hsClientHello, 4096, true⟩, ⟨hsClientKeyExchange, 512, true⟩, ⟨hsFinished, 64, true⟩,
    ⟨hsFinished, 64, false⟩]

def ReadCall.run (c : ReadCall) (s : Session) : Option (List Octet) × Conn × List Frame :=
  tlsReadHandshake c.want c.feed s.inp s.conn

def ReadCall.Fits (c : ReadCall) (s : Session) : Prop :=
  ∀ body, (c.run s).1 = some body → body.length ≤ c.cap

/-- The bytes of the handshake records to come, opened as they arrive, up to a record that ends the
reading: an alert, a deadline, or one that is not opened. -/
def handshakeData (server : Bool) (keys : Keys) : Bool → Nat → List Frame → List (List Octet)
  | _, _, [] => []
  | on, seq, f :: inp =>
    match recordData { server := server, keys := keys, encRecv := on, sseq := seq } f with
    | none => []
    | some (type, payload) =>
      if type = rtAlert then []
      else if type = rtChangeCipherSpec then handshakeData server keys true 0 inp
      else if type ≠ rtHandshake then handshakeData server keys on (seq + 1) inp
      else payload :: handshakeData server keys on (seq + 1) inp

def Session.toCome (s : Session) : List (List Octet) :=
  handshakeData s.conn.server s.conn.keys s.conn.encRecv s.conn.sseq s.inp

/-- The first whole message of this type in the buffer and the bytes to come, of which no more than
20000 wait at a time. -/
inductive Finds (want : UInt8) : List Octet → List (List Octet) → List Octet → Prop where
  | found {buf msg rest chunks} : nextMessage buf = some (msg, rest) → msgType msg = some want → Finds want buf chunks msg
  | skip {buf other rest chunks msg} : nextMessage buf = some (other, rest) → msgType other ≠ some want →
      Finds want rest chunks msg → Finds want buf chunks msg
  | more {buf chunk chunks msg} : nextMessage buf = none → buf.length + chunk.length ≤ tlsMaxRecord →
      Finds want (buf ++ chunk) chunks msg → Finds want buf (chunk :: chunks) msg

section Finds

variable {chunk msg m : List Octet} {chunks : List (List Octet)}

lemma finds_found (hNext : nextMessage buf = some (msg, rest)) (hType : msgType msg = some want) :
    Finds want buf chunks m ↔ m = msg := by
  constructor
  · intro h
    cases h <;> simp_all
  · rintro rfl
    exact .found hNext hType

lemma finds_skip (hNext : nextMessage buf = some (msg, rest)) (hType : msgType msg ≠ some want) :
    Finds want buf chunks m ↔ Finds want rest chunks m := by
  constructor
  · intro h
    cases h <;> simp_all
  · exact .skip hNext hType

lemma not_finds_nil (hNext : nextMessage buf = none) : ¬ Finds want buf [] m := by
  intro h
  cases h <;> simp_all

lemma finds_more (hNext : nextMessage buf = none) : Finds want buf (chunk :: chunks) m ↔
    buf.length + chunk.length ≤ tlsMaxRecord ∧ Finds want (buf ++ chunk) chunks m := by
  constructor
  · intro h
    cases h with
    | more _ hRoom hMore => exact ⟨hRoom, hMore⟩
    | found hFound | skip hFound =>
      rw [hNext] at hFound
      cases hFound
  · rintro ⟨hRoom, hMore⟩
    exact .more hNext hRoom hMore

/-- What a call takes off the buffer is what is found first. -/
lemma Pulls.finds (h : Pulls want feed buf hs r buf' hs') (chunks : List (List Octet)) :
    (∀ body, r = some body → ∃ msg, body = msg.drop 4 ∧ ∀ m, Finds want buf chunks m ↔ m = msg) ∧
      (r = none → nextMessage buf' = none ∧ ∀ m, Finds want buf chunks m ↔ Finds want buf' chunks m) := by
  induction h with
  | found hNext hType =>
    refine ⟨fun body hBody => ?_, nofun⟩
    cases hBody
    exact ⟨_, rfl, fun m => finds_found hNext hType⟩
  | skip hNext hType _ ih => simpa only [finds_skip hNext hType] using ih
  | stop hNext => exact ⟨nofun, fun _ => ⟨hNext, fun _ => Iff.rfl⟩⟩

/-- A message found is one that waited whole, so it is not longer than what may wait. -/
lemma Finds.length_le (h : Finds want buf chunks msg) (hBuf : buf.length ≤ tlsMaxRecord) : msg.length ≤ tlsMaxRecord := by
  induction h with
  | found hNext =>
    have hLength := congrArg length (nextMessage_split hNext).1
    rw [length_append] at hLength
    omega
  | skip hNext _ _ ih =>
    have hLength := congrArg length (nextMessage_split hNext).1
    rw [length_append] at hLength
    exact ih (by omega)
  | more _ hRoom _ ih => exact ih (by rwa [length_append])

end Finds

lemma recordData_eq (t : Conn) (f : Frame) :
    recordData t f = recordData { server := t.server, keys := t.keys, encRecv := t.encRecv, sseq := t.sseq } f := by
  cases f <;> rfl

/-- A message that waits is found whatever comes later. -/
lemma drain_finds {body found : List Octet} (chunks : List (List Octet))
    (h : drain want feed t.hsbuf.length t = (some found, t')) :
    some found = some body ↔ ∃ msg, Finds want t.hsbuf chunks msg ∧ body = msg.drop 4 := by
  obtain ⟨hPulls, -⟩ := drain_pulls (Nat.le_refl _) h
  obtain ⟨msg, rfl, hFinds⟩ := (hPulls.finds chunks).1 _ rfl
  simp [hFinds, eq_comm]

/-- A call returns the body of the first message of its type in the bytes to come. -/
lemma tlsReadHandshake_eq_some_iff {body : List Octet} : (tlsReadHandshake want feed inp t).1 = some body ↔
    ∃ msg, Finds want t.hsbuf (Session.toCome ⟨t, inp⟩) msg ∧ body = msg.drop 4 := by
  induction inp generalizing t with
  | nil =>
    rcases hDrain : drain want feed t.hsbuf.length t with ⟨_ | found, t'⟩
    · obtain ⟨hPulls, -⟩ := drain_pulls (Nat.le_refl _) hDrain
      obtain ⟨hNext, hSame⟩ := (hPulls.finds []).2 rfl
      rw [tlsReadHandshake_nil hDrain]
      simp [Session.toCome, handshakeData, hSame, not_finds_nil hNext]
    · rw [tlsReadHandshake_found hDrain]
      exact drain_finds _ hDrain
  | cons f inp ih =>
    rcases hDrain : drain want feed t.hsbuf.length t with ⟨_ | found, t'⟩
    · obtain ⟨hPulls, -, hsbuf, hs, taken, rfl⟩ := drain_pulls (Nat.le_refl _) hDrain
      obtain ⟨hNext, hSame⟩ := (hPulls.finds (Session.toCome ⟨t, f :: inp⟩)).2 rfl
      simp only [hSame]
      rw [tlsReadHandshake_more hDrain, readRecord, tlsReadRecord, recordData_eq, Session.toCome, handshakeData]
      dsimp only
      rcases recordData { server := t.server, keys := t.keys, encRecv := t.encRecv, sseq := t.sseq } f with _ | ⟨type, payload⟩
      · simp [not_finds_nil hNext]
      dsimp only [Option.map_some, dispatchRecord]
      -- the reader goes on, takes the payload, or gives up, and so do the bytes to come
      by_cases hApp : type = rtApplicationData
      · subst hApp
        by_cases hRoom : t.rx.length + payload.length ≤ tlsAppbuf
        · rw [if_pos hRoom]
          exact ih
        · rw [if_neg hRoom]
          exact ih
      · rw [if_neg hApp]
        split_ifs with hAlert hCcs hOther hFull
        · simp [not_finds_nil hNext]
        · exact ih
        · exact ih
        · simp [finds_more hNext, Nat.not_le.mpr hFull]
        · simp only [finds_more hNext, Nat.le_of_not_lt hFull, true_and]
          exact ih
    · rw [tlsReadHandshake_found hDrain]
      exact drain_finds _ hDrain

variable {c : ReadCall} {s : Session}

lemma certificate_cap (h : c ∈ handshakeCalls) : c.want = hsCertificate → c.cap = tlsMaxRecord := by
  revert c
  decide

lemma bounded_kept : Kept fun t => t.hsbuf.length ≤ tlsMaxRecord where
  take _ hNext h := by
    have hLength := congrArg length (nextMessage_split hNext).1
    rw [length_append] at hLength
    simp only [takeMessage]
    omega
  record f h := by
    unfold readRecord
    split
    · exact h
    rename_i hRead
    obtain ⟨-, rfl⟩ := tlsReadRecord_eq_some hRead
    unfold dispatchRecord
    split_ifs <;> simp_all

/-- Bodies are copied whole. Only the buffer for the certificate is always large enough; another one
is iff the first message of its type to come has a body of its size. -/
theorem call_fits_iff (s : Session) (c : ReadCall) (hCall : c ∈ handshakeCalls)
    (hBounded : s.conn.hsbuf.length ≤ 20000) : (c.run s).2.1.hsbuf.length ≤ 20000 ∧
      (c.Fits s ↔ c.want = hsCertificate ∨
        ∀ msg, Finds c.want s.conn.hsbuf s.toCome msg → msg.length ≤ 4 + c.cap) := by
  refine ⟨tlsReadHandshake_kept bounded_kept hBounded, fun h => .inr fun msg hFinds => ?_, fun h body hBody => ?_⟩
  · have hFits := h _ (tlsReadHandshake_eq_some_iff.mpr ⟨msg, hFinds, rfl⟩)
    rw [length_drop] at hFits
    omega
  · obtain ⟨msg, hFinds, rfl⟩ := tlsReadHandshake_eq_some_iff.mp hBody
    rw [length_drop]
    rcases h with hCertificate | h
    · have hCap := certificate_cap hCall hCertificate
      have hMsg := hFinds.length_le hBounded
      omega
    · have hMsg := h msg hFinds
      omega

/-- A HelloRequest that is passed over, and a ServerHello cut inside of its header. -/
def cutHello : Session := startClient (onWire [(rtHandshake, [0, 0, 0, 0, 2, 0]), (rtHandshake, [0, 2, 3, 3])])

lemma cutHello_toCome : cutHello.toCome = [[0, 0, 0, 0, 2, 0], [0, 2, 3, 3]].map (note rtHandshake none) := by
  decide +kernel

theorem cutHello_fits : ReadCall.Fits ⟨hsServerHello, 512, true⟩ cutHello := by
  refine (call_fits_iff cutHello ⟨hsServerHello, 512, true⟩ (by simp [handshakeCalls]) (by decide)).2.mpr
    (.inr fun msg h => ?_)
  have hSkip : nextMessage (note rtHandshake none [0, 0, 0, 0, 2, 0]) =
      some (note rtHandshake none [0, 0, 0, 0], note rtHandshake none [2, 0]) := by decide
  have hFound : nextMessage (note rtHandshake none [2, 0] ++ note rtHandshake none [0, 2, 3, 3]) =
      some (note rtHandshake none [2, 0, 0, 2, 3, 3], []) := by decide
  rw [cutHello_toCome] at h
  have h := ((finds_more rfl).mp h).2
  have h := (finds_skip hSkip (by decide)).mp h
  have h := ((finds_more (by decide)).mp h).2
  rw [(finds_found hFound (by decide)).mp h]
  decide

lemma ReadCall.not_fits {body : List UInt8} (hLong : c.cap < body.length) (hLen : body.length ≤ 19996) :
    ¬ c.Fits (startClient ((wire rtHandshake (handshakeMsg c.want body)).map .byte)) := by
  intro h
  have hMax : tlsMaxRecord = 20000 := rfl
  have hMsg := handshakeMsg_length c.want body
  have hFrames := @deframe_wire rtHandshake (handshakeMsg c.want body) [] (by omega)
  rw [append_nil] at hFrames
  have hValues := values_note rtHandshake none (handshakeMsg c.want body)
  obtain ⟨octets, t, hRead, rfl, -⟩ := @tlsReadHandshake_message c.want c.feed
    (.record rtHandshake 3 3 (handshakeMsg c.want body)) [] {} _ body [] rfl rfl
    (by rw [hValues, append_nil]) (by rw [← values_length, hValues]; omega)
  have hFits := h octets (by rw [ReadCall.run, startClient, hFrames]; exact congrArg (·.1) hRead)
  rw [values_length] at hLong
  omega

/-- A ServerHello of 513 bytes is copied to a buffer of 512. -/
theorem long_serverHello_overruns : ¬ ReadCall.Fits ⟨hsServerHello, 512, true⟩
    (startClient ((wire rtHandshake (handshakeMsg hsServerHello (replicate 513 0))).map .byte)) :=
  ReadCall.not_fits (by rw [length_replicate]; decide) (by rw [length_replicate]; decide)

end YartOS.Tls
