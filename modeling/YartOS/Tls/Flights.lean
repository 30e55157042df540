import Mathlib.Data.List.Forall2
import YartOS.Tls.Handshake

/-! What the handshake reader keeps, and what it takes from records that come in the clear. -/
namespace YartOS.Tls

open Programs List

variable {t t' : Conn} {f : Frame} {want : UInt8} {feed : Bool} {inp inp' tail : List Frame}
  {msg more later : List UInt8} {app : Prop}

/-! The reader, a record at a time. -/

/-- What the reader does with the next record; `false` if it gives up. -/
def readRecord (t : Conn) (f : Frame) : Conn × Bool :=
  match tlsReadRecord t f with
  | none => (t, false)
  | some (type, payload, t) => dispatchRecord type payload t

lemma tlsReadRecord_eq_some {type : UInt8} {payload : List Octet} (h : tlsReadRecord t f = some (type, payload, t')) :
    recordData t f = some (type, payload) ∧ t' = { t with sseq := t.sseq + 1 } := by
  obtain ⟨⟨type, payload⟩, hData, hEq⟩ := Option.map_eq_some_iff.mp h
  cases hEq
  exact ⟨hData, rfl⟩

lemma drain_empty (h : t.hsbuf = []) : drain want feed t.hsbuf.length t = (none, t) := by
  rw [h]
  rfl

lemma tlsReadHandshake_found {body : List Octet} (h : drain want feed t.hsbuf.length t = (some body, t')) :
    tlsReadHandshake want feed inp t = (some body, t', inp) := by
  cases inp <;> (rw [tlsReadHandshake]; simp only [h])

lemma tlsReadHandshake_nil (h : drain want feed t.hsbuf.length t = (none, t')) :
    tlsReadHandshake want feed [] t = (none, t', []) := by
  rw [tlsReadHandshake]
  simp only [h]

lemma tlsReadHandshake_more (h : drain want feed t.hsbuf.length t = (none, t')) :
    tlsReadHandshake want feed (f :: inp) t = bif (readRecord t' f).2 then
      tlsReadHandshake want feed inp (readRecord t' f).1 else (none, (readRecord t' f).1, inp) := by
  rw [tlsReadHandshake]
  simp only [h, readRecord]
  rcases hRead : tlsReadRecord t' f with _ | ⟨type, payload, t₁⟩
  · rfl
  · rcases hDispatch : dispatchRecord type payload t₁ with ⟨t₂, _ | _⟩ <;> simp only [hDispatch] <;> rfl

/-- What taking a message and reading a record keep. -/
structure Kept (K : Conn → Prop) : Prop where
  take : ∀ {t msg rest} (feed), nextMessage t.hsbuf = some (msg, rest) → K t → K (takeMessage feed msg rest t)
  record : ∀ {t} (f), K t → K (readRecord t f).1

section Kept

variable {K : Conn → Prop} (kept : Kept K)
include kept

lemma drain_kept (want : UInt8) (feed : Bool) (n : Nat) (ok : K t) : K (drain want feed n t).2 := by
  induction n generalizing t with
  | zero => exact ok
  | succ n ih =>
    rw [drain]
    split
    · exact ok
    rename_i msg rest hNext
    split
    · exact kept.take feed hNext ok
    · exact ih (kept.take feed hNext ok)

/-- What every step keeps, a whole call keeps. -/
lemma tlsReadHandshake_kept (ok : K t) : K (tlsReadHandshake want feed inp t).2.1 := by
  induction inp generalizing t with
  | nil =>
    have hDrained := drain_kept kept want feed t.hsbuf.length ok
    rcases hDrain : drain want feed t.hsbuf.length t with ⟨_ | body, t'⟩ <;> rw [hDrain] at hDrained
    · rwa [tlsReadHandshake_nil hDrain]
    · rwa [tlsReadHandshake_found hDrain]
  | cons f inp ih =>
    have hDrained := drain_kept kept want feed t.hsbuf.length ok
    rcases hDrain : drain want feed t.hsbuf.length t with ⟨_ | body, t'⟩ <;> rw [hDrain] at hDrained
    · rw [tlsReadHandshake_more hDrain]
      cases (readRecord t' f).2
      · exact kept.record f hDrained
      · exact ih (kept.record f hDrained)
    · rwa [tlsReadHandshake_found hDrain]

lemma Kept.read {r : Option (List Octet)} (ok : K t) (h : tlsReadHandshake want feed inp t = (r, t', inp')) : K t' := by
  have hKept : K (tlsReadHandshake want feed inp t).2.1 := tlsReadHandshake_kept kept ok
  rwa [h] at hKept

end Kept

/-! The first flight. -/

def Frame.type? : Frame → Option UInt8
  | .record type _ _ _ => some type
  | _ => none

def Frame.handshakeBytes : Frame → List UInt8
  | .record type _ _ payload => if type = rtHandshake then payload else []
  | _ => []

/-- The bytes of the handshake records, as they come in the clear. -/
def flight (inp : List Frame) : List UInt8 := (inp.map Frame.handshakeBytes).flatten

/-- One whole message of this type. -/
structure IsMessage (type : UInt8) (msg : List UInt8) : Prop where
  type : msg.head? = some type
  header : 4 ≤ msg.length
  length : msg.length = 4 + number msg 1 3

/-- No ChangeCipherSpec, and application data only if `app`. -/
def Clear (app : Prop) (f : Frame) : Prop :=
  f.type? ≠ some rtChangeCipherSpec ∧ (f.type? = some rtApplicationData → app)

/-- Before the records `tail` come these handshake bytes and no others, all in the clear. -/
structure Ahead (app : Prop) (bytes : List UInt8) (tail : List Frame) (t : Conn) (inp : List Frame) : Prop where
  off : t.encRecv = false
  rx : ¬ app → t.rx = []
  clear : ∃ clear, inp = clear ++ tail ∧ (∀ f ∈ clear, Clear app f) ∧ values t.hsbuf ++ flight clear = bytes

lemma IsMessage.msgType {octets : List Octet} (h : IsMessage want msg) (hValues : values octets = msg) :
    msgType octets = some want := by
  rw [Tls.msgType, ← head?_map, ← values, hValues, h.type]

lemma number_append {l : List UInt8} (h : 4 ≤ l.length) (more : List UInt8) : number (l ++ more) 1 3 = number l 1 3 := by
  rw [number, number, drop_append_of_le_length (by omega), take_append_of_le_length (by rw [length_drop]; omega)]

/-- The next message is taken as soon as all of it is there. -/
lemma drain_ahead (feed : Bool) (isMessage : IsMessage want msg) (h : values t.hsbuf ++ later = msg ++ more) :
    (drain want feed t.hsbuf.length t = (none, t) ∧ later ≠ []) ∨
      ∃ octets rest, t.hsbuf = octets ++ rest ∧ values octets = msg ∧ values rest ++ later = more ∧
        drain want feed t.hsbuf.length t = (some (octets.drop 4), takeMessage feed octets rest t) := by
  by_cases hWhole : msg.length ≤ t.hsbuf.length
  · right
    have hHeader := isMessage.header
    have hNumber : number (values t.hsbuf) 1 3 = number msg 1 3 := by
      rw [← number_append (by rw [values_length]; omega) later, h, number_append hHeader]
    have hNext : nextMessage t.hsbuf = some (t.hsbuf.take msg.length, t.hsbuf.drop msg.length) := by
      rw [nextMessage, hNumber, ← isMessage.length, if_pos ⟨by omega, hWhole⟩]
    have hMsg : values (t.hsbuf.take msg.length) = msg := by
      have hTake := congrArg (take msg.length) h
      rwa [take_append_of_le_length (by rwa [values_length]), take_left, values, ← map_take] at hTake
    refine ⟨_, t.hsbuf.drop msg.length, (take_append_drop _ _).symm, hMsg, ?_, ?_⟩
    · have hDrop := congrArg (drop msg.length) h
      rwa [drop_append_of_le_length (by rwa [values_length]), drop_left, values, ← map_drop] at hDrop
    · obtain ⟨n, hn⟩ : ∃ n, t.hsbuf.length = n + 1 := ⟨t.hsbuf.length - 1, by omega⟩
      rw [hn, drain, hNext]
      exact if_pos (isMessage.msgType hMsg)
  · left
    refine ⟨?_, fun hNil => ?_⟩
    · have hNext : nextMessage t.hsbuf = none := by
        rw [nextMessage, if_neg]
        rintro ⟨hFour, hAll⟩
        rw [← number_append (by rwa [values_length]) later, h, number_append isMessage.header,
          ← isMessage.length] at hAll
        exact hWhole hAll
      cases t.hsbuf.length with
      | zero => rfl
      | succ n => rw [drain, hNext]
    · rw [hNil, append_nil] at h
      have hLength := congrArg length h
      rw [values_length, length_append] at hLength
      omega

/-- A record in the clear changes the buffers only. -/
lemma readRecord_clear (off : t.encRecv = false) (hClear : Clear app f) : ∃ sseq rx hsbuf,
    (readRecord t f).1 = { t with sseq := sseq, rx := rx, hsbuf := hsbuf } ∧ (¬ app → t.rx = [] → rx = []) ∧
      ((readRecord t f).2 = true ∨ f.handshakeBytes = [] → values hsbuf = values t.hsbuf ++ f.handshakeBytes) := by
  cases f with
  | late | refused => exact ⟨t.sseq, t.rx, t.hsbuf, rfl, fun _ h => h, fun _ => (append_nil _).symm⟩
  | record type major minor payload =>
    have hRead : readRecord t (.record type major minor payload) =
        dispatchRecord type (note type none payload) { t with sseq := t.sseq + 1 } := by
      rw [readRecord, tlsReadRecord, recordData, if_neg (by simp [off])]
      rfl
    have hCcs : type ≠ rtChangeCipherSpec := fun h => hClear.1 (congrArg some h)
    rw [hRead, dispatchRecord, if_neg hCcs]
    split_ifs with hAlert hApp hRoom hOther hFull
    · exact ⟨_, t.rx, t.hsbuf, rfl, fun _ h => h, fun _ => by simp [Frame.handshakeBytes, hAlert, rtAlert, rtHandshake]⟩
    · exact ⟨_, _, t.hsbuf, rfl, fun hNot => absurd (hClear.2 (congrArg some hApp)) hNot,
        fun _ => by simp [Frame.handshakeBytes, hApp, rtApplicationData, rtHandshake]⟩
    · exact ⟨_, t.rx, t.hsbuf, rfl, fun _ h => h,
        fun _ => by simp [Frame.handshakeBytes, hApp, rtApplicationData, rtHandshake]⟩
    · exact ⟨_, t.rx, t.hsbuf, rfl, fun _ h => h, fun _ => by simp [Frame.handshakeBytes, hOther]⟩
    · refine ⟨_, t.rx, t.hsbuf, rfl, fun _ h => h, fun h => ?_⟩
      rcases h with h | h
      · cases h
      · rw [h, append_nil]
    · refine ⟨_, t.rx, _, rfl, fun _ h => h, fun _ => ?_⟩
      rw [values_append, values_note, Frame.handshakeBytes, if_pos (not_not.mp hOther)]

/-- The message was taken off the connection, and its body is returned. -/
def Took (feed : Bool) (msg : List UInt8) (body : List Octet) (t t' : Conn) : Prop :=
  ∃ octets sseq rx hsbuf, values octets = msg ∧ body = octets.drop 4 ∧ t' = { t with
    sseq := sseq, rx := rx, hsbuf := hsbuf, taken := t.taken ++ [.message octets]
    hs := if feed then sha256Update t.hs msg else t.hs }

/-- A call that returns has taken the next message, and nothing else of the handshake. -/
lemma tlsReadHandshake_ahead (isMessage : IsMessage want msg) {body : List Octet}
    (ahead : Ahead app (msg ++ more) tail t inp) (h : tlsReadHandshake want feed inp t = (some body, t', inp')) :
    Took feed msg body t t' ∧ Ahead app more tail t' inp' := by
  obtain ⟨off, hRx, clear, rfl, hClear, hBytes⟩ := ahead
  induction clear generalizing t with
  | nil =>
    rcases drain_ahead feed isMessage hBytes with ⟨-, hNe⟩ | ⟨octets, rest, -, hMsg, hMore, hDrain⟩
    · exact absurd rfl hNe
    · rw [tlsReadHandshake_found hDrain] at h
      cases h
      exact ⟨⟨octets, t.sseq, t.rx, rest, hMsg, rfl, by rw [takeMessage, hMsg]⟩, off, hRx, [], rfl, hClear, hMore⟩
  | cons f clear ih =>
    rcases drain_ahead feed isMessage hBytes with ⟨hDrain, -⟩ | ⟨octets, rest, -, hMsg, hMore, hDrain⟩
    · obtain ⟨hf, hClear⟩ := forall_mem_cons.mp hClear
      obtain ⟨sseq, rx, hsbuf, hRead, hRx', hBuf⟩ := readRecord_clear off hf
      rw [cons_append, tlsReadHandshake_more hDrain] at h
      cases hMore : (readRecord t f).2 <;> rw [hMore, hRead] at h
      · cases h
      · refine ih (t := { t with sseq := sseq, rx := rx, hsbuf := hsbuf }) off (fun hNot => hRx' hNot (hRx hNot)) h
          hClear ?_
        rw [show values hsbuf = _ from hBuf (.inl hMore), append_assoc]
        exact hBytes
    · rw [tlsReadHandshake_found hDrain] at h
      cases h
      exact ⟨⟨octets, t.sseq, t.rx, rest, hMsg, rfl, by rw [takeMessage, hMsg]⟩,
        off, hRx, f :: clear, rfl, hClear, hMore⟩

/-- A ChangeCipherSpec was taken. -/
def Conn.turnOn (t : Conn) : Conn :=
  { t with encRecv := true, sseq := 0, taken := t.taken ++ [.changeCipherSpec] }

/-- After the flight the next handshake record is the ChangeCipherSpec: a call gives up before it,
or goes on behind it. -/
lemma tlsReadHandshake_waiting {major minor : UInt8} {payload : List UInt8} {post : List Frame} {r : Option (List Octet)}
    (ahead : Ahead app [] (.record rtChangeCipherSpec major minor payload :: post) t inp)
    (h : tlsReadHandshake want feed inp t = (r, t', inp')) : ∃ sseq rx, (¬ app → rx = []) ∧
      ((r = none ∧ t' = { t with sseq := sseq, rx := rx } ∧
          Ahead app [] (.record rtChangeCipherSpec major minor payload :: post) t' inp') ∨
        tlsReadHandshake want feed post (Conn.turnOn { t with rx := rx }) = (r, t', inp')) := by
  obtain ⟨off, hRx, clear, rfl, hClear, hBytes⟩ := ahead
  induction clear generalizing t with
  | nil =>
    have hEmpty : t.hsbuf = [] := map_eq_nil_iff.mp (append_eq_nil_iff.mp hBytes).1
    rw [nil_append, tlsReadHandshake_more (drain_empty hEmpty), readRecord, tlsReadRecord, recordData, if_neg (by simp)] at h
    exact ⟨0, t.rx, hRx, .inr h⟩
  | cons f clear ih =>
    obtain ⟨hValues, hFlight⟩ := append_eq_nil_iff.mp hBytes
    obtain ⟨hNone, hRest : flight clear = []⟩ := append_eq_nil_iff.mp hFlight
    have hEmpty : t.hsbuf = [] := map_eq_nil_iff.mp hValues
    obtain ⟨hf, hClear⟩ := forall_mem_cons.mp hClear
    obtain ⟨sseq, rx, hsbuf, hRead, hRx', hBuf⟩ := readRecord_clear off hf
    have hStill : values hsbuf = [] := by rw [hBuf (.inr hNone), hValues, hNone, append_nil]
    obtain rfl : hsbuf = t.hsbuf := (map_eq_nil_iff.mp hStill).trans hEmpty.symm
    have hQuiet : ¬ app → rx = [] := fun hNot => hRx' hNot (hRx hNot)
    have hLeft : values t.hsbuf ++ flight clear = [] := by rw [hStill, hRest, append_nil]
    rw [cons_append, tlsReadHandshake_more (drain_empty hEmpty), hRead] at h
    cases hMore : (readRecord t f).2 <;> rw [hMore] at h
    · cases h
      exact ⟨sseq, rx, hQuiet, .inl ⟨rfl, rfl, off, hQuiet, clear, rfl, hClear, hLeft⟩⟩
    · exact ih (t := { t with sseq := sseq, rx := rx }) off hQuiet h hClear hLeft

/-- Messages of these types and nothing else of the handshake, and then a ChangeCipherSpec. -/
def Opens (app : Prop) (types : List UInt8) (msgs : List (List UInt8)) (post inp : List Frame) : Prop :=
  Forall₂ IsMessage types msgs ∧ ∃ clear major minor payload,
    inp = clear ++ .record rtChangeCipherSpec major minor payload :: post ∧ (∀ f ∈ clear, Clear app f) ∧
      flight clear = msgs.flatten

end YartOS.Tls
