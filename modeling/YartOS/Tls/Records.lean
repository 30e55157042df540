import YartOS.Tls.Aes
import YartOS.Tls.Hash
import YartOS.Lib.Programs

/-! The record layer: how records are framed, sealed and opened, and handshake messages put
together. Bytes keep notes of their records, which the code does not have. -/
namespace YartOS.Tls

open Programs List

def rtChangeCipherSpec : UInt8 := 20
def rtAlert : UInt8 := 21
def rtHandshake : UInt8 := 22
def rtApplicationData : UInt8 := 23

def tlsAppbuf : Nat := 4096

/-- The most bytes of a record, and of the messages waiting to be put together. -/
def tlsMaxRecord : Nat := 20000

/-- What comes in: a byte, or the deadline of the waiting read. -/
inductive Arrival where
  | byte (b : UInt8)
  | deadline
deriving DecidableEq, Repr

/-- Waits for `n` bytes. What was taken before the deadline is lost. -/
def recvBytes : Nat → List Arrival → Option (List UInt8) × List Arrival
  | 0, arrivals => (some [], arrivals)
  | _ + 1, [] => (none, [])
  | _ + 1, .deadline :: rest => (none, rest)
  | n + 1, .byte b :: rest => ((recvBytes n rest).1.map (b :: ·), (recvBytes n rest).2)

/-- What one call of `tls_read_record` takes off the connection. -/
inductive Frame where
  | record (type major minor : UInt8) (payload : List UInt8)
  /-- A header of zeros, or a length beyond the buffer. -/
  | refused
  /-- The deadline passed. -/
  | late
deriving DecidableEq, Repr

def recvPayload (type major minor : UInt8) (rlen : Nat) (arrivals : List Arrival) : Frame × List Arrival :=
  match recvBytes rlen arrivals with
  | (some payload, rest) => (.record type major minor payload, rest)
  | (none, rest) => (.late, rest)

def recvFrame (arrivals : List Arrival) : Frame × List Arrival :=
  match recvBytes 5 arrivals with
  | (some [type, major, minor, hi, lo], rest) =>
    if type = 0 ∧ major = 0 ∧ minor = 0 ∧ hi = 0 ∧ lo = 0 then (.refused, rest)
    else if tlsMaxRecord < hi.toNat * 256 + lo.toNat then (.refused, rest)
    else recvPayload type major minor (hi.toNat * 256 + lo.toNat) rest
  | (_, rest) => (.late, rest)

def frames : Nat → List Arrival → List Frame
  | 0, _ => []
  | _ + 1, [] => []
  | n + 1, a :: arrivals => (recvFrame (a :: arrivals)).1 :: frames n (recvFrame (a :: arrivals)).2

/-- What calls of `tls_read_record` take; the cuts do not depend on the state. -/
def deframe (arrivals : List Arrival) : List Frame := frames arrivals.length arrivals

structure Keys where
  cMac : List UInt8
  sMac : List UInt8
  cKey : List UInt8
  sKey : List UInt8
  cIv : List UInt8
  sIv : List UInt8
  rkC : List UInt8
  rkS : List UInt8
deriving DecidableEq, Repr

def Keys.zero : Keys where
  cMac := replicate 32 0
  sMac := replicate 32 0
  cKey := replicate 16 0
  sKey := replicate 16 0
  cIv := replicate 16 0
  sIv := replicate 16 0
  rkC := replicate 176 0
  rkS := replicate 176 0

structure Source where
  type : UInt8
  /-- The keys under which its MAC was found right, if the MAC was looked at. -/
  checked : Option Keys
deriving DecidableEq, Repr

structure Octet where
  val : UInt8
  source : Source
deriving DecidableEq, Repr

def values (octets : List Octet) : List UInt8 := octets.map (·.val)

@[simp] lemma values_nil : values [] = [] := rfl

@[simp] lemma values_append (a b : List Octet) : values (a ++ b) = values a ++ values b := by simp [values]

@[simp] lemma values_length (a : List Octet) : (values a).length = a.length := by simp [values]

/-- What the handshake reader has taken off the connection. -/
inductive Taken where
  | message (msg : List Octet)
  | changeCipherSpec
deriving DecidableEq, Repr

/-- `tls_conn_t`, with the reassembly buffer and the records for TCP (`out`). `taken` is a note. -/
structure Conn where
  server : Bool := false
  cseq : Nat := 0
  sseq : Nat := 0
  encSend : Bool := false
  encRecv : Bool := false
  keys : Keys := Keys.zero
  master : List UInt8 := replicate 48 0
  hs : Sha256Ctx := sha256Init
  rx : List Octet := []
  peerClosed : Bool := false
  hsbuf : List Octet := []
  out : List (List UInt8) := []
  taken : List Taken := []
deriving DecidableEq, Repr

def wire (type : UInt8) (payload : List UInt8) : List UInt8 := [type, 3, 3] ++ bigEndian 2 payload.length ++ payload

def tlsSendRecord (type : UInt8) (data : List UInt8) (t : Conn) : Conn :=
  { t with out := t.out ++ [wire type data] }

/-- The MAC of a record; `major` and `minor` are those of its header. -/
def recordMac (key : List UInt8) (seq : Nat) (type major minor : UInt8) (data : List UInt8) : List UInt8 :=
  hmacSha256 key (bigEndian 8 seq ++ [type, major, minor] ++ bigEndian 2 data.length ++ data)

def innerData (key : List UInt8) (seq : Nat) (type : UInt8) (data : List UInt8) : List UInt8 :=
  let pad := 16 - (data.length + 32) % 16
  data ++ recordMac key seq type 3 3 data ++ replicate pad (UInt8.ofNat (pad - 1))

/-- `iv` is what the time stamp counter gives. -/
def tlsSendEncrypted (iv : List UInt8) (type : UInt8) (data : List UInt8)
    (t : Conn) : Conn :=
  let wMac := if t.server then t.keys.sMac else t.keys.cMac
  let wRk := if t.server then t.keys.rkS else t.keys.rkC
  { t with
    out := t.out ++ [wire type (iv ++ Aes.aes128CbcEncrypt wRk iv (innerData wMac t.cseq type data))]
    cseq := t.cseq + 1 }

def macFits (key : List UInt8) (seq : Nat) (type major minor : UInt8) (plain : List UInt8)
    (pad : Nat) : Bool :=
  pad + 32 ≤ plain.length ∧ recordMac key seq type major minor (plain.take (plain.length - pad - 32)) =
      (plain.drop (plain.length - pad - 32)).take 32

/-- Every length is tried, the shortest first. -/
def findPad (key : List UInt8) (seq : Nat) (type major minor : UInt8) (plain : List UInt8) : Option Nat :=
  (range' 1 16).find? (macFits key seq type major minor plain)

def openSealed (t : Conn) (type major minor : UInt8) (payload : List UInt8) : Option (List UInt8) :=
  let rRk := if t.server then t.keys.rkC else t.keys.rkS
  let rMac := if t.server then t.keys.cMac else t.keys.sMac
  let plain := Aes.aes128CbcDecrypt rRk (payload.take 16) (payload.drop 16)
  if payload.length < 16 + 16 + 32 then none
  else (findPad rMac t.sseq type major minor plain).map fun pad =>
    plain.take (plain.length - pad - 32)

def note (type : UInt8) (checked : Option Keys) (data : List UInt8) : List Octet :=
  data.map fun b => ⟨b, type, checked⟩

lemma values_note (type : UInt8) (checked : Option Keys) (data : List UInt8) :
    values (note type checked data) = data := by
  rw [values, note, map_map]
  exact map_id data

/-- The payload, decrypted if the cipher is on, except a ChangeCipherSpec. -/
def recordData (t : Conn) : Frame → Option (UInt8 × List Octet)
  | .record type major minor payload =>
    if t.encRecv = true ∧ type ≠ rtChangeCipherSpec then
      (openSealed t type major minor payload).map fun data =>
        (type, note type (some t.keys) data)
    else some (type, note type none payload)
  | _ => none

def tlsReadRecord (t : Conn) (f : Frame) : Option (UInt8 × List Octet × Conn) :=
  (recordData t f).map fun r => (r.1, r.2, { t with sseq := t.sseq + 1 })

/-- What the handshake reader does with a record; `false` if it gives up. -/
def dispatchRecord (type : UInt8) (payload : List Octet) (t : Conn) : Conn × Bool :=
  if type = rtAlert then (t, false)
  else if type = rtChangeCipherSpec then
    ({ t with encRecv := true, sseq := 0, taken := t.taken ++ [.changeCipherSpec] }, true)
  else if type = rtApplicationData then
    (if t.rx.length + payload.length ≤ tlsAppbuf then { t with rx := t.rx ++ payload } else t, true)
  else if type ≠ rtHandshake then (t, true)
  else if tlsMaxRecord < t.hsbuf.length + payload.length then (t, false)
  else ({ t with hsbuf := t.hsbuf ++ payload }, true)

def number (l : List UInt8) (i width : Nat) : Nat := ((l.drop i).take width).foldl (fun n b => n * 256 + b.toNat) 0

def msgType (msg : List Octet) : Option UInt8 := msg.head?.map (·.val)

/-- The first message of the buffer, if all of it is there, and what follows it. -/
def nextMessage (buf : List Octet) : Option (List Octet × List Octet) :=
  if 4 ≤ buf.length ∧ 4 + number (values buf) 1 3 ≤ buf.length then
    some (buf.take (4 + number (values buf) 1 3), buf.drop (4 + number (values buf) 1 3))
  else none

def takeMessage (feed : Bool) (msg rest : List Octet) (t : Conn) : Conn :=
  { t with
    hsbuf := rest
    hs := if feed then sha256Update t.hs (values msg) else t.hs
    taken := t.taken ++ [.message msg] }

/-- Takes messages up to the one wanted; each has four bytes. -/
def drain (want : UInt8) (feed : Bool) : Nat → Conn → Option (List Octet) × Conn
  | 0, t => (none, t)
  | n + 1, t =>
    match nextMessage t.hsbuf with
    | none => (none, t)
    | some (msg, rest) =>
      if msgType msg = some want then (some (msg.drop 4), takeMessage feed msg rest t)
      else drain want feed n (takeMessage feed msg rest t)

/-- The next message of type `want`; others are passed over. -/
def tlsReadHandshake (want : UInt8) (feed : Bool) :
    List Frame → Conn → Option (List Octet) × Conn × List Frame
  | [], t =>
    match drain want feed t.hsbuf.length t with
    | (some body, t) => (some body, t, [])
    | (none, t) => (none, t, [])
  | f :: inp, t =>
    match drain want feed t.hsbuf.length t with
    | (some body, t) => (some body, t, f :: inp)
    | (none, t) =>
      match tlsReadRecord t f with
      | none => (none, t, inp)
      | some (type, payload, t) =>
        match dispatchRecord type payload t with
        | (t, true) => tlsReadHandshake want feed inp t
        | (t, false) => (none, t, inp)

/-- What one call of `tls_read_appdata` makes of a frame. -/
def tlsReadAppdata (f : Frame) (t : Conn) : Conn :=
  match tlsReadRecord t f with
  | none => t
  | some (type, payload, t) =>
    if type = rtAlert then
      -- close_notify
      if 2 ≤ payload.length ∧ (values payload).take 2 = [1, 0] then
        { t with peerClosed := true }
      else t
    else if type = rtApplicationData then
      { t with rx := t.rx ++ payload.take (tlsAppbuf - t.rx.length) }
    else t

/-- The loop of `tls_recv`, up to data, close or deadline. -/
def recvLoop : List Frame → Conn → Conn × List Frame
  | [], t => (t, [])
  | .late :: inp, t =>
    if t.rx = [] ∧ t.peerClosed = false then (t, inp) else (t, .late :: inp)
  | f :: inp, t =>
    if t.rx = [] ∧ t.peerClosed = false then recvLoop inp (tlsReadAppdata f t)
    else (t, f :: inp)

structure Session where
  conn : Conn
  inp : List Frame
deriving DecidableEq, Repr

def tlsRecv (cap : Nat) (s : Session) : List Octet × Session :=
  let r := recvLoop s.inp s.conn
  (r.1.rx.take cap, ⟨{ r.1 with rx := r.1.rx.drop cap }, r.2⟩)

end YartOS.Tls
