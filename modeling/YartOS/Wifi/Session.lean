import YartOS.Wifi.Eapol
import YartOS.Wifi.Data
import YartOS.Lib.Programs

/-!
The station of a Wi-Fi session: joining a network over a transport for frames, and the data path
after that.
-/
namespace YartOS.Wifi

open Octets Programs

inductive StaState where
  | disconnected | authenticating | associating | associated | connected
deriving DecidableEq, Repr

/-- A network that was found; the name ends before its NUL. -/
structure Bss where
  bssid : Mac
  ssid : List UInt8
  channel : Nat

structure Station where
  state : StaState := .disconnected
  staMac : Mac := zero 6
  bssid : Mac := zero 6
  ssid : List UInt8 := []
  channel : Nat := 0
  aid : Nat := 0
  seq : Nat := 0
  eapol : Supplicant := {}
  pmkSet : Bool := false
  tk : Octets 16 := zero 16
  tkInstalled : Bool := false
deriving DecidableEq

variable (P : Primitives)

def wifiStaInit (staMac : Mac) : Station := { staMac }

variable (s : Station) (f : Frame)

def wifiStaSetPmk (pmk : Octets 32) : Station :=
  { s with eapol := { s.eapol with pmk }, pmkSet := true }

def wifiStaSetPassphrase (passphrase ssid : List UInt8) : Station :=
  wifiStaSetPmk s (pbkdf2HmacSha1 P passphrase ssid 4096 32)

def wifiStaStartJoin (bss : Bss) : Station :=
  let s := { s with bssid := bss.bssid, ssid := bss.ssid.take 32, channel := bss.channel, seq := 0, aid := 0,
                    state := .authenticating }
  if s.pmkSet then { s with eapol := eapolInit s.eapol s.eapol.pmk s.bssid s.staMac } else s

def putLe16 (v : Nat) : List UInt8 := [v.toUInt8, (v / 256).toUInt8]

def le16 (i : Nat) : Nat := (f.getD i 0).toNat + (f.getD (i + 1) 0).toNat * 256

def mgmtFc (subtype : Nat) : Nat := subtype * 16

def wifiStAssocReq : Nat := 0
def wifiStAssocResp : Nat := 1
def wifiStAuth : Nat := 11

def mgmtHdr (fc : Nat) (da sa bssid : Mac) : Frame :=
  putLe16 fc ++ putLe16 0 ++ da.val ++ sa.val ++ bssid.val ++ putLe16 0

def wifiBuildAuth (bssid sta : Mac) (seq : Nat) : Frame :=
  mgmtHdr (mgmtFc wifiStAuth) bssid sta bssid ++ putLe16 0 ++ putLe16 seq ++ putLe16 0

def basicRates : List UInt8 := [0x82, 0x84, 0x8b, 0x96]

def wifiBuildAssocReq (bssid sta : Mac) (ssid : List UInt8) : Frame :=
  let name := ssid.take 32
  mgmtHdr (mgmtFc wifiStAssocReq) bssid sta bssid ++ putLe16 0x0431 ++ putLe16 10 ++
    [0, name.length.toUInt8] ++ name ++ [1, 4] ++ basicRates ++ rsnIe

def wifiParseAuthResp : Option Nat :=
  if f.length < 30 ∨ le16 f 0 ≠ mgmtFc wifiStAuth then none else some (le16 f 28)

def wifiParseAssocResp : Option (Nat × Nat) :=
  if f.length < 30 ∨ le16 f 0 ≠ mgmtFc wifiStAssocResp then none else some (le16 f 26, le16 f 28)

def wifiStaBuildAuth : Option (Frame × Station) :=
  if s.state ≠ .authenticating then none
  else some (wifiBuildAuth s.bssid s.staMac (s.seq + 1), { s with seq := s.seq + 2 })

def wifiStaOnAuthResp : Option Station :=
  match wifiParseAuthResp f with
  | some 0 => some (if s.state = .authenticating then { s with state := .associating } else s)
  | _ => none

def wifiStaBuildAssoc : Option Frame :=
  if s.state ≠ .associating then none else some (wifiBuildAssocReq s.bssid s.staMac s.ssid)

def wifiStaOnAssocResp : Option Station :=
  match wifiParseAssocResp f with
  | some (0, aid) =>
    some (if s.state = .associating then { s with aid, state := .associated } else { s with aid })
  | _ => none

/-- What `wifi_sta_eapol_in` answers: an error, nothing, or a frame. -/
inductive Answer where
  | failed
  | silent
  | reply (f : Frame)
deriving DecidableEq

/-- `-1` where a frame could not be built. -/
def answer : Option Frame → Answer
  | none => .failed
  | some f => .reply f

def Station.connect (s : Station) (eapol : Supplicant) : Station :=
  { s with eapol, tk := Wifi.tk eapol.ptk, tkInstalled := true, state := .connected }

def wifiStaEapolIn (s : Station) (f : Frame) (cap : Nat) : Option (Answer × Station) :=
  if !s.pmkSet then some (.failed, s)
  else if eapolKeyMsgType f = 1 then
    match eapolProcessMsg1 P s.eapol f with
    | none => some (.failed, s)
    | some eapol => some (answer (eapolBuildMsg2 P eapol cap), { s with eapol })
  else if eapolKeyMsgType f = 3 then
    match eapolProcessMsg3 P s.eapol f with
    | none => none
    | some (false, eapol) => some (.failed, { s with eapol })
    | some (true, eapol) => some (answer (eapolBuildMsg4 P eapol cap), s.connect eapol)
  else some (.silent, s)

def wifiStaConnected (s : Station) : Bool := s.state == .connected

inductive Rx where
  | frame (f : Frame)
  | nothing
  | error

/-- A transport with its own state, which keeps to its buffers. -/
structure Transport (σ : Type) where
  /-- Whether the frame was sent. -/
  tx : σ → Frame → Bool × σ
  rx : σ → Rx × σ
  delayMs : σ → Nat → σ

structure Session (σ : Type) where
  ctx : σ
  sta : Station
  pnTx : Octets 6 := zero 6
  seqTx : Nat := 0

def etherEapol : Nat := 0x888E

def dataBuild (fcExtra : Nat) (a1 a2 a3 : Mac) (etype : Nat) : Frame :=
  putLe16 (0x0008 + fcExtra) ++ ([0, 0] ++ (a1.val ++ (a2.val ++ (a3.val ++ ([0, 0] ++
    ([0xAA, 0xAA, 0x03, 0x00, 0x00, 0x00] ++ (put16 etype).val))))))

/-- A data frame with an EAPOL-Key frame after the 802.1X header. -/
def eapolData (fcExtra : Nat) (a1 a2 a3 : Mac) (kd : Frame) : Frame :=
  dataBuild fcExtra a1 a2 a3 etherEapol ++ ([0x01, 0x03] ++ ((put16 kd.length).val ++ kd))

def eapolBuild (cap : Nat) (bssid sta : Mac) (toDs : Bool) (kd : Frame) : Option Frame :=
  if cap < 36 + kd.length then none
  else if toDs then some (eapolData 0x0100 bssid sta bssid kd)
  else some (eapolData 0x0200 sta bssid bssid kd)

def eapolParse (f : Frame) : Option Frame :=
  if f.length < 36 then none
  else if frameControl f / 4 % 4 ≠ 2 then none
  else if (field f 24 3).val ≠ [0xAA, 0xAA, 0x03] then none
  else if (field f 30 2).val ≠ [0x88, 0x8E] then none
  else if (field f 32 2).val ≠ [0x01, 0x03] then none
  else if f.length < 36 + be16 f 34 then none
  else some ((f.drop 36).take (be16 f 34))

variable {σ : Type} (tr : Transport σ)

/-- A program that stops returns an error to its caller, or is undefined. -/
def sessSend (f : Frame) : Prog (Session σ) PUnit := fun s =>
  let r := tr.tx s.ctx f
  if r.1 then some (⟨⟩, { s with ctx := r.2 }) else none

def sessRecvUntil : Nat → Prog (Session σ) Frame
  | 0, _ => none
  | polls + 1, s =>
    match tr.rx s.ctx with
    | (.frame f, ctx) => some (f, { s with ctx })
    | (.error, _) => none
    | (.nothing, ctx) => sessRecvUntil polls { s with ctx := tr.delayMs ctx 10 }

def onSta (change : Station → Option Station) : Prog (Session σ) PUnit := fun s =>
  (change s.sta).map fun sta => (⟨⟩, { s with sta })

/-- Feeds a frame to the station and sends its answer. -/
def eapolRound (kd : Frame) : Prog (Session σ) PUnit := fun s =>
  match wifiStaEapolIn P s.sta kd 512 with
  | none => none
  | some (.failed, _) => none
  | some (.silent, sta) => some (⟨⟩, { s with sta })
  | some (.reply r, sta) =>
    match eapolBuild 2048 sta.bssid sta.staMac true r with
    | none => none
    | some f => sessSend tr f { s with sta }

/-- The rounds of the handshake; gives the EAPOL-Key frames that were taken in. -/
def fourWay : Nat → Prog (Session σ) (List Frame)
  | 0 => pure []
  | rounds + 1 => do
      let f ← sessRecvUntil tr 200
      let kd ← ofOption (eapolParse f)
      eapolRound P tr kd
      if wifiStaConnected (← get).sta then
        pure [kd]
      else
        let rest ← fourWay rounds
        pure (kd :: rest)

def wifiSessionJoin (bss : Bss) (passphrase : List UInt8) : Prog (Session σ) (List Frame) := do
  onSta fun sta => some (wifiStaStartJoin (wifiStaSetPassphrase P sta passphrase bss.ssid) bss)
  let auth ← ofOption (wifiStaBuildAuth (← get).sta)
  onSta fun _ => some auth.2
  sessSend tr auth.1
  let authResp ← sessRecvUntil tr 200
  onSta fun sta => wifiStaOnAuthResp sta authResp
  let assoc ← ofOption (wifiStaBuildAssoc (← get).sta)
  sessSend tr assoc
  let assocResp ← sessRecvUntil tr 200
  onSta fun sta => wifiStaOnAssocResp sta assocResp
  let heard ← fourWay P tr 4
  require (wifiStaConnected (← get).sta = true)
  pure heard

/-- The frame that is handed to the transport, if one could be built. -/
def wifiSessionSendData (s : Session σ) (eth : List UInt8) : Option Frame × Session σ :=
  let built := wifiDataEncrypt P 2048 s.sta.tk s.pnTx s.seqTx s.sta.bssid s.sta.staMac true eth
  let s := { s with seqTx := (s.seqTx + 1) % 2 ^ 16 }
  match built with
  | none => (none, s)
  | some f => (some f, { s with ctx := (tr.tx s.ctx f).2 })

/-- What `wifi_session_recv_data` returns: 0, -1, or 1 with what was received. -/
inductive Received where
  | nothing
  | failed
  | data (opened : Opened)
deriving DecidableEq

/-- `wifi_session_recv_data` when the transport delivers the frame `f`. -/
def wifiSessionRecvData (s : Station) (f : Frame) (cap : Nat) : Received :=
  if frameControl f / 4 % 4 ≠ 2 then .nothing
  else match wifiDataDecrypt P s.tk f with
    | none => .failed
    | some opened => if cap < opened.payload.length then .failed else .data opened

end YartOS.Wifi
