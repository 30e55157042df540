import YartOS.Wifi.Wpa

/-!
The EAPOL-Key frames of the four-way handshake, and the side of the station in it.
-/
namespace YartOS.Wifi

open Octets List

def descWpa : UInt8 := 254
def descRsn : UInt8 := 2

def wpaKiVersion : Nat := 0x0002
def wpaKiType : Nat := 0x0008
def wpaKiInstall : Nat := 0x0040
def wpaKiAck : Nat := 0x0080
def wpaKiMic : Nat := 0x0100
def wpaKiSecure : Nat := 0x0200
def wpaKiEncr : Nat := 0x1000

/-- A frame as both sides build it: the IV, the RSC and the ID are zero. -/
def keyFrame (desc : UInt8) (info keyLen replay : Nat) (nonce : Octets 32) (mic : Octets 16)
    (data : List UInt8) : Frame :=
  desc :: ((put16 info).val ++ ((put16 keyLen).val ++ ((put64 replay).val ++ (nonce.val ++
    ((zero 32).val ++ (mic.val ++ ((put16 data.length).val ++ data)))))))

section

variable (f : Frame)

def desc : UInt8 := f.getD 0 0
def keyInfo : Nat := be16 f 1
def replayCounter : Nat := be64 f 5
def keyNonce : Octets 32 := field f 13 32
def keyMic : Octets 16 := field f 77 16
def keyDataLen : Nat := be16 f 93
def keyData : List UInt8 := f.drop 95

def understood : Bool := desc f == descWpa || desc f == descRsn

def hasAck : Bool := keyInfo f &&& wpaKiAck != 0
def hasMic : Bool := keyInfo f &&& wpaKiMic != 0
def hasSecure : Bool := keyInfo f &&& wpaKiSecure != 0
def hasEncr : Bool := keyInfo f &&& wpaKiEncr != 0

/-- Which message of the handshake a frame is; 0 is none. -/
def eapolKeyMsgType : Nat :=
  if f.length < 95 then 0
  else if !understood f then 0
  else if hasAck f && !hasMic f then 1
  else if !hasAck f && hasMic f then (if hasSecure f then 4 else 2)
  else if hasAck f && hasMic f then 3
  else 0

def zeroMic : Frame := f.take 77 ++ ((zero 16).val ++ f.drop 93)

end

variable (P : Primitives)

/-- The frame is copied into 256 bytes on the stack; a longer one is undefined. -/
def micFrame (kck : Octets 16) (f : Frame) : Option (Octets 16) :=
  if f.length ≤ 256 then some (wpaEapolMic P kck (zeroMic f)) else none

def signedFrame (kck : Octets 16) (desc : UInt8) (info keyLen replay : Nat) (nonce : Octets 32)
    (data : List UInt8) : Frame :=
  keyFrame desc info keyLen replay nonce
    (wpaEapolMic P kck (keyFrame desc info keyLen replay nonce (zero 16) data)) data

def kck (ptk : Octets 48) : Octets 16 := ptk.part 0 16
def kek (ptk : Octets 48) : Octets 16 := ptk.part 16 16
def tk (ptk : Octets 48) : Octets 16 := ptk.part 32 16

structure Supplicant where
  pmk : Octets 32 := zero 32
  aa : Mac := zero 6
  spa : Mac := zero 6
  anonce : Octets 32 := zero 32
  snonce : Octets 32 := zero 32
  ptk : Octets 48 := zero 48
  replayCounter : Nat := 0
  havePtk : Bool := false
  haveGtk : Bool := false
  gtk : Octets 32 := zero 32
  gtkLen : Nat := 0
  gtkKeyId : Nat := 0
deriving DecidableEq

variable (s : Supplicant) (f : Frame)

/-- The group key is kept. -/
def eapolInit (pmk : Octets 32) (aa spa : Mac) : Supplicant :=
  { s with pmk, aa, spa, replayCounter := 0, havePtk := false, haveGtk := false, gtkLen := 0,
           gtkKeyId := 0, anonce := zero 32, snonce := zero 32, ptk := zero 48 }

/-- The nonce of the station, which is always the same. -/
def stationNonce : Octets 32 := ⟨ofFn fun i : Fin 32 => (0x22 + i.val).toUInt8, by simp⟩

def Supplicant.derive : Supplicant :=
  { s with anonce := keyNonce f, replayCounter := Wifi.replayCounter f, snonce := stationNonce,
           ptk := wpaPtkDerive P s.pmk s.aa s.spa (keyNonce f) stationNonce, havePtk := true }

def eapolProcessMsg1 : Option Supplicant :=
  if f.length < 95 then none
  else if !understood f then none
  else if !hasAck f then none
  else if hasMic f then none
  else some (s.derive P f)

def rsnIe : List UInt8 :=
  [0x30, 0x14, 0x01, 0x00, 0x00, 0x0f, 0xac, 0x04, 0x01, 0x00, 0x00,
    0x0f, 0xac, 0x04, 0x01, 0x00, 0x00, 0x0f, 0xac, 0x02, 0x00, 0x00]

def Supplicant.signed (info keyLen : Nat) (nonce : Octets 32) (data : List UInt8) : Option Frame :=
  (micFrame P (kck s.ptk) (keyFrame descWpa info keyLen s.replayCounter nonce (zero 16) data)).map
    fun mic => keyFrame descWpa info keyLen s.replayCounter nonce mic data

def eapolBuildMsg2 (cap : Nat) : Option Frame :=
  if !s.havePtk || cap < 95 + 22 then none
  else s.signed P (wpaKiVersion ||| wpaKiType ||| wpaKiMic) 16 s.snonce rsnIe

def eapolBuildMsg4 (cap : Nat) : Option Frame :=
  if !s.havePtk || cap < 95 then none
  else s.signed P (wpaKiVersion ||| wpaKiType ||| wpaKiMic ||| wpaKiSecure) 0 (zero 32) []

/-- 16 bytes of the group key are written even if unwrapping fails. -/
def Supplicant.unwrapGtk : Bool × Supplicant :=
  let r := aesKeyUnwrap P (kek s.ptk) (keyData f) 2
  (r.1, { s with gtk := (field r.2 0 16).append (s.gtk.part 16 16) })

def Supplicant.install : Bool × Supplicant :=
  let s := { s with replayCounter := Wifi.replayCounter f }
  if !hasEncr f then (true, { s with haveGtk := true })
  else if keyDataLen f ≠ 24 ∨ f.length < 95 + keyDataLen f then (false, s)
  else match s.unwrapGtk P f with
    | (true, s) => (true, { s with gtkLen := 16, gtkKeyId := keyInfo f / 16 % 4, haveGtk := true })
    | (false, s) => (false, s)

def eapolProcessMsg3 : Option (Bool × Supplicant) :=
  if f.length < 95 ∨ s.havePtk = false then some (false, s)
  else if !understood f then some (false, s)
  else if !hasMic f || !hasAck f then some (false, s)
  else (micFrame P (kck s.ptk) f).map fun got =>
    if keyMic f ≠ got then (false, s)
    else if keyNonce f ≠ s.anonce then (false, s)
    else s.install P f

variable (d : UInt8) (info keyLen replay : Nat) (nonce : Octets 32) (mic : Octets 16) (data : List UInt8)

lemma length_keyFrame : (keyFrame d info keyLen replay nonce mic data).length = 95 + data.length := by
  simp only [keyFrame, length_cons, length_append, (put16 _).2, (put64 _).2, nonce.2, mic.2, (zero 32).2]
  omega

def micHead : List UInt8 :=
  d :: ((put16 info).val ++ ((put16 keyLen).val ++ ((put64 replay).val ++ (nonce.val ++ (zero 32).val))))

lemma length_micHead : (micHead d info keyLen replay nonce).length = 77 := by
  simp [micHead, length_cons, length_append, (put16 _).2, (put64 _).2, nonce.2, (zero 32).2]

lemma keyFrame_eq : keyFrame d info keyLen replay nonce mic data =
    micHead d info keyLen replay nonce ++ (mic.val ++ ((put16 data.length).val ++ data)) := by
  simp [keyFrame, micHead, cons_append, append_assoc]

variable {d info keyLen replay nonce mic data}

lemma keyInfo_keyFrame (h : info < 2 ^ 16) : keyInfo (keyFrame d info keyLen replay nonce mic data) = info := by
  have hField : field (keyFrame d info keyLen replay nonce mic data) 1 2 = put16 info := field_eq [d] _ rfl rfl
  rw [keyInfo, be16, hField, value_put16 h]

@[simp] lemma keyNonce_keyFrame : keyNonce (keyFrame d info keyLen replay nonce mic data) = nonce :=
  field_eq (d :: ((put16 info).val ++ ((put16 keyLen).val ++ (put64 replay).val)))
    ((zero 32).val ++ (mic.val ++ ((put16 data.length).val ++ data))) rfl rfl

@[simp] lemma keyMic_keyFrame : keyMic (keyFrame d info keyLen replay nonce mic data) = mic :=
  field_eq (micHead d info keyLen replay nonce) _ (keyFrame_eq ..) (length_micHead ..)

lemma keyDataLen_keyFrame (h : data.length < 2 ^ 16) :
    keyDataLen (keyFrame d info keyLen replay nonce mic data) = data.length := by
  have hField : field (keyFrame d info keyLen replay nonce mic data) 93 2 = put16 data.length :=
    field_eq (micHead d info keyLen replay nonce ++ mic.val) data
      (by rw [keyFrame_eq, append_assoc]) (by rw [length_append, length_micHead, mic.2])
  rw [keyDataLen, be16, hField, value_put16 h]

@[simp] lemma keyData_keyFrame : keyData (keyFrame d info keyLen replay nonce mic data) = data := by
  have hSplit : keyFrame d info keyLen replay nonce mic data =
      (micHead d info keyLen replay nonce ++ (mic.val ++ (put16 data.length).val)) ++ data := by
    rw [keyFrame_eq, append_assoc, append_assoc]
  rw [keyData, hSplit, drop_left']
  rw [length_append, length_append, length_micHead, mic.2, (put16 _).2]

/-- The MIC is over the frame before it is put in. -/
@[simp] lemma zeroMic_keyFrame : zeroMic (keyFrame d info keyLen replay nonce mic data) =
    keyFrame d info keyLen replay nonce (zero 16) data := by
  have hHead := length_micHead d info keyLen replay nonce
  have hDrop : (keyFrame d info keyLen replay nonce mic data).drop 93 = (put16 data.length).val ++ data := by
    rw [keyFrame_eq, ← append_assoc, drop_left']
    rw [length_append, hHead, mic.2]
  rw [zeroMic, hDrop, keyFrame_eq, take_left' hHead, keyFrame_eq]

/-- What the receiver of a frame computes as its MIC. -/
lemma micFrame_keyFrame {d : UInt8} {info keyLen replay : Nat} {nonce : Octets 32} {mic : Octets 16}
    {data : List UInt8} (h : data.length ≤ 161) (kck : Octets 16) :
    micFrame P kck (keyFrame d info keyLen replay nonce mic data) =
      some (wpaEapolMic P kck (keyFrame d info keyLen replay nonce (zero 16) data)) := by
  rw [micFrame, if_pos (by rw [length_keyFrame]; omega), zeroMic_keyFrame]

end YartOS.Wifi
