import YartOS.Tls.RoundTrip

/-! CCMP, and the data frames it protects. -/
namespace YartOS.Wifi

open Octets List

variable (P : Primitives)

def ccmB0 (nonce : Octets 13) (mlen alen : Nat) : Octets 16 :=
  ⟨((if alen = 0 then 0x00 else 0x40) ||| 0x18 ||| 0x01) :: (nonce.val ++ (put16 mlen).val), by
    rw [length_cons, length_append, nonce.2, (put16 _).2]⟩

/-- The counter block; the counter has 16 bits. -/
def ccmCtrBlock (nonce : Octets 13) (counter : Nat) : Octets 16 :=
  ⟨0x01 :: (nonce.val ++ (put16 counter).val), by
    rw [length_cons, length_append, nonce.2, (put16 _).2]⟩

def macFeed (key x : Octets 16) (data : List UInt8) : Octets 16 :=
  (blocks data).foldl (fun x block => P.aesEncrypt key (x.xor block)) x

def aadLength (alen : Nat) : List UInt8 :=
  if alen = 0 then []
  else if alen < 0xFF00 then (put16 alen).val
  else [0xFF, 0xFE] ++ ((put16 (alen / 2 ^ 16)).val ++ (put16 alen).val)

variable (key : Octets 16) (nonce : Octets 13) (f : Frame)

def ccmMac (aad pt : List UInt8) : Octets 16 :=
  macFeed P key (macFeed P key (P.aesEncrypt key (ccmB0 nonce pt.length aad.length)) (aadLength aad.length ++ aad)) pt

def ccmCtr (input : List UInt8) : List UInt8 :=
  zipWith (· ^^^ ·) input ((range ((input.length + 15) / 16)).flatMap fun k =>
    (P.aesEncrypt key (ccmCtrBlock nonce (k + 1))).val)

def ccmMic (aad pt : List UInt8) : Octets 8 :=
  ((ccmMac P key nonce aad pt).part 0 8).xor ((P.aesEncrypt key (ccmCtrBlock nonce 0)).part 0 8)

def ccmpEncrypt (aad pt : List UInt8) : List UInt8 × Octets 8 := (ccmCtr P key nonce pt, ccmMic P key nonce aad pt)

def ccmpDecrypt (aad ct : List UInt8) (mic : Octets 8) : Option (List UInt8) :=
  if ccmMic P key nonce aad (ccmCtr P key nonce ct) = mic then some (ccmCtr P key nonce ct) else none

def wifiHdrlen : Nat := 24
def wifiCcmpHdrlen : Nat := 8
def wifiCcmpMiclen : Nat := 8
def wifiSnapHdrlen : Nat := 8

def frameControl : Nat := (f.getD 0 0).toNat + (f.getD 1 0).toNat * 256

def packetNumber : Octets 6 := field f 24 6

/-- The priority, the transmitter and the packet number. -/
def ccmNonce (a2 pn : Octets 6) : Octets 13 := ⟨0 :: (a2.val ++ pn.val), by rw [length_cons, length_append, a2.2, pn.2]⟩

def frameNonce : Octets 13 := ccmNonce (field f 10 6) (packetNumber f)

def frameAad : List UInt8 :=
  let mfc := frameControl f &&& 0xC7FF ||| 0x4000
  [mfc.toUInt8, (mfc / 256).toUInt8] ++ (field f 4 18).val ++ [f.getD 22 0 &&& 0x0f, 0]

def dataHeader (pn : Octets 6) (seq : Nat) (bssid staMac : Mac) (toDs : Bool) (eth : List UInt8) : Frame :=
  let fc := if toDs then 0x4108 else 0x4208
  [Nat.toUInt8 fc, (fc / 256).toUInt8, 0, 0] ++
    ((if toDs then bssid else staMac).val ++ ((if toDs then staMac else bssid).val ++
      ((field eth (if toDs then 0 else 6) 6).val ++
        ([(seq % 16).toUInt8, (seq / 16).toUInt8] ++ (pn.val ++ [0x20, 0x00])))))

def snapHeader : List UInt8 := [0xAA, 0xAA, 0x03, 0x00, 0x00, 0x00]

def wifiDataEncrypt (cap : Nat) (tk : Octets 16) (pn : Octets 6) (seq : Nat) (bssid staMac : Mac)
    (toDs : Bool) (eth : List UInt8) : Option Frame :=
  if eth.length < 14 then none
  else if cap < wifiHdrlen + wifiCcmpHdrlen + (eth.length - 14 + wifiSnapHdrlen) + wifiCcmpMiclen then none
  else
    let header := dataHeader pn seq bssid staMac toDs eth
    let sealed := ccmpEncrypt P tk (frameNonce header) (frameAad header) (snapHeader ++ eth.drop 12)
    some (header ++ (sealed.1 ++ sealed.2.val))

structure Opened where
  dst : Mac
  src : Mac
  ethertype : Nat
  payload : List UInt8
deriving DecidableEq

def wifiDataDecrypt (tk : Octets 16) (f : Frame) : Option Opened :=
  if f.length < wifiHdrlen + wifiCcmpHdrlen + wifiCcmpMiclen then none
  else
    let body := f.drop (wifiHdrlen + wifiCcmpHdrlen)
    let ctLen := body.length - wifiCcmpMiclen
    match ccmpDecrypt P tk (frameNonce f) (frameAad f) (body.take ctLen) (field body ctLen 8) with
    | none => none
    | some pt =>
      if ctLen < 8 ∨ pt.take 3 ≠ [0xAA, 0xAA, 0x03] then none
      else some {
        dst := if frameControl f &&& 0x0100 ≠ 0 then field f 16 6 else field f 4 6
        src := if frameControl f &&& 0x0100 ≠ 0 then field f 10 6 else field f 16 6
        ethertype := be16 pt 6
        payload := pt.drop 8 }

/-- What is read back from the header that was just built. -/
lemma header_fields (pn : Octets 6) (seq : Nat) (bssid staMac : Mac) (toDs : Bool) (eth rest : List UInt8) :
    let h := dataHeader pn seq bssid staMac toDs eth
    h.length = 32 ∧ frameControl (h ++ rest) = (if toDs then 0x4108 else 0x4208) ∧
      field (h ++ rest) 4 6 = (if toDs then bssid else staMac) ∧
      field (h ++ rest) 10 6 = (if toDs then staMac else bssid) ∧
      field (h ++ rest) 16 6 = field eth (if toDs then 0 else 6) 6 ∧ packetNumber (h ++ rest) = pn ∧
      frameNonce (h ++ rest) = frameNonce h ∧ frameAad (h ++ rest) = frameAad h := by
  unfold dataHeader
  generalize field eth _ 6 = a3
  match bssid, staMac, a3, pn with
  | ⟨[_, _, _, _, _, _], _⟩, ⟨[_, _, _, _, _, _], _⟩, ⟨[_, _, _, _, _, _], _⟩, ⟨[_, _, _, _, _, _], _⟩ =>
    cases toDs <;> exact ⟨rfl, by simp [frameControl], rfl, rfl, rfl, rfl, rfl, rfl⟩

lemma frameNonce_header (pn : Octets 6) (seq : Nat) (bssid staMac : Mac) (eth rest : List UInt8) :
    frameNonce (dataHeader pn seq bssid staMac true eth ++ rest) = ccmNonce staMac pn := by
  obtain ⟨-, -, -, hA2, -, hPn, -⟩ := header_fields pn seq bssid staMac true eth rest
  exact congrArg₂ ccmNonce hA2 hPn

variable (pt : List UInt8)

lemma le_keyStream : pt.length ≤ ((range ((pt.length + 15) / 16)).flatMap fun k =>
    (P.aesEncrypt key (ccmCtrBlock nonce (k + 1))).val).length := by
  simp only [length_flatMap, (·.2 : ∀ a : Octets 16, a.val.length = 16), map_const', length_range, sum_replicate_nat]
  omega

lemma length_ccmCtr : (ccmCtr P key nonce pt).length = pt.length := by
  rw [ccmCtr, length_zipWith, Nat.min_eq_left (le_keyStream P key nonce pt)]

/-- The key stream depends on the length only, so a second pass takes it off again. -/
lemma ccmpDecrypt_encrypt (aad : List UInt8) :
    ccmpDecrypt P key nonce aad (ccmCtr P key nonce pt) (ccmMic P key nonce aad pt) = some pt := by
  have hTwice : ccmCtr P key nonce (ccmCtr P key nonce pt) = pt := by
    rw [ccmCtr, length_ccmCtr]
    exact zipWith_xor_self _ _ (le_keyStream P key nonce pt)
  rw [ccmpDecrypt, hTwice, if_pos rfl]

/-- What was encrypted is accepted and read back, in both directions. -/
theorem wifiDataDecrypt_encrypt (cap : Nat) (tk : Octets 16) (pn : Octets 6) (seq : Nat) (bssid staMac : Mac)
    (toDs : Bool) (eth : List UInt8) (long : 14 ≤ eth.length)
    (fits : wifiHdrlen + wifiCcmpHdrlen + (eth.length - 14 + wifiSnapHdrlen) + wifiCcmpMiclen ≤ cap) :
    ∃ f, wifiDataEncrypt P cap tk pn seq bssid staMac toDs eth = some f ∧ wifiDataDecrypt P tk f = some {
      dst := if toDs then field eth 0 6 else staMac
      src := if toDs then staMac else field eth 6 6
      ethertype := be16 eth 12
      payload := eth.drop 14 } := by
  rw [wifiDataEncrypt, if_neg (Nat.not_lt.mpr long), if_neg (Nat.not_lt.mpr fits)]
  refine ⟨_, rfl, ?_⟩
  simp only [ccmpEncrypt]
  have hFields := header_fields pn seq bssid staMac toDs eth
  generalize dataHeader pn seq bssid staMac toDs eth = h at hFields ⊢
  have hOpen := ccmpDecrypt_encrypt P tk (frameNonce h) (snapHeader ++ eth.drop 12) (frameAad h)
  have hCtLen := length_ccmCtr P tk (frameNonce h) (snapHeader ++ eth.drop 12)
  generalize ccmCtr P tk _ _ = ct at hOpen hCtLen ⊢
  generalize ccmMic P tk _ _ _ = mic at hOpen ⊢
  obtain ⟨hLength, hControl, hA1, hA2, hA3, -, hNonce, hAad⟩ := hFields (ct ++ mic.val)
  have hBody : (h ++ (ct ++ mic.val)).drop 32 = ct ++ mic.val := drop_left' hLength
  have hMic : field (ct ++ mic.val) ct.length 8 = mic := field_eq ct [] (by rw [append_nil]) rfl
  have hMicAt : (ct ++ mic.val).length - 8 = ct.length := by rw [length_append, mic.2, Nat.add_sub_cancel]
  have hLong : 8 ≤ ct.length := by
    rw [hCtLen, length_append, length_drop, show snapHeader.length = 6 from rfl]
    omega
  have hType : be16 (snapHeader ++ eth.drop 12) 6 = be16 eth 12 := rfl
  have hPayload : (snapHeader ++ eth.drop 12).drop 8 = eth.drop 14 := drop_drop
  have hSnap : (snapHeader ++ eth.drop 12).take 3 = [0xAA, 0xAA, 0x03] := rfl
  unfold wifiDataDecrypt wifiHdrlen wifiCcmpHdrlen wifiCcmpMiclen
  rw [if_neg (by rw [length_append, length_append, hLength]; omega)]
  simp only [Nat.reduceAdd, hBody, hMicAt, take_left, hMic, hNonce, hAad, hOpen]
  rw [if_neg (not_or.mpr ⟨Nat.not_lt.mpr hLong, not_not.mpr hSnap⟩)]
  rw [hControl, hA1, hA2, hA3, hType, hPayload]
  cases toDs <;> rfl

theorem two_bytes_decrypted : let P := Tls.aesPrimitives fun _ _ => zero 20
    ∃ f, wifiDataEncrypt P 50 (zero 16) (zero 6) 0 (zero 6) (zero 6) true (replicate 16 7) = some f ∧
      wifiDataDecrypt P (zero 16) f = some ⟨field (replicate 6 7) 0 6, zero 6, 0x0707, [7, 7]⟩ :=
  wifiDataDecrypt_encrypt _ 50 _ _ 0 _ _ true (replicate 16 7) (by decide) (by decide)

end YartOS.Wifi
