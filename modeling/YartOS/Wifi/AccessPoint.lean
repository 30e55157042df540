import YartOS.Wifi.Join

/-! The simulated access point of the self-test, and its four-way handshake with the station. -/
namespace YartOS.Wifi

open Octets Programs List Option Bool

structure AccessPoint where
  bssid : Mac
  staMac : Mac
  pmk : Octets 32
  anonce : Octets 32
  snonce : Octets 32 := zero 32
  ptk : Octets 48 := zero 48
  gtk : Octets 16
  rctr : Nat
  hskDone : Bool := false
  out : Frame := []
  outPending : Bool := false
  m1Pending : Bool := false
  lastRx : List UInt8 := []
  gotData : Bool := false
deriving DecidableEq

variable (P : Primitives)

def apVerifyMic (kck : Octets 16) (f : Frame) : Bool := micFrame P kck f == some (keyMic f)

variable (ap : AccessPoint) (f : Frame)

def AccessPoint.queue : AccessPoint := { ap with out := f, outPending := true }

def apProbeResp : AccessPoint :=
  ap.queue ([0x50, 0x00, 0, 0] ++ ap.staMac.val ++ ap.bssid.val ++ ap.bssid.val ++ [0, 0] ++ (zero 8).val ++
    [0x64, 0x00, 0x31, 0x04] ++ [0x00, 7] ++ "YartNet".toUTF8.toList ++ [0x01, 4] ++ basicRates ++
    [0x03, 1, 6] ++ rsnIe)

def apAuthResp : AccessPoint :=
  { ap with staMac := field f 10 6 }.queue ([0xb0, 0x00] ++ (field f 2 2).val ++ (field f 10 6).val ++
    ap.bssid.val ++ ap.bssid.val ++ (field f 22 6).val ++ [0, 0])

def apAssocResp : AccessPoint :=
  { ap with m1Pending := true }.queue ([0x10, 0x00] ++ (field f 2 2).val ++ (field f 10 6).val ++
    ap.bssid.val ++ ap.bssid.val ++ [0, 0, 0x31, 0x04, 0, 0, 0x01, 0xc0])

def AccessPoint.queueKey (kd : Frame) : Option AccessPoint := (eapolBuild 2048 ap.bssid ap.staMac false kd).map ap.queue

def infoMsg1 : Nat := wpaKiVersion ||| wpaKiType ||| wpaKiAck

def infoMsg3 : Nat :=
  wpaKiVersion ||| wpaKiType ||| wpaKiAck ||| wpaKiMic ||| wpaKiInstall ||| wpaKiEncr ||| wpaKiSecure

def apQueueM1 : AccessPoint := (ap.queueKey (keyFrame descRsn infoMsg1 16 ap.rctr ap.anonce (zero 16) [])).getD ap

/-- Message 3 carries the wrapped group key. -/
def AccessPoint.msg3 : Frame :=
  signedFrame P (kck ap.ptk) descRsn infoMsg3 16 ap.rctr ap.anonce (aesKeyWrap P (kek ap.ptk) ap.gtk.val 2)

def apSendM3 : Bool × AccessPoint :=
  let ap := { ap with rctr := (ap.rctr + 1) % 2 ^ 64 }
  match ap.queueKey (ap.msg3 P) with
  | none => (false, ap)
  | some ap => (true, ap)

/-- The pairwise key is derived before the MIC is checked. -/
def AccessPoint.derive (kd : Frame) : AccessPoint :=
  { ap with snonce := keyNonce kd, ptk := wpaPtkDerive P ap.pmk ap.bssid ap.staMac ap.anonce (keyNonce kd) }

def apEapol (kd : Frame) : Bool × AccessPoint :=
  if eapolKeyMsgType kd = 2 then
    let ap := ap.derive P kd
    if apVerifyMic P (kck ap.ptk) kd then apSendM3 P ap else (false, ap)
  else if eapolKeyMsgType kd = 4 then
    if apVerifyMic P (kck ap.ptk) kd then (true, { ap with hskDone := true }) else (false, ap)
  else (true, ap)

def apData : Bool × AccessPoint :=
  if 2048 < f.length then (false, ap)
  else match wifiDataDecrypt P (tk ap.ptk) f with
    | none => (false, ap)
    | some opened => (true, { ap with lastRx := opened.payload, gotData := true })

def wifiStProbeReq : Nat := 4

def apHandle : Bool × AccessPoint :=
  if f.length < 24 then (true, ap)
  else if frameControl f / 4 % 4 = 0 then
    if frameControl f / 16 % 16 = wifiStProbeReq then (true, apProbeResp ap)
    else if frameControl f / 16 % 16 = wifiStAuth then (true, apAuthResp ap f)
    else if frameControl f / 16 % 16 = wifiStAssocReq then (true, apAssocResp ap f)
    else (true, ap)
  else if frameControl f / 4 % 4 = 2 then
    match eapolParse f with
    | some kd => apEapol P ap kd
    | none => apData P ap f
  else (true, ap)

def apRx : Rx × AccessPoint :=
  if ap.outPending then (.frame ap.out, { ap with outPending := false })
  else if ap.m1Pending then
    (.frame (apQueueM1 { ap with m1Pending := false }).out,
      { apQueueM1 { ap with m1Pending := false } with outPending := false })
  else (.nothing, ap)

def apTransport : Transport AccessPoint where
  tx := apHandle P
  rx := apRx
  delayMs ap _ := ap

variable {bssid sta : Mac} {toDs : Bool} {kd f : Frame}

lemma length_dataBuild (fcExtra : Nat) (a1 a2 a3 : Mac) (etype : Nat) :
    (dataBuild fcExtra a1 a2 a3 etype).length = 32 := by
  simp [dataBuild, putLe16, length_append, length_cons, a1.2, a2.2, a3.2, (put16 etype).2]

/-- The EAPOL-Key frame is read back from the data frame around it. -/
lemma eapolParse_eapolData {fcExtra : Nat} (a1 a2 a3 : Mac) (hLen : kd.length < 2 ^ 16)
    (hData : frameControl (putLe16 (0x0008 + fcExtra)) / 4 % 4 = 2) :
    eapolParse (eapolData fcExtra a1 a2 a3 kd) = some kd := by
  have hHead := length_dataBuild fcExtra a1 a2 a3 etherEapol
  have hControl : frameControl (eapolData fcExtra a1 a2 a3 kd) / 4 % 4 = 2 := hData
  have hLlc : field (eapolData fcExtra a1 a2 a3 kd) 24 3 = ⟨[0xAA, 0xAA, 0x03], rfl⟩ :=
    field_eq (putLe16 (0x0008 + fcExtra) ++ ([0, 0] ++ (a1.val ++ (a2.val ++ (a3.val ++ [0, 0])))))
      ([0x00, 0x00, 0x00] ++ ((put16 etherEapol).val ++ ([0x01, 0x03] ++ ((put16 kd.length).val ++ kd))))
      (by simp [eapolData, dataBuild]) (by simp [putLe16, a1.2, a2.2, a3.2])
  have hEther : field (eapolData fcExtra a1 a2 a3 kd) 30 2 = ⟨[0x88, 0x8E], rfl⟩ :=
    field_eq (putLe16 (0x0008 + fcExtra) ++ ([0, 0] ++ (a1.val ++ (a2.val ++ (a3.val ++ ([0, 0] ++
      [0xAA, 0xAA, 0x03, 0x00, 0x00, 0x00])))))) ([0x01, 0x03] ++ ((put16 kd.length).val ++ kd))
      (by simp [eapolData, dataBuild, etherEapol, put16]) (by simp [putLe16, a1.2, a2.2, a3.2])
  have hKey : field (eapolData fcExtra a1 a2 a3 kd) 32 2 = ⟨[0x01, 0x03], rfl⟩ :=
    field_eq _ ((put16 kd.length).val ++ kd) rfl hHead
  have hSize : field (eapolData fcExtra a1 a2 a3 kd) 34 2 = put16 kd.length :=
    field_eq (dataBuild fcExtra a1 a2 a3 etherEapol ++ [0x01, 0x03]) kd (by simp [eapolData]) (by simp [hHead])
  have hDrop : (eapolData fcExtra a1 a2 a3 kd).drop 36 = kd := by
    rw [eapolData, ← append_assoc, ← append_assoc, drop_left']
    simp [hHead, (put16 kd.length).2]
  have hTotal : (eapolData fcExtra a1 a2 a3 kd).length = 36 + kd.length := by
    simp only [eapolData, length_append, hHead, length_cons, length_nil, (put16 kd.length).2]
    omega
  rw [eapolParse, if_neg (by omega), if_neg (by rw [hControl]; decide), hLlc, hEther, hKey, be16, hSize,
    value_put16 hLen, hDrop, hTotal]
  simp

lemma exists_eapolBuild (bssid sta : Mac) (toDs : Bool) (h : kd.length ≤ 2012) :
    ∃ f, eapolBuild 2048 bssid sta toDs kd = some f := by
  rw [eapolBuild, if_neg (by omega)]
  cases toDs with
  | false => exact ⟨_, rfl⟩
  | true => exact ⟨_, rfl⟩

lemma eapolParse_eapolBuild (h : eapolBuild 2048 bssid sta toDs kd = some f) : eapolParse f = some kd := by
  unfold eapolBuild at h
  split at h
  · cases h
  split at h
  · cases h
    exact eapolParse_eapolData bssid sta bssid (by omega) (by decide)
  · cases h
    exact eapolParse_eapolData sta bssid bssid (by omega) (by decide)

/-- What the access point makes of the EAPOL-Key frames of the station. -/
lemma apHandle_eapolBuild (ap : AccessPoint) (h : eapolBuild 2048 bssid sta true kd = some f) :
    apHandle P ap f = apEapol P ap kd := by
  have hParse := eapolParse_eapolBuild h
  unfold eapolBuild at h
  split at h
  · cases h
  cases h
  have hLen : 32 ≤ (eapolData 0x0100 bssid sta bssid kd).length := by
    rw [eapolData, length_append, length_dataBuild]
    exact Nat.le_add_right ..
  have hControl : frameControl (eapolData 0x0100 bssid sta bssid kd) = frameControl (putLe16 0x0108) := rfl
  rw [apHandle, if_neg (by omega), hControl, if_neg (by decide), if_pos (by decide), hParse]

variable {d : UInt8} {info keyLen replay : Nat} {nonce : Octets 32} {mic : Octets 16} {data : List UInt8}

lemma eapolKeyMsgType_keyFrame (hDesc : d = descWpa ∨ d = descRsn) (hInfo : info < 2 ^ 16) :
    eapolKeyMsgType (keyFrame d info keyLen replay nonce mic data) =
      if (info &&& wpaKiAck != 0) && !(info &&& wpaKiMic != 0) then 1
      else if !(info &&& wpaKiAck != 0) && (info &&& wpaKiMic != 0) then
        (if info &&& wpaKiSecure != 0 then 4 else 2)
      else if (info &&& wpaKiAck != 0) && (info &&& wpaKiMic != 0) then 3 else 0 := by
  have hUnderstood : understood (keyFrame d info keyLen replay nonce mic data) = true := by
    rcases hDesc with rfl | rfl <;> rfl
  rw [eapolKeyMsgType, if_neg (by rw [length_keyFrame]; omega), hUnderstood]
  simp [hasAck, hasMic, hasSecure, keyInfo_keyFrame hInfo, Bool.not_true, Bool.false_eq_true]

lemma signed_eq (s : Supplicant) (h : data.length ≤ 161) : s.signed P info keyLen nonce data =
    some (signedFrame P (kck s.ptk) descWpa info keyLen s.replayCounter nonce data) := by
  rw [Supplicant.signed, micFrame_keyFrame P h, map_some, signedFrame]

/-- The MIC of a signed frame is found right under the same key. -/
lemma micFrame_signedFrame (k : Octets 16) (h : data.length ≤ 161) :
    micFrame P k (signedFrame P k d info keyLen replay nonce data) =
      some (keyMic (signedFrame P k d info keyLen replay nonce data)) := by
  rw [signedFrame, micFrame_keyFrame P h, keyMic_keyFrame]

lemma apVerifyMic_signedFrame (k : Octets 16) (h : data.length ≤ 161) :
    apVerifyMic P k (signedFrame P k d info keyLen replay nonce data) = true := by
  rw [apVerifyMic, micFrame_signedFrame P k h]
  exact beq_self_eq_true _

variable {σ : Type} {tr : Transport σ}

/-- One round in which the station answers. -/
lemma fourWay_succ {rounds : Nat} {s : Session σ} {ctx ctx' : σ} {g kd r f : Frame} {sta : Station}
    (hRx : tr.rx s.ctx = (.frame g, ctx)) (hParse : eapolParse g = some kd)
    (hIn : wifiStaEapolIn P s.sta kd 512 = some (.reply r, sta))
    (hBuild : eapolBuild 2048 sta.bssid sta.staMac true r = some f) (hTx : tr.tx ctx f = (true, ctx')) :
    fourWay P tr (rounds + 1) s = if wifiStaConnected sta then some ([kd], { s with sta, ctx := ctx' })
      else (fourWay P tr rounds { s with sta, ctx := ctx' }).map fun r => (kd :: r.1, r.2) := by
  have hRecv : sessRecvUntil tr 200 s = some (g, { s with ctx }) := by rw [sessRecvUntil, hRx]
  have hRound : eapolRound P tr kd { s with ctx } = some (⟨⟩, { s with sta, ctx := ctx' }) := by
    simp only [eapolRound, hIn, hBuild, sessSend, hTx]
    rfl
  rw [fourWay, bind_run hRecv, bind_run (ofOption_eq_some.mpr ⟨hParse, rfl⟩), bind_run hRound, get_bind_run]
  split
  · rfl
  · rw [map_eq_bind]
    rfl

variable {P}

variable {s : Supplicant} {ap : AccessPoint}

/-- A frame of type 1 is taken by `eapol_process_msg1`. -/
lemma eapolProcessMsg1_of_type {f : Frame} (h : eapolKeyMsgType f = 1) :
    eapolProcessMsg1 P s f = some (s.derive P f) := by
  unfold eapolKeyMsgType at h
  split at h
  · cases h
  rename_i hLen
  split at h
  · cases h
  rename_i hUnderstood
  split at h
  · rename_i hBits
    simp only [and_eq_true, not_eq_true'] at hBits
    rw [eapolProcessMsg1, if_neg hLen, if_neg hUnderstood, hBits.1, hBits.2]
    rfl
  · split at h
    · split at h <;> cases h
    · split at h <;> cases h

def Supplicant.msg2 (P : Primitives) (s : Supplicant) : Frame :=
  signedFrame P (kck s.ptk) descWpa (wpaKiVersion ||| wpaKiType ||| wpaKiMic) 16 s.replayCounter s.snonce rsnIe

def Supplicant.msg4 (P : Primitives) (s : Supplicant) : Frame :=
  signedFrame P (kck s.ptk) descWpa (wpaKiVersion ||| wpaKiType ||| wpaKiMic ||| wpaKiSecure) 0 s.replayCounter
    (zero 32) []

lemma eapolBuildMsg4_eq (h : s.havePtk = true) : eapolBuildMsg4 P s 512 = some (s.msg4 P) := by
  rw [eapolBuildMsg4, h, signed_eq P s (by decide)]
  rfl

lemma eapolIn_msg1 {s : Station} {f : Frame} (hPmk : s.pmkSet = true) (hType : eapolKeyMsgType f = 1) :
    wifiStaEapolIn P s f 512 = some (.reply ((s.eapol.derive P f).msg2 P), { s with eapol := s.eapol.derive P f }) := by
  have hBuild : eapolBuildMsg2 P (s.eapol.derive P f) 512 = some ((s.eapol.derive P f).msg2 P) :=
    by rw [eapolBuildMsg2, if_neg nofun, signed_eq P _ (by decide)]; rfl
  simp only [wifiStaEapolIn, hPmk, hType, eapolProcessMsg1_of_type hType, hBuild, answer, Bool.not_true,
    Bool.false_eq_true, if_false, if_true]

/-- The access point answers message 2 with message 3. -/
lemma apEapol_msg2 (hKey : s.ptk = (ap.derive P (s.msg2 P)).ptk) :
    apEapol P ap (s.msg2 P) = apSendM3 P (ap.derive P (s.msg2 P)) := by
  have hMic : apVerifyMic P (kck (ap.derive P (s.msg2 P)).ptk) (s.msg2 P) = true := by
    rw [← hKey]
    exact apVerifyMic_signedFrame P _ (by decide)
  rw [apEapol, if_pos]
  · simp [hMic]
  · rw [Supplicant.msg2, signedFrame, eapolKeyMsgType_keyFrame (.inl rfl) (by decide)]
    decide

lemma apEapol_msg4 (hKey : s.ptk = ap.ptk) : apEapol P ap (s.msg4 P) = (true, { ap with hskDone := true }) := by
  have hMic : apVerifyMic P (kck ap.ptk) (s.msg4 P) = true := by
    rw [← hKey]
    exact apVerifyMic_signedFrame P _ (by decide)
  have hType : eapolKeyMsgType (s.msg4 P) = 4 := by
    rw [Supplicant.msg4, signedFrame, eapolKeyMsgType_keyFrame (.inl rfl) (by decide)]
    decide
  rw [apEapol, if_neg (by rw [hType]; decide), if_pos hType, hMic]
  rfl

lemma length_wrappedGtk (ap : AccessPoint) : (aesKeyWrap P (kek ap.ptk) ap.gtk.val 2).length = 24 := by
  unfold aesKeyWrap
  rw [length_append, length_join, length_ofFn, (Wrap.a _).2]

lemma eapolKeyMsgType_msg3 (ap : AccessPoint) : eapolKeyMsgType (ap.msg3 P) = 3 := by
  rw [AccessPoint.msg3, signedFrame, eapolKeyMsgType_keyFrame (.inr rfl) (by decide)]
  decide

/-- The station takes message 3 and unwraps the group key. -/
lemma eapolProcessMsg3_msg3 (inverse : P.Inverse) {s : Supplicant} {ap : AccessPoint}
    (hPtk : s.havePtk = true) (hKey : s.ptk = ap.ptk) (hNonce : s.anonce = ap.anonce) :
    ∃ s', eapolProcessMsg3 P s (ap.msg3 P) = some (true, s') ∧ s'.havePtk = true ∧ s'.ptk = s.ptk ∧
      s'.gtk.part 0 16 = ap.gtk := by
  have hData := length_wrappedGtk (P := P) ap
  have hMic : micFrame P (kck s.ptk) (ap.msg3 P) = some (keyMic (ap.msg3 P)) := by
    rw [hKey]
    exact micFrame_signedFrame P _ (by omega)
  have hInfo : keyInfo (ap.msg3 P) = infoMsg3 := keyInfo_keyFrame (by decide)
  have hLen : (ap.msg3 P).length = 119 := by rw [AccessPoint.msg3, signedFrame, length_keyFrame, hData]
  have hDataLen : keyDataLen (ap.msg3 P) = 24 := by
    rw [AccessPoint.msg3, signedFrame, keyDataLen_keyFrame (by omega), hData]
  have hUnwrap : aesKeyUnwrap P (kek s.ptk) (keyData (ap.msg3 P)) 2 = (true, ap.gtk.val) := by
    rw [AccessPoint.msg3, signedFrame, keyData_keyFrame, hKey]
    exact aesKeyUnwrap_aesKeyWrap inverse _ ap.gtk.2
  have hGtk : field ap.gtk.val 0 16 = ap.gtk := field_eq [] [] (by simp) rfl
  have hEncr : hasEncr (ap.msg3 P) = true := by
    rw [hasEncr, hInfo]
    decide
  have hInstall : s.install P (ap.msg3 P) = (true,
      { s with replayCounter := replayCounter (ap.msg3 P), gtk := ap.gtk.append (s.gtk.part 16 16), gtkLen := 16,
               gtkKeyId := keyInfo (ap.msg3 P) / 16 % 4, haveGtk := true }) := by
    simp only [Supplicant.install, hEncr, hDataLen, hLen, Supplicant.unwrapGtk, hUnwrap, hGtk]
    rfl
  have hBits : (!hasMic (ap.msg3 P) || !hasAck (ap.msg3 P)) = false := by
    rw [hasMic, hasAck, hInfo]
    decide
  have hSame : keyNonce (ap.msg3 P) = s.anonce := keyNonce_keyFrame.trans hNonce.symm
  have hDesc : understood (ap.msg3 P) = true := rfl
  have hProcess : eapolProcessMsg3 P s (ap.msg3 P) = some (s.install P (ap.msg3 P)) := by
    rw [eapolProcessMsg3, if_neg (by simp [hLen, hPtk]), hDesc, if_neg (by decide), hBits, if_neg (by decide),
      hMic, map_some, if_neg (by simp), if_neg (by simp [hSame])]
  rw [hInstall] at hProcess
  exact ⟨_, hProcess, hPtk, rfl, part_append_left ap.gtk (s.gtk.part 16 16)⟩

/-- The station answers message 3 and is connected. -/
lemma eapolIn_msg3 (inverse : P.Inverse) {s : Station} {ap : AccessPoint} (hPmk : s.pmkSet = true)
    (hPtk : s.eapol.havePtk = true) (hKey : s.eapol.ptk = ap.ptk) (hNonce : s.eapol.anonce = ap.anonce) :
    ∃ e, wifiStaEapolIn P s (ap.msg3 P) 512 = some (.reply (e.msg4 P), s.connect e) ∧ e.ptk = ap.ptk ∧
      e.gtk.part 0 16 = ap.gtk := by
  obtain ⟨e, hProcess, hHave, hSame, hGtk⟩ := eapolProcessMsg3_msg3 inverse hPtk hKey hNonce
  refine ⟨e, ?_, hSame.trans hKey, hGtk⟩
  simp only [wifiStaEapolIn, hPmk, eapolKeyMsgType_msg3, hProcess, eapolBuildMsg4_eq hHave, answer, Bool.not_true,
    Bool.false_eq_true, if_false, if_true]
  rfl

/-- What the station finds on its transport when message 1 is due. -/
lemma apRx_msg1 (hOut : ap.outPending = false) (hDue : ap.m1Pending = true) :
    ∃ g, apRx ap = (.frame g, { ap with m1Pending := false, out := g, outPending := false }) ∧
      eapolParse g = some (keyFrame descRsn infoMsg1 16 ap.rctr ap.anonce (zero 16) []) := by
  obtain ⟨g, hBuild⟩ := exists_eapolBuild ap.bssid ap.staMac false
    (show (keyFrame descRsn infoMsg1 16 ap.rctr ap.anonce (zero 16) []).length ≤ 2012 by rw [length_keyFrame]; decide)
  refine ⟨g, ?_, eapolParse_eapolBuild hBuild⟩
  have hQueue : apQueueM1 { ap with m1Pending := false } = { ap with m1Pending := false, out := g, outPending := true } := by
    simp only [apQueueM1, AccessPoint.queueKey, hBuild]
    rfl
  rw [apRx, if_neg (by simp [hOut]), if_pos hDue, hQueue]

lemma apSendM3_eq (ap : AccessPoint) :
    ∃ g, apSendM3 P ap = (true, { ap with rctr := (ap.rctr + 1) % 2 ^ 64, out := g, outPending := true }) ∧
      eapolParse g = some ({ ap with rctr := (ap.rctr + 1) % 2 ^ 64 }.msg3 P) := by
  have hLen : ({ ap with rctr := (ap.rctr + 1) % 2 ^ 64 }.msg3 P).length ≤ 2012 := by
    rw [AccessPoint.msg3, signedFrame, length_keyFrame, length_wrappedGtk]
    decide
  obtain ⟨g, hBuild⟩ := exists_eapolBuild ap.bssid ap.staMac false hLen
  refine ⟨g, ?_, eapolParse_eapolBuild hBuild⟩
  simp only [apSendM3, AccessPoint.queueKey, hBuild]
  rfl

/-- Both sides have the pairwise key, and message 3 waits for the station. -/
structure Halfway (P : Primitives) (ptk : Octets 48) (gtk : Octets 16) (s : Session AccessPoint) : Prop where
  pmkSet : s.sta.pmkSet = true
  havePtk : s.sta.eapol.havePtk = true
  station : s.sta.eapol.ptk = ptk
  accessPoint : s.ctx.ptk = ptk
  nonce : s.sta.eapol.anonce = s.ctx.anonce
  group : s.ctx.gtk = gtk
  pending : s.ctx.outPending = true
  msg3 : ∃ rctr, eapolParse s.ctx.out = some ({ s.ctx with rctr }.msg3 P)

variable {s : Session AccessPoint}

lemma fourWay_msg1 (started : Started ⟨s.ctx.pmk, s.ctx.bssid, s.ctx.staMac⟩ s.sta) (hPmk : s.sta.pmkSet = true)
    (hOut : s.ctx.outPending = false) (hDue : s.ctx.m1Pending = true) (rounds : Nat) :
    ∃ kd s', fourWay P (apTransport P) (rounds + 1) s =
        (fourWay P (apTransport P) rounds s').map (fun r => (kd :: r.1, r.2)) ∧
      Halfway P (wpaPtkDerive P s.ctx.pmk s.ctx.bssid s.ctx.staMac s.ctx.anonce stationNonce) s.ctx.gtk s' := by
  obtain ⟨g, hRx, hParse⟩ := apRx_msg1 hOut hDue
  have hType : eapolKeyMsgType (keyFrame descRsn infoMsg1 16 s.ctx.rctr s.ctx.anonce (zero 16) []) = 1 := by
    rw [eapolKeyMsgType_keyFrame (.inr rfl) (by decide)]
    decide
  have hIn := eapolIn_msg1 (P := P) hPmk hType
  generalize hE : s.sta.eapol.derive P (keyFrame descRsn infoMsg1 16 s.ctx.rctr s.ctx.anonce (zero 16) []) = e at hIn
  have hStation : e.ptk = wpaPtkDerive P s.ctx.pmk s.ctx.bssid s.ctx.staMac s.ctx.anonce stationNonce := by
    simp [← hE, Supplicant.derive, keyNonce_keyFrame, started.pmk, started.aa, started.spa]
  have hNonce : keyNonce (e.msg2 P) = stationNonce := by
    rw [Supplicant.msg2, signedFrame, keyNonce_keyFrame, ← hE, Supplicant.derive]
  generalize hAp : { s.ctx with m1Pending := false, out := g, outPending := false } = ap at hRx
  have hKey : e.ptk = (ap.derive P (e.msg2 P)).ptk := by rw [hStation, AccessPoint.derive, hNonce, ← hAp]
  obtain ⟨f, hBuild⟩ := exists_eapolBuild s.sta.bssid s.sta.staMac true
    (show (e.msg2 P).length ≤ 2012 by rw [Supplicant.msg2, signedFrame, length_keyFrame]; decide)
  obtain ⟨g3, hSend, hParse3⟩ := apSendM3_eq (P := P) (ap.derive P (e.msg2 P))
  have hTx : (apTransport P).tx ap f = (true, _) :=
    (apHandle_eapolBuild P ap hBuild).trans ((apEapol_msg2 hKey).trans hSend)
  have hRound := @fourWay_succ P _ (apTransport P) rounds _ _ _ _ _ _ _ _ hRx hParse hIn hBuild hTx
  have hWaiting : wifiStaConnected { s.sta with eapol := e } = false := by
    simpa [wifiStaConnected] using started.waiting
  rw [hWaiting] at hRound
  refine ⟨_, _, hRound, hPmk, ?_, hStation, ?_, ?_, ?_, rfl, _, hParse3⟩
  · rw [← hE]
    rfl
  · exact hKey.symm.trans hStation
  · rw [← hE, ← hAp]
    exact keyNonce_keyFrame
  · rw [← hAp]
    rfl

lemma Halfway.fourWay_msg3 (inverse : P.Inverse) {ptk : Octets 48} {gtk : Octets 16} (h : Halfway P ptk gtk s)
    (rounds : Nat) : ∃ kd s', fourWay P (apTransport P) (rounds + 1) s = some ([kd], s') ∧
      s'.sta.state = .connected ∧ s'.ctx.hskDone = true ∧ s'.sta.eapol.ptk = ptk ∧ s'.ctx.ptk = ptk ∧
      s'.sta.eapol.gtk.part 0 16 = gtk ∧ s'.ctx.gtk = gtk := by
  obtain ⟨rctr, hParse⟩ := h.msg3
  have hRx : (apTransport P).rx s.ctx = (.frame s.ctx.out, { s.ctx with outPending := false }) := by
    change apRx s.ctx = _
    rw [apRx, if_pos h.pending]
  obtain ⟨e, hIn, hPtk, hGtk⟩ := @eapolIn_msg3 P inverse s.sta { s.ctx with rctr } h.pmkSet h.havePtk
    (h.station.trans h.accessPoint.symm) h.nonce
  have hKey : e.ptk = { s.ctx with outPending := false }.ptk := hPtk
  obtain ⟨f, hBuild⟩ := exists_eapolBuild s.sta.bssid s.sta.staMac true
    (show (e.msg4 P).length ≤ 2012 by rw [Supplicant.msg4, signedFrame, length_keyFrame]; decide)
  have hTx : (apTransport P).tx { s.ctx with outPending := false } f = (true, _) :=
    (apHandle_eapolBuild P _ hBuild).trans (apEapol_msg4 hKey)
  have hRound := @fourWay_succ P _ (apTransport P) rounds _ _ _ _ _ _ _ _ hRx hParse hIn hBuild hTx
  exact ⟨_, _, hRound, rfl, rfl, hPtk.trans h.accessPoint, h.accessPoint, hGtk.trans h.group, h.group⟩

def associated (pmk : Octets 32) (bss : Bss) (staMac : Mac) (anonce : Octets 32) (gtk : Octets 16) (rctr : Nat) :
    Session AccessPoint where
  ctx := { bssid := bss.bssid, staMac, pmk, anonce, gtk, rctr, m1Pending := true }
  sta := { wifiStaStartJoin (wifiStaSetPmk (wifiStaInit staMac) pmk) bss with state := .associated }

/-- Every check succeeds, and both sides have the same keys. -/
theorem handshake_agrees (inverse : P.Inverse) (pmk : Octets 32) (bss : Bss) (staMac : Mac) (anonce : Octets 32)
    (gtk : Octets 16) (rctr : Nat) :
    ∃ msg1 msg3 s, fourWay P (apTransport P) 4 (associated pmk bss staMac anonce gtk rctr) = some ([msg1, msg3], s) ∧
      s.sta.state = .connected ∧ s.ctx.hskDone = true ∧
      s.sta.eapol.ptk = wpaPtkDerive P pmk bss.bssid staMac anonce stationNonce ∧
      s.ctx.ptk = wpaPtkDerive P pmk bss.bssid staMac anonce stationNonce ∧
      s.sta.eapol.gtk.part 0 16 = gtk ∧ s.ctx.gtk = gtk := by
  have started : Started ⟨pmk, bss.bssid, staMac⟩ (associated pmk bss staMac anonce gtk rctr).sta :=
    ⟨rfl, rfl, rfl, nofun, rfl⟩
  obtain ⟨msg1, s₁, hFirst, half⟩ := fourWay_msg1 (P := P) (s := associated pmk bss staMac anonce gtk rctr)
    started rfl rfl rfl 3
  obtain ⟨msg3, s₂, hSecond, done⟩ := half.fourWay_msg3 inverse 2
  rw [hSecond] at hFirst
  exact ⟨msg1, msg3, s₂, hFirst, done⟩

/-- The AES of `aes.c`, and a MAC that depends on key and data. -/
def keyed : Primitives := Tls.aesPrimitives fun key data => field (key ++ data) 0 20

theorem handshake_agrees_keyed : ∃ msg1 msg3 s, fourWay keyed (apTransport keyed) 4
        (associated (zero 32) ⟨zero 6, [], 1⟩ (field [2] 0 6) (zero 32) (field [7] 0 16) 1) =
          some ([msg1, msg3], s) ∧
      s.sta.state = .connected ∧ s.ctx.hskDone = true ∧
      s.sta.eapol.ptk = wpaPtkDerive keyed (zero 32) (zero 6) (field [2] 0 6) (zero 32) stationNonce ∧
      s.ctx.ptk = wpaPtkDerive keyed (zero 32) (zero 6) (field [2] 0 6) (zero 32) stationNonce ∧
      s.sta.eapol.gtk.part 0 16 = field [7] 0 16 ∧ s.ctx.gtk = field [7] 0 16 :=
  handshake_agrees (fun _ block => Aes.decryptBlock_encryptBlock _ block) (zero 32) ⟨zero 6, [], 1⟩
    (field [2] 0 6) (zero 32) (field [7] 0 16) 1

end YartOS.Wifi
