import YartOS.Wifi.Session

/-! Joining is authenticated: a join that succeeds has taken in a message 3 with a right MIC. -/
namespace YartOS.Wifi

open Octets Programs List Option

variable {P : Primitives} {s s' : Supplicant} {f : Frame}

/-- What message 1 leaves behind. -/
lemma eapolProcessMsg1_eq (h : eapolProcessMsg1 P s f = some s') : s' = s.derive P f := by
  unfold eapolProcessMsg1 at h
  split at h
  · cases h
  split at h
  · cases h
  split at h
  · cases h
  split at h
  · cases h
  · exact (some.inj h).symm

/-- The keys that authenticate and encrypt are not touched by message 3. -/
lemma Supplicant.install_ptk (s : Supplicant) (f : Frame) : (s.install P f).2.ptk = s.ptk := by
  unfold install
  dsimp only
  split
  · rfl
  split
  · rfl
  split
  · rename_i hUnwrap
    exact congrArg (fun r => r.2.ptk) hUnwrap.symm
  · rename_i hUnwrap
    exact congrArg (fun r => r.2.ptk) hUnwrap.symm

structure Verified (P : Primitives) (s : Supplicant) (f : Frame) : Prop where
  havePtk : s.havePtk = true
  ack : hasAck f = true
  mic : hasMic f = true
  right : keyMic f = wpaEapolMic P (kck s.ptk) (zeroMic f)
  nonce : keyNonce f = s.anonce

lemma verified_of_eapolProcessMsg3 (h : eapolProcessMsg3 P s f = some (true, s')) :
    Verified P s f ∧ s'.ptk = s.ptk := by
  unfold eapolProcessMsg3 at h
  split at h
  · cases h
  rename_i hPtk
  split at h
  · cases h
  split at h
  · cases h
  rename_i hBits
  obtain ⟨got, hMic, hInstall⟩ := map_eq_some_iff.mp h
  split at hInstall
  · cases hInstall
  rename_i hRight
  split_ifs at hInstall with hNonce
  · cases hInstall
  have hGot : got = wpaEapolMic P (kck s.ptk) (zeroMic f) := by
    unfold micFrame at hMic
    split at hMic
    · exact (some.inj hMic).symm
    · cases hMic
  simp only [not_or, Bool.not_eq_false, ne_eq, not_not, Bool.or_eq_true, Bool.not_eq_true'] at hPtk hBits hRight hNonce
  refine ⟨⟨hPtk.2, hBits.2, hBits.1, hRight.trans hGot, hNonce⟩, ?_⟩
  rw [← s.install_ptk (P := P) f, hInstall]

variable {s s' : Station} {a : Answer} {cap : Nat}

/-- What the station can do with a frame that it does not refuse. -/
lemma wifiStaEapolIn_cases (h : wifiStaEapolIn P s f cap = some (a, s')) (hTaken : a ≠ .failed) :
    (eapolKeyMsgType f = 1 ∧ s' = { s with eapol := s.eapol.derive P f }) ∨
    (eapolKeyMsgType f = 3 ∧ ∃ e, eapolProcessMsg3 P s.eapol f = some (true, e) ∧ s' = s.connect e) ∨
    (eapolKeyMsgType f ≠ 1 ∧ eapolKeyMsgType f ≠ 3 ∧ s' = s) := by
  unfold wifiStaEapolIn at h
  split at h
  · cases h
    exact absurd rfl hTaken
  split at h
  · rename_i hType
    split at h
    · cases h
      exact absurd rfl hTaken
    · rename_i hDerive
      cases h
      exact .inl ⟨hType, by rw [eapolProcessMsg1_eq hDerive]⟩
  split at h
  · rename_i hType
    split at h
    · cases h
    · cases h
      exact absurd rfl hTaken
    · rename_i e hInstall
      cases h
      exact .inr (.inl ⟨hType, e, hInstall, rfl⟩)
  · rename_i hOne hThree
    cases h
    exact .inr (.inr ⟨hOne, hThree, rfl⟩)

/-- The last message 1 among the frames heard. -/
def LastMsg1 (heard : List Frame) (msg1 : Frame) : Prop :=
  ∃ before after, heard = before ++ msg1 :: after ∧ eapolKeyMsgType msg1 = 1 ∧ ∀ f ∈ after, eapolKeyMsgType f ≠ 1

variable {heard : List Frame} {u : PUnit}

lemma LastMsg1.new (h : eapolKeyMsgType f = 1) : LastMsg1 (heard ++ [f]) f := ⟨heard, [], rfl, h, nofun⟩

lemma LastMsg1.other {msg1 : Frame} (h : LastMsg1 heard msg1)
    (hType : eapolKeyMsgType f ≠ 1) : LastMsg1 (heard ++ [f]) msg1 := by
  obtain ⟨before, after, rfl, hFirst, hAfter⟩ := h
  refine ⟨before, after ++ [f], by simp, hFirst, fun g hg => ?_⟩
  rcases mem_append.mp hg with hg | hg
  · exact hAfter g hg
  · rwa [mem_singleton.mp hg]

structure Link where
  pmk : Octets 32
  bssid : Mac
  staMac : Mac

def Link.ptk (P : Primitives) (link : Link) (anonce : Octets 32) : Octets 48 :=
  wpaPtkDerive P link.pmk link.bssid link.staMac anonce stationNonce

variable {link : Link}

/-- The station in the handshake, with the key of the last message 1. -/
structure Joining (P : Primitives) (link : Link) (heard : List Frame) (s : Station) : Prop where
  pmk : s.eapol.pmk = link.pmk
  aa : s.eapol.aa = link.bssid
  spa : s.eapol.spa = link.staMac
  waiting : s.state ≠ .connected
  derived : s.eapol.havePtk = true → ∃ msg1, LastMsg1 heard msg1 ∧ s.eapol.anonce = keyNonce msg1 ∧
    s.eapol.ptk = link.ptk P (keyNonce msg1)

/-- The last frame is a message 3 for the last message 1, with a right MIC, and the temporal key is
of that key. -/
structure Joined (P : Primitives) (link : Link) (heard : List Frame) (s : Station) : Prop where
  state : s.state = .connected
  messages : ∃ earlier msg1 msg3, heard = earlier ++ [msg3] ∧ LastMsg1 earlier msg1 ∧
    hasAck msg3 = true ∧ hasMic msg3 = true ∧ keyNonce msg3 = keyNonce msg1 ∧
    keyMic msg3 = wpaEapolMic P (kck (link.ptk P (keyNonce msg1))) (zeroMic msg3) ∧
    s.tk = tk (link.ptk P (keyNonce msg1))

/-- One frame that the station does not refuse. -/
lemma Joining.eapolIn {s s' : Station} {a : Answer} {cap : Nat} (h : Joining P link heard s)
    (run : wifiStaEapolIn P s f cap = some (a, s')) (hTaken : a ≠ .failed) :
    Joining P link (heard ++ [f]) s' ∨ Joined P link (heard ++ [f]) s' := by
  obtain ⟨hType, rfl⟩ | ⟨hType, e, hInstall, rfl⟩ | ⟨hOne, -, rfl⟩ := wifiStaEapolIn_cases run hTaken
  · refine .inl ⟨h.pmk, h.aa, h.spa, h.waiting, fun _ => ⟨f, .new hType, rfl, ?_⟩⟩
    simp [Supplicant.derive, h.pmk, h.aa, h.spa, Link.ptk]
  · obtain ⟨verified, hKey⟩ := verified_of_eapolProcessMsg3 hInstall
    obtain ⟨msg1, hLast, hNonce, hPtk⟩ := h.derived verified.havePtk
    refine .inr ⟨rfl, heard, msg1, f, rfl, hLast, verified.ack, verified.mic, verified.nonce.trans hNonce, ?_, ?_⟩
    · rw [verified.right, hPtk]
    · rw [Station.connect, hKey, hPtk]
  · refine .inl ⟨h.pmk, h.aa, h.spa, h.waiting, fun hPtk => ?_⟩
    obtain ⟨msg1, hLast, hNonce, hKey⟩ := h.derived hPtk
    exact ⟨msg1, hLast.other hOne, hNonce, hKey⟩

variable {σ : Type} {tr : Transport σ} {s s' : Session σ}

lemma sta_sessRecvUntil {polls : Nat} {g : Frame} (run : sessRecvUntil tr polls s = some (g, s')) : s'.sta = s.sta := by
  induction polls generalizing s with
  | zero => cases run
  | succ polls ih =>
    unfold sessRecvUntil at run
    split at run
    · cases run
      rfl
    · cases run
    · rw [ih run]

lemma sta_sessSend (run : sessSend tr f s = some (u, s')) : s'.sta = s.sta := by
  unfold sessSend at run
  dsimp only at run
  split at run
  · cases run
    rfl
  · cases run

lemma Joining.eapolRound (h : Joining P link heard s.sta) (run : eapolRound P tr f s = some (u, s')) :
    Joining P link (heard ++ [f]) s'.sta ∨ Joined P link (heard ++ [f]) s'.sta := by
  unfold Wifi.eapolRound at run
  split at run
  · cases run
  · cases run
  · rename_i hIn
    cases run
    exact h.eapolIn hIn nofun
  · rename_i hIn
    split at run
    · cases run
    · rw [sta_sessSend run]
      exact h.eapolIn hIn nofun

/-- The rounds of the handshake, for whatever frames arrive. -/
lemma Joining.fourWay {rounds : Nat} {frames : List Frame} (h : Joining P link heard s.sta)
    (run : fourWay P tr rounds s = some (frames, s')) :
    Joining P link (heard ++ frames) s'.sta ∨ Joined P link (heard ++ frames) s'.sta := by
  induction rounds generalizing s heard frames with
  | zero =>
    obtain ⟨rfl, rfl⟩ := of_pure run
    exact .inl (by rwa [append_nil])
  | succ rounds ih =>
    obtain ⟨g, s₁, hRecv, run⟩ := of_bind run
    obtain ⟨kd, s₂, hParse, run⟩ := of_bind run
    obtain ⟨-, rfl⟩ := ofOption_eq_some.mp hParse
    obtain ⟨u, s₃, hRound, run⟩ := of_bind run
    have step := Joining.eapolRound (sta_sessRecvUntil hRecv ▸ h) hRound
    have run := of_get_bind run
    split_ifs at run with hConnected
    · obtain ⟨rfl, rfl⟩ := of_pure run
      exact step
    · obtain ⟨rest, hRest, rfl⟩ := of_bind_pure run
      rcases step with step | step
      · have rest := ih step hRest
        rwa [append_assoc] at rest
      · simp [wifiStaConnected, step.state] at hConnected

lemma onSta_eq_some {change : Station → Option Station} (run : onSta change s = some (u, s')) :
    change s.sta = some s'.sta := by
  obtain ⟨sta, hChange, h⟩ := map_eq_some_iff.mp run
  cases h
  exact hChange

/-- The station has started to join and has heard nothing yet. -/
structure Started (link : Link) (s : Station) : Prop where
  pmk : s.eapol.pmk = link.pmk
  aa : s.eapol.aa = link.bssid
  spa : s.eapol.spa = link.staMac
  waiting : s.state ≠ .connected
  fresh : s.eapol.havePtk = false

lemma Started.joining {s : Station} (h : Started link s) : Joining P link [] s :=
  ⟨h.pmk, h.aa, h.spa, h.waiting, fun hPtk => by simp [h.fresh] at hPtk⟩

lemma started_startJoin (s : Station) (pmk : Octets 32) (bss : Bss) :
    Started ⟨pmk, bss.bssid, s.staMac⟩ (wifiStaStartJoin (wifiStaSetPmk s pmk) bss) :=
  ⟨rfl, rfl, rfl, nofun, rfl⟩

lemma Started.onAuthResp {s s' : Station} (h : Started link s)
    (run : wifiStaOnAuthResp s f = some s') : Started link s' := by
  unfold wifiStaOnAuthResp at run
  split at run
  · cases run
    split
    · exact ⟨h.pmk, h.aa, h.spa, nofun, h.fresh⟩
    · exact h
  · cases run

lemma Started.onAssocResp {s s' : Station} (h : Started link s)
    (run : wifiStaOnAssocResp s f = some s') : Started link s' := by
  unfold wifiStaOnAssocResp at run
  split at run
  · cases run
    split
    · exact ⟨h.pmk, h.aa, h.spa, nofun, h.fresh⟩
    · exact ⟨h.pmk, h.aa, h.spa, h.waiting, h.fresh⟩
  · cases run

lemma Started.buildAuth {s s' : Station} (h : Started link s)
    (run : wifiStaBuildAuth s = some (f, s')) : Started link s' := by
  unfold wifiStaBuildAuth at run
  split at run
  · cases run
  · cases run
    exact ⟨h.pmk, h.aa, h.spa, h.waiting, h.fresh⟩

/-- A join that succeeds has heard a message 3 made with the key of the passphrase. -/
theorem joined_of_wifiSessionJoin {bss : Bss} {passphrase : List UInt8} {heard : List Frame}
    (run : wifiSessionJoin P tr bss passphrase s = some (heard, s')) :
    Joined P ⟨pbkdf2HmacSha1 P passphrase bss.ssid 4096 32, bss.bssid, s.sta.staMac⟩ heard s'.sta := by
  obtain ⟨_, s₁, hStart, run⟩ := of_bind run
  have hStart : some (wifiStaStartJoin (wifiStaSetPassphrase P s.sta passphrase bss.ssid) bss) = some s₁.sta :=
    onSta_eq_some hStart
  have started : Started ⟨pbkdf2HmacSha1 P passphrase bss.ssid 4096 32, bss.bssid, s.sta.staMac⟩ s₁.sta :=
    some.inj hStart ▸ started_startJoin s.sta _ bss
  have run := of_get_bind run
  obtain ⟨⟨auth, sta⟩, s₂, hAuth, run⟩ := of_bind run
  obtain ⟨hBuild, rfl⟩ := ofOption_eq_some.mp hAuth
  obtain ⟨_, s₃, hSta, run⟩ := of_bind run
  have hSta : some sta = some s₃.sta := onSta_eq_some hSta
  have started := some.inj hSta ▸ started.buildAuth hBuild
  obtain ⟨_, s₄, hSend, run⟩ := of_bind run
  rw [← sta_sessSend hSend] at started
  obtain ⟨authResp, s₅, hRecv, run⟩ := of_bind run
  rw [← sta_sessRecvUntil hRecv] at started
  obtain ⟨_, s₆, hResp, run⟩ := of_bind run
  have started := started.onAuthResp (onSta_eq_some hResp)
  have run := of_get_bind run
  obtain ⟨assoc, s₇, hAssoc, run⟩ := of_bind run
  obtain ⟨-, rfl⟩ := ofOption_eq_some.mp hAssoc
  obtain ⟨_, s₈, hSend, run⟩ := of_bind run
  rw [← sta_sessSend hSend] at started
  obtain ⟨assocResp, s₉, hRecv, run⟩ := of_bind run
  rw [← sta_sessRecvUntil hRecv] at started
  obtain ⟨_, s₁₀, hResp, run⟩ := of_bind run
  have started := started.onAssocResp (onSta_eq_some hResp)
  obtain ⟨frames, s₁₁, hFour, run⟩ := of_bind run
  have run := of_get_bind run
  obtain ⟨_, s₁₂, hConnected, run⟩ := of_bind run
  obtain ⟨hState, rfl⟩ := require_eq_some.mp hConnected
  obtain ⟨rfl, rfl⟩ := of_pure run
  rcases Joining.fourWay started.joining hFour with joining | joined
  · exact absurd (by simpa [wifiStaConnected] using hState) joining.waiting
  · exact joined

def script : Transport (List Frame) where
  tx frames _ := (true, frames)
  rx
    | [] => (.nothing, [])
    | f :: frames => (.frame f, frames)
  delayMs frames _ := frames

def zeroPrimitives : Primitives where
  aesEncrypt _ _ := zero 16
  aesDecrypt _ _ := zero 16
  hmacSha1 _ _ := zero 20

def plainKeyFrame (info : Nat) : Frame :=
  eapolData 0x0200 (zero 6) (zero 6) (zero 6) (keyFrame descRsn info 16 1 (zero 32) (zero 16) [])

def honestFrames : List Frame :=
  [wifiBuildAuth (zero 6) (zero 6) 2,
    mgmtHdr (mgmtFc wifiStAssocResp) (zero 6) (zero 6) (zero 6) ++ putLe16 0x0431 ++ putLe16 0 ++ putLe16 0xc001,
    plainKeyFrame (wpaKiVersion ||| wpaKiType ||| wpaKiAck),
    plainKeyFrame (wpaKiVersion ||| wpaKiType ||| wpaKiAck ||| wpaKiMic)]

lemma honestFrames_join : (wifiSessionJoin zeroPrimitives script ⟨zero 6, [], 1⟩ []
    ⟨honestFrames, wifiStaInit (zero 6), zero 6, 0⟩).isSome = true := by
  decide +kernel

theorem joined_honestFrames : ∃ heard s', wifiSessionJoin zeroPrimitives script ⟨zero 6, [], 1⟩ []
      ⟨honestFrames, wifiStaInit (zero 6), zero 6, 0⟩ = some (heard, s') ∧
    Joined zeroPrimitives ⟨pbkdf2HmacSha1 zeroPrimitives [] [] 4096 32, zero 6, zero 6⟩ heard s'.sta := by
  obtain ⟨⟨heard, s'⟩, run⟩ := isSome_iff_exists.mp honestFrames_join
  exact ⟨heard, s', run, joined_of_wifiSessionJoin run⟩

end YartOS.Wifi
