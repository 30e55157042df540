import YartOS.Wifi.Join

/-! The nonces of frames. The packet number is never advanced, so one key has one nonce. -/
namespace YartOS.Wifi

open Octets List

variable {σ : Type}

def sealedFrames (P : Primitives) (tr : Transport σ) : Session σ → List (List UInt8) → List (Octets 16 × Frame)
  | _, [] => []
  | s, eth :: eths =>
    (wifiSessionSendData P tr s eth).1.toList.map (s.sta.tk, ·) ++
      sealedFrames P tr (wifiSessionSendData P tr s eth).2 eths

/-- No two frames under one key have the same nonce. -/
def NoncesFresh (frames : List (Octets 16 × Frame)) : Prop :=
  frames.Pairwise fun x y => x.1 = y.1 → frameNonce x.2 ≠ frameNonce y.2

def sendable (eth : List UInt8) : Bool := 14 ≤ eth.length && eth.length ≤ 2014

variable {P : Primitives} {tr : Transport σ} {s : Session σ} {eth : List UInt8}

lemma wifiDataEncrypt_none (h : sendable eth = false) :
    wifiDataEncrypt P 2048 s.sta.tk s.pnTx s.seqTx s.sta.bssid s.sta.staMac true eth = none := by
  simp only [sendable, Bool.and_eq_false_iff, decide_eq_false_iff_not, Nat.not_le] at h
  unfold wifiDataEncrypt wifiHdrlen wifiCcmpHdrlen wifiSnapHdrlen wifiCcmpMiclen
  split
  · rfl
  · rw [if_pos (by omega)]

lemma wifiDataEncrypt_some (h : sendable eth = true) :
    ∃ f, wifiDataEncrypt P 2048 s.sta.tk s.pnTx s.seqTx s.sta.bssid s.sta.staMac true eth = some f ∧
      frameNonce f = ccmNonce s.sta.staMac s.pnTx := by
  simp only [sendable, Bool.and_eq_true, decide_eq_true_eq] at h
  unfold wifiDataEncrypt wifiHdrlen wifiCcmpHdrlen wifiSnapHdrlen wifiCcmpMiclen
  rw [if_neg (by omega), if_neg (by omega)]
  exact ⟨_, rfl, frameNonce_header ..⟩

variable (P tr) in
/-- Sending changes neither the keys nor the packet number. -/
lemma wifiSessionSendData_same (s : Session σ) (eth : List UInt8) :
    (wifiSessionSendData P tr s eth).2.sta = s.sta ∧ (wifiSessionSendData P tr s eth).2.pnTx = s.pnTx := by
  unfold wifiSessionSendData
  dsimp only
  split <;> exact ⟨rfl, rfl⟩

lemma wifiSessionSendData_frame : (wifiSessionSendData P tr s eth).1 =
    wifiDataEncrypt P 2048 s.sta.tk s.pnTx s.seqTx s.sta.bssid s.sta.staMac true eth := by
  unfold wifiSessionSendData
  dsimp only
  split
  · rename_i hBuilt
    exact hBuilt.symm
  · rename_i hBuilt
    exact hBuilt.symm

variable (P tr) in
lemma length_sealedFrames (s : Session σ) (eths : List (List UInt8)) :
    (sealedFrames P tr s eths).length = (eths.filter sendable).length := by
  induction eths generalizing s with
  | nil => rfl
  | cons eth eths ih =>
    rw [sealedFrames, length_append, length_map, ih, wifiSessionSendData_frame]
    cases hFits : sendable eth with
    | false =>
      rw [wifiDataEncrypt_none hFits, filter_cons_of_neg (by simp [hFits])]
      exact Nat.zero_add _
    | true =>
      obtain ⟨f, hFrame, -⟩ := wifiDataEncrypt_some (P := P) (s := s) hFits
      rw [hFrame, filter_cons_of_pos hFits, length_cons, Nat.add_comm]
      rfl

variable {eths : List (List UInt8)}

/-- All the frames have the same key and the same nonce. -/
lemma mem_sealedFrames {x : Octets 16 × Frame} (h : x ∈ sealedFrames P tr s eths) :
    x.1 = s.sta.tk ∧ frameNonce x.2 = ccmNonce s.sta.staMac s.pnTx := by
  induction eths generalizing s with
  | nil => cases h
  | cons eth eths ih =>
    obtain ⟨hSta, hPn⟩ := wifiSessionSendData_same P tr s eth
    rw [sealedFrames, mem_append, mem_map] at h
    rcases h with ⟨f, hFrame, rfl⟩ | h
    · rw [Option.mem_toList, wifiSessionSendData_frame] at hFrame
      cases hFits : sendable eth with
      | false =>
        rw [wifiDataEncrypt_none hFits] at hFrame
        cases hFrame
      | true =>
        obtain ⟨f', hFrame', hNonce⟩ := wifiDataEncrypt_some (P := P) (s := s) hFits
        rw [hFrame'] at hFrame
        cases hFrame
        exact ⟨rfl, hNonce⟩
    · have hTail := ih h
      rwa [hSta, hPn] at hTail

lemma length_le_one_of_noncesFresh (h : NoncesFresh (sealedFrames P tr s eths)) :
    (eths.filter sendable).length ≤ 1 := by
  rw [← length_sealedFrames P tr s]
  cases hFrames : sealedFrames P tr s eths with
  | nil => exact Nat.zero_le _
  | cons x rest =>
    cases rest with
    | nil => exact Nat.le_refl _
    | cons y rest =>
      have hx := mem_sealedFrames (show x ∈ sealedFrames P tr s eths by simp [hFrames])
      have hy := mem_sealedFrames (show y ∈ sealedFrames P tr s eths by simp [hFrames])
      rw [hFrames] at h
      have hFresh := (pairwise_cons.mp h).1 y (by simp) (hx.1.trans hy.1.symm)
      exact absurd (hx.2.trans hy.2.symm) hFresh

/-- Nonces are fresh exactly as long as at most one frame is sent. -/
theorem noncesFresh_iff (s : Session σ) (eths : List (List UInt8)) :
    NoncesFresh (sealedFrames P tr s eths) ↔ (eths.filter sendable).length ≤ 1 := by
  refine ⟨length_le_one_of_noncesFresh, fun h => ?_⟩
  rw [← length_sealedFrames P tr s] at h
  cases hFrames : sealedFrames P tr s eths with
  | nil => exact .nil
  | cons x rest =>
    rw [hFrames, length_cons] at h
    rw [eq_nil_of_length_eq_zero (Nat.le_zero.mp (Nat.le_of_succ_le_succ h))]
    exact pairwise_singleton _ x

/-- Two packets sent after a join go out under one nonce. -/
theorem two_packets_not_fresh : ∃ heard s', wifiSessionJoin zeroPrimitives script ⟨zero 6, [], 1⟩ []
      ⟨honestFrames, wifiStaInit (zero 6), zero 6, 0⟩ = some (heard, s') ∧
    ¬ NoncesFresh (sealedFrames zeroPrimitives script s' [(zero 14).val, (zero 15).val]) := by
  obtain ⟨⟨heard, s'⟩, run⟩ := Option.isSome_iff_exists.mp honestFrames_join
  exact ⟨heard, s', run, fun h => absurd (length_le_one_of_noncesFresh h) (by decide)⟩

end YartOS.Wifi
