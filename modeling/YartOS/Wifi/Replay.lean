import YartOS.Wifi.Join
import YartOS.Lib.Runs

/-! Replayed frames: neither packet numbers nor replay counters are compared with earlier ones. -/
namespace YartOS.Wifi

open Octets Runs List Option

/-- A station with what was delivered to it and what it accepted: keys and packet numbers, and the last counter. -/
structure Watched where
  sta : Station
  delivered : List Frame := []
  taken : List (Octets 16 × Nat) := []
  counter : Option Nat := none
  /-- A message 3 with an old counter was accepted, or changed the keys. -/
  stale : Bool := false

/-- A frame for `wifi_session_recv_data` or `wifi_sta_eapol_in`. -/
inductive Arrival where
  | data (f : Frame) (cap : Nat)
  | key (f : Frame)

/-- The packet number of a frame; its first byte is the lowest. -/
def packetValue (f : Frame) : Nat := (packetNumber f).val.foldr (fun b v => b.toNat + 256 * v) 0

def Station.keys (s : Station) : Octets 16 × Octets 48 × Octets 32 := (s.tk, s.eapol.ptk, s.eapol.gtk)

namespace Watched

def isStale (s : Watched) (f : Frame) : Bool := eapolKeyMsgType f == 3 && s.counter.any fun c => replayCounter f ≤ c

variable (P : Primitives)

def onData (s : Watched) (f : Frame) (cap : Nat) : Watched :=
  { s with
    delivered := f :: s.delivered
    taken := match wifiSessionRecvData P s.sta f cap with
      | .data _ => s.taken ++ [(s.sta.tk, packetValue f)]
      | _ => s.taken }

def onKey (s : Watched) (f : Frame) : Option Watched :=
  (wifiStaEapolIn P s.sta f 512).map fun r =>
    let taken := r.1 ≠ .failed ∧ (eapolKeyMsgType f = 1 ∨ eapolKeyMsgType f = 3)
    { s with
      sta := r.2
      counter := if taken then some (replayCounter f) else s.counter
      stale := s.stale || (s.isStale f && decide (taken ∨ r.2.keys ≠ s.sta.keys)) }

def step (s : Watched) : Arrival → Option Watched
  | .data f cap => some (s.onData P f cap)
  | .key f => s.onKey P f

/-- Under one key the packet numbers grow, and no old message 3 was taken. -/
structure ReplayFree (s : Watched) : Prop where
  numbers : s.taken.Pairwise fun x y => x.1 = y.1 → x.2 < y.2
  counters : s.stale = false

/-- Of the frames delivered, those sealed under the installed key are numbered upwards, and an old message 3 has a
wrong MIC. -/
def Safe (s : Watched) : Arrival → Prop
  | .data f _ => wifiDataDecrypt P s.sta.tk f ≠ none →
      ∀ g ∈ s.delivered, wifiDataDecrypt P s.sta.tk g ≠ none → packetValue g < packetValue f
  | .key f => s.isStale f = true → micFrame P (kck s.sta.eapol.ptk) f ≠ some (keyMic f)

instance (s : Watched) : (a : Arrival) → Decidable (s.Safe P a)
  | .data f _ => inferInstanceAs (Decidable (wifiDataDecrypt P s.sta.tk f ≠ none → ∀ g ∈ s.delivered, _))
  | .key f => inferInstanceAs (Decidable (s.isStale f = true → _))

variable {P} {s s' : Watched} {f : Frame} {cap : Nat} {sta : Station}

variable (P) in
/-- What was accepted had been delivered, sealed under the key of then. -/
structure Traced (s : Watched) : Prop extends s.ReplayFree where
  source : ∀ x ∈ s.taken, ∃ g ∈ s.delivered, wifiDataDecrypt P x.1 g ≠ none ∧ packetValue g = x.2

lemma decrypts_of_received {opened : Opened} (received : wifiSessionRecvData P sta f cap = .data opened) :
    wifiDataDecrypt P sta.tk f ≠ none := by
  intro hNone
  simp only [wifiSessionRecvData, hNone] at received
  split at received <;> cases received

lemma Traced.onData (h : s.Traced P) (safe : s.Safe P (.data f cap)) : (s.onData P f cap).Traced P := by
  unfold Watched.onData
  have hKept (x) (hx : x ∈ s.taken) : ∃ g ∈ f :: s.delivered, wifiDataDecrypt P x.1 g ≠ none ∧ packetValue g = x.2 := by
    obtain ⟨g, hg, hSource⟩ := h.source x hx
    exact ⟨g, mem_cons_of_mem f hg, hSource⟩
  split
  · rename_i hReceived
    have hDecrypts := decrypts_of_received hReceived
    refine ⟨⟨?_, h.counters⟩, ?_⟩
    · refine pairwise_append.mpr ⟨h.numbers, pairwise_singleton _ _, fun x hx y hy hKey => ?_⟩
      obtain ⟨g, hg, hSealed, hNumber⟩ := h.source x hx
      rw [mem_singleton.mp hy] at hKey ⊢
      rw [hKey] at hSealed
      rw [← hNumber]
      exact safe hDecrypts g hg hSealed
    · refine forall_mem_append.mpr ⟨hKept, forall_mem_singleton.mpr ?_⟩
      exact ⟨f, mem_cons_self, hDecrypts, rfl⟩
  · exact ⟨⟨h.numbers, h.counters⟩, hKept⟩

lemma eapolProcessMsg3_of_wrong_mic {e : Supplicant} {r : Bool × Supplicant}
    (hMic : micFrame P (kck e.ptk) f ≠ some (keyMic f)) (run : eapolProcessMsg3 P e f = some r) : r = (false, e) := by
  unfold eapolProcessMsg3 at run
  split at run
  · exact (some.inj run).symm
  split at run
  · exact (some.inj run).symm
  split at run
  · exact (some.inj run).symm
  obtain ⟨got, hGot, rfl⟩ := map_eq_some_iff.mp run
  have hWrong : keyMic f ≠ got := fun hEq => hMic (hGot.trans (congrArg some hEq.symm))
  rw [if_pos hWrong]

/-- A message 3 with the wrong MIC is refused and changes nothing. -/
lemma wifiStaEapolIn_of_wrong_mic {sta' : Station} {a : Answer}
    (hType : eapolKeyMsgType f = 3) (hMic : micFrame P (kck sta.eapol.ptk) f ≠ some (keyMic f))
    (run : wifiStaEapolIn P sta f cap = some (a, sta')) : a = .failed ∧ sta' = sta := by
  unfold wifiStaEapolIn at run
  rw [if_neg (show eapolKeyMsgType f ≠ 1 by rw [hType]; decide), if_pos hType] at run
  split at run
  · cases run
    exact ⟨rfl, rfl⟩
  cases hProcess : eapolProcessMsg3 P sta.eapol f with
  | none =>
    rw [hProcess] at run
    cases run
  | some r =>
    rw [hProcess, eapolProcessMsg3_of_wrong_mic hMic hProcess] at run
    cases run
    exact ⟨rfl, rfl⟩

lemma Traced.onKey (h : s.Traced P) (safe : s.Safe P (.key f)) (run : s.onKey P f = some s') : s'.Traced P := by
  obtain ⟨⟨a, sta⟩, hIn, rfl⟩ := map_eq_some_iff.mp run
  refine ⟨⟨h.numbers, ?_⟩, h.source⟩
  cases hStale : s.isStale f with
  | false => simp [h.counters]
  | true =>
    have hType : eapolKeyMsgType f = 3 := by
      simp only [isStale, Bool.and_eq_true, beq_iff_eq] at hStale
      exact hStale.1
    obtain ⟨rfl, rfl⟩ := wifiStaEapolIn_of_wrong_mic hType (safe hStale) hIn
    simp [h.counters]

lemma Traced.step (h : s.Traced P) {a : Arrival} (safe : s.Safe P a) (run : s.step P a = some s') :
    s'.Traced P := by
  cases a with
  | data f cap => exact some.inj run ▸ h.onData safe
  | key f => exact h.onKey safe run

/-- Where no replay that could pass arrives, the station stays free of replays. -/
theorem replayFree_of_safe
    (run : Reaches (Guarded (Safe P) fun s a s' => s.step P a = some s') { sta } s) : s.ReplayFree := by
  have hTraced : s.Traced P := run.invariant ⟨⟨.nil, rfl⟩, nofun⟩ fun _ _ _ h step => h.step step.1 step.2
  exact hTraced.toReplayFree

/-- A frame numbered `n` without payload, as `zeroPrimitives` seal it. -/
def zeroFrame (n : UInt8) : Frame :=
  [0x08, 0x42, 0, 0] ++ (zero 18).val ++ [0, 0, n, 0, 0, 0, 0, 0, 0x20, 0] ++ snapHeader ++ [0x08, 0] ++ (zero 8).val

theorem replayFree_of_new_numbers : ∃ s, s.taken.length = 2 ∧ ReplayFree s := by
  have hRun : (([.data (zeroFrame 1) 64, .data (zeroFrame 2) 64] : List Arrival).foldlM
      (fun s a => if Safe zeroPrimitives s a then s.step zeroPrimitives a else none)
        { sta := wifiStaInit (zero 6) }).any (fun s => s.taken.length = 2) = true := by
    decide +kernel
  obtain ⟨s, run, hTaken⟩ := (any_eq_true _ _).mp hRun
  exact ⟨s, by simpa using hTaken, replayFree_of_safe (Reaches.of_guarded_foldlM run)⟩

/-- The same data frame is accepted twice, and the same message 3 is. -/
theorem replays_not_replayFree :
    (∃ s, Reaches (fun s a s' => step zeroPrimitives s a = some s') { sta := wifiStaInit (zero 6) } s ∧
      ¬ s.ReplayFree) ∧
    ∃ sta s, Reaches (fun s a s' => step zeroPrimitives s a = some s') { sta } s ∧ s.stale = true := by
  constructor
  · have hRun : (([.data (zeroFrame 1) 64, .data (zeroFrame 1) 64] : List Arrival).foldlM
        (step zeroPrimitives) { sta := wifiStaInit (zero 6) }).any
          (fun s => s.taken = [(zero 16, 1), (zero 16, 1)]) = true := by
      decide +kernel
    obtain ⟨s, run, hTaken⟩ := (any_eq_true _ _).mp hRun
    have hTaken : s.taken = [(zero 16, 1), (zero 16, 1)] := by simpa using hTaken
    refine ⟨s, Reaches.of_foldlM run, fun h => ?_⟩
    have hNumbers := h.numbers
    rw [hTaken] at hNumbers
    exact absurd ((pairwise_cons.mp hNumbers).1 _ (by simp) rfl) (by decide)
  · have hRun : (([.key (keyFrame descRsn (wpaKiVersion ||| wpaKiType ||| wpaKiAck) 16 1 (zero 32) (zero 16) []),
        .key (keyFrame descRsn (wpaKiAck ||| wpaKiMic) 16 2 (zero 32) (zero 16) []),
        .key (keyFrame descRsn (wpaKiAck ||| wpaKiMic) 16 2 (zero 32) (zero 16) [])] : List Arrival).foldlM
          (step zeroPrimitives) { sta := wifiStaSetPmk (wifiStaInit (zero 6)) (zero 32) }).any
            (fun s => s.stale) = true := by
      decide +kernel
    obtain ⟨s, run, hStale⟩ := (any_eq_true _ _).mp hRun
    exact ⟨_, s, Reaches.of_foldlM run, hStale⟩

end Watched

end YartOS.Wifi
