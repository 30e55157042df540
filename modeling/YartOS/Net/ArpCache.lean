import YartOS.Net.Parsing

/-! What the ARP cache remembers of the stores made so far. -/
namespace YartOS.Net.Inbound

open Bytes Function List

/-- A call of `arp_store`, so many ticks after the one before it. -/
structure ArpCall where
  after : Nat
  ip : Nat
  mac : Buffer

def Stack.wait (s : Stack) (d : Nat) : Stack := { s with now := s.now + d }

def Stack.stored (s : Stack) (c : ArpCall) : Stack := arpStore c.ip c.mac (s.wait c.after)

def Stack.calls (s : Stack) (l : List ArpCall) : Stack := l.foldl stored s

def arpMac (s : Stack) (ip : Nat) : Option Buffer := (arpLookup s ip).bind fun i => (s.arp i).map (·.mac)

/-- The address in the most recent store for `ip`. -/
def lastMac (ip : Nat) (l : List ArpCall) : Option Buffer :=
  l.foldl (fun m c => if c.ip = ip then some c.mac else m) none

def ArpEntry.Live (e : ArpEntry) (s : Stack) : Prop := s.now - e.time < arpTtl

variable {s : Stack} {l : List ArpCall} {ip d : Nat} {mac : Buffer} {i : Fin cacheSize} {e : ArpEntry}

lemma live_of_arpLookup (h : arpLookup s ip = some i) : ∃ e, s.arp i = some e ∧ e.ip = ip ∧ e.Live s := by
  have hFound := find?_some h
  cases he : s.arp i with
  | none => simp [he] at hFound
  | some e => exact ⟨e, rfl, by simpa [he, ArpEntry.Live] using hFound⟩

lemma not_live_of_arpLookup (h : arpLookup s ip = none) (he : s.arp i = some e) (hip : e.ip = ip) : ¬ e.Live s := by
  have := find?_eq_none.mp h i (mem_finRange i)
  simpa [he, hip, ArpEntry.Live] using this

/-- A store changes a live entry, takes a free slot, or does nothing. -/
lemma arpStore_cases (s : Stack) (ip : Nat) (mac : Buffer) : (∃ i e, s.arp i = some e ∧ e.ip = ip ∧ e.Live s ∧
      arpStore ip mac s = { s with arp := update s.arp i (some { e with mac }) }) ∨
    (∃ i, arpLookup s ip = none ∧ s.arp i = none ∧
      arpStore ip mac s = { s with arp := update s.arp i (some ⟨ip, mac, s.now⟩) }) ∨
    arpLookup s ip = none ∧ (∀ i, s.arp i ≠ none) ∧ arpStore ip mac s = s := by
  unfold arpStore
  cases hFound : arpLookup s ip with
  | some i =>
    obtain ⟨e, he, hip, hLive⟩ := live_of_arpLookup hFound
    exact .inl ⟨i, e, he, hip, hLive, by simp [he]⟩
  | none =>
    cases hFree : (finRange cacheSize).find? fun i => (s.arp i).isNone with
    | some i => exact .inr (.inl ⟨i, rfl, by simpa using find?_some hFree, rfl⟩)
    | none => exact .inr (.inr ⟨rfl, fun i => by simpa using find?_eq_none.mp hFree i (mem_finRange i), rfl⟩)

/-- At most one entry for an address is live, with the last stored address. -/
structure Remembers (l : List ArpCall) (s : Stack) : Prop where
  past : ∀ i e, s.arp i = some e → e.time ≤ s.now
  one : ∀ i j e e', s.arp i = some e → s.arp j = some e' → e.ip = e'.ip → e.Live s → e'.Live s → i = j
  last : ∀ i e, s.arp i = some e → e.Live s → lastMac e.ip l = some e.mac

namespace Remembers

lemma wait (h : Remembers l s) (d : Nat) : Remembers l (s.wait d) := by
  have hLive {i e} (he : s.arp i = some e) (live : e.Live (s.wait d)) : e.Live s := by
    have := h.past i e he
    unfold ArpEntry.Live Stack.wait at *
    simp only at live
    omega
  exact ⟨fun i e he => (h.past i e he).trans (Nat.le_add_right _ d),
    fun i j e e' he he' hip hi hj => h.one i j e e' he he' hip (hLive he hi) (hLive he' hj),
    fun i e he live => h.last i e he (hLive he live)⟩

lemma store {c : ArpCall} (h : Remembers l s) : Remembers (l ++ [c]) (arpStore c.ip c.mac s) := by
  have hLast (ip : Nat) : lastMac ip (l ++ [c]) = if c.ip = ip then some c.mac else lastMac ip l := by simp [lastMac]
  obtain ⟨hPast, hOne, hMac⟩ := h
  have hDead := @not_live_of_arpLookup s c.ip
  rcases arpStore_cases s c.ip c.mac with ⟨k, e₀, he₀, hip, live, hs⟩ | ⟨k, hNone, hFree, hs⟩ | ⟨hNone, -, hs⟩ <;>
    rw [hs] <;> refine ⟨fun i e he => ?_, fun i j e e' he he' hSame hi hj => ?_, fun i e he hi => ?_⟩
  all_goals simp only [update_apply, ArpEntry.Live, hLast] at *
  all_goals grind

lemma run (empty : ∀ i, s.arp i = none) (l : List ArpCall) : Remembers l (s.calls l) := by
  induction l using reverseRecOn with
  | nil => constructor <;> simp [Stack.calls, empty]
  | append_singleton l c ih =>
    rw [Stack.calls, foldl_append]
    exact (ih.wait c.after).store

end Remembers

/-- An entry keeps its slot and its time. -/
lemma kept_of_stored (l : List ArpCall) (he : s.arp i = some e) :
    ∃ e', (s.calls l).arp i = some e' ∧ e'.ip = e.ip ∧ e'.time = e.time := by
  induction l generalizing s e with
  | nil => exact ⟨e, he, rfl, rfl⟩
  | cons c l ih =>
    obtain ⟨e₁, he₁, hip, hTime⟩ : ∃ e', (s.stored c).arp i = some e' ∧ e'.ip = e.ip ∧ e'.time = e.time := by
      have hw : (s.wait c.after).arp i = some e := he
      unfold Stack.stored
      rcases arpStore_cases (s.wait c.after) c.ip c.mac with ⟨k, e₀, he₀, -, -, hs⟩ | ⟨k, -, hFree, hs⟩ | ⟨-, -, hs⟩
      all_goals rw [hs]
      all_goals grind [update_apply]
    rw [← hip, ← hTime]
    exact ih he₁

/-- A lookup finds the last stored address, for `arpTtl` after a store that took a slot. -/
theorem arpMac_latest (s : Stack) (empty : ∀ i, s.arp i = none) (l : List ArpCall) (ip d : Nat) :
    (∀ m, arpMac ((s.calls l).wait d) ip = some m → lastMac ip l = some m) ∧
      ∀ l₁ c l₂, l = l₁ ++ c :: l₂ → c.ip = ip → arpLookup ((s.calls l₁).wait c.after) ip = none →
        (∃ i, (s.calls l₁).arp i = none) →
        (s.calls l).now + d - ((s.calls l₁).now + c.after) < arpTtl →
        arpMac ((s.calls l).wait d) ip = lastMac ip l := by
  have hRun := (Remembers.run empty l).wait d
  have hFound {m} (h : arpMac ((s.calls l).wait d) ip = some m) : lastMac ip l = some m := by
    obtain ⟨i, hi, hMac⟩ := Option.bind_eq_some_iff.mp h
    obtain ⟨e, he, rfl, hLive⟩ := live_of_arpLookup hi
    rw [he] at hMac
    cases hMac
    exact hRun.last i e he hLive
  refine ⟨fun m => hFound, ?_⟩
  rintro l₁ c l₂ rfl rfl hNone ⟨i, hFree⟩ hYoung
  cases hLookup : arpLookup ((s.calls (l₁ ++ c :: l₂)).wait d) c.ip with
  | some i =>
    obtain ⟨e, he, -⟩ := live_of_arpLookup hLookup
    have hMac : arpMac ((s.calls (l₁ ++ c :: l₂)).wait d) c.ip = some e.mac := by
      rw [arpMac, hLookup, Option.bind_some, he]
      rfl
    rw [hMac, hFound hMac]
  | none =>
    rw [show s.calls (l₁ ++ c :: l₂) = ((s.calls l₁).stored c).calls l₂ from foldl_append] at *
    rcases arpStore_cases ((s.calls l₁).wait c.after) c.ip c.mac with
      ⟨k, e, he, hip, live, -⟩ | ⟨k, -, -, hs⟩ | ⟨-, hFull, -⟩
    · exact absurd live (not_live_of_arpLookup hNone he hip)
    · obtain ⟨e, he, hip, hTime⟩ := @kept_of_stored ((s.calls l₁).stored c) k ⟨c.ip, c.mac, _⟩ l₂
        (by rw [Stack.stored, hs]; exact update_self ..)
      refine absurd ?_ (not_live_of_arpLookup hLookup he hip)
      unfold ArpEntry.Live
      rw [hTime]
      exact hYoung
    · exact absurd hFree (hFull i)

theorem replaced_found :
    arpMac ((freshStack.calls [⟨0, 7, zeros⟩, ⟨1, 7, fun _ => 2⟩]).wait 1) 7 = some fun _ => 2 :=
  (arpMac_latest freshStack (fun _ => rfl) _ 7 1).2 [] ⟨0, 7, zeros⟩ _ rfl rfl rfl ⟨⟨0, by decide⟩, rfl⟩ (by decide)

/-- The second store is as old as one tick, but the entry expires by the first. -/
theorem refreshed_expires : arpMac ((freshStack.calls [⟨0, 7, zeros⟩, ⟨749, 7, zeros⟩]).wait 1) 7 = none := by rfl

end YartOS.Net.Inbound
