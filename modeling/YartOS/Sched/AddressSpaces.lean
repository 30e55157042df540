import YartOS.Lib.Runs
import YartOS.Lib.Tally

/-! The lifetime of address spaces. Threads share a page table, counted in `g_shared_pml4`; the
last reference calls `vmm_free_pml4`. -/
namespace YartOS.Sched

open Runs Tally Function List Option

def sharedPml4Max : Nat := 64

/-- The used slots of `g_shared_pml4` with their `g_shared_refs`. -/
abbrev SharedTable := List (Nat × Nat)

namespace SharedTable

def schedPml4Ref (shared : SharedTable) (pml4 : Nat) : SharedTable :=
  if (shared.lookup pml4).isSome then
    shared.map fun e => if e.1 = pml4 then (e.1, e.2 + 1) else e
  else if shared.length < sharedPml4Max then shared ++ [(pml4, 2)]
  else shared

def schedPml4Unref (shared : SharedTable) (pml4 : Nat) : Bool × SharedTable :=
  match shared.lookup pml4 with
  | none => (true, shared)
  | some refs =>
    if refs ≤ 1 then (true, shared.filter fun e => e.1 ≠ pml4)
    else (false, shared.map fun e => if e.1 = pml4 then (e.1, e.2 - 1) else e)

end SharedTable

/-- Fields of `task_t`; `running` on some CPU, `reaped` off the task list. -/
structure Thread where
  pml4 : Option Nat
  zombie : Bool := false
  running : Bool := false
  reaped : Bool := false

def Thread.exitGroup (pml4 : Option Nat) (u : Thread) : Thread :=
  if u.pml4 = pml4 ∧ !u.reaped then { u with zombie := true } else u

def Thread.holds (p : Nat) (t : Thread) : Nat := if t.pml4 = some p ∧ !t.reaped then 1 else 0

/-- Page tables by order of allocation; `freed` logs `vmm_free_pml4`. -/
structure Spaces where
  threads : List Thread := []
  shared : SharedTable := []
  freed : List Nat := []
  next : Nat := 0

namespace Spaces

variable {s s' : Spaces} {i p q : Nat} {t : Thread}

variable (s : Spaces) (i : Nat) (t : Thread)

def drop (pml4 : Nat) : Spaces :=
  let r := s.shared.schedPml4Unref pml4
  { s with shared := r.2, freed := if r.1 then s.freed ++ [pml4] else s.freed }

def set : Spaces := { s with threads := s.threads.set i t }

def append : Spaces := { s with threads := s.threads ++ [t] }

def newPml4 : Spaces := { s with next := s.next + 1 }

/-- A process with an own address space, by `sched_create_user`, `sched_fork` or
`sched_clone_thread`. -/
def create : Spaces := s.newPml4.append { pml4 := some s.next }

def schedCloneThread (parent : Thread) : Spaces :=
  let s := s.append { pml4 := parent.pml4 }
  match parent.pml4 with
  | none => s
  | some pml4 => { s with shared := s.shared.schedPml4Ref pml4 }

/-- A victim that does not run drops its page table; the field is cleared only if that freed it. -/
def schedKill : Spaces :=
  let t := { t with zombie := true }
  match t.pml4 with
  | none => s.set i t
  | some pml4 =>
    if t.running then s.set i t
    else if (s.shared.schedPml4Unref pml4).1 then (s.drop pml4).set i { t with pml4 := none }
    else (s.drop pml4).set i t

/-- All other live threads of the address space become zombies. -/
def schedExitGroup : Spaces :=
  let s := { s with threads := s.threads.map (Thread.exitGroup t.pml4) }
  s.set i { t with zombie := true }

/-- The new image is built in a new page table; if that fails it is freed again. -/
def userExec (ok : Bool) : Spaces :=
  if ok then
    let s := s.newPml4.set i { t with pml4 := some s.next }
    match t.pml4 with
    | none => s
    | some pml4 => s.drop pml4
  else { s.newPml4 with freed := s.freed ++ [s.next] }

def reap : Spaces :=
  let s := match t.pml4 with
    | none => s
    | some pml4 => s.drop pml4
  s.set i { t with reaped := true }

inductive Event where
  | create
  | clone (i : Nat)
  | exit (i : Nat)
  | exitGroup (i : Nat)
  | kill (i : Nat)
  | exec (i : Nat) (ok : Bool)
  | reap (i : Nat)
  | switchTo (i : Nat)
  | switchAway (i : Nat)

/-- An event on thread `i`, if possible: callers run, and only zombies that run nowhere are reaped. -/
def act (s : Spaces) (t : Thread) : Event → Option Spaces
  | .create => some s.create
  | .clone _ => if t.running then some (s.schedCloneThread t) else none
  | .exit i => if t.running then some (s.set i { t with zombie := true }) else none
  | .exitGroup i => if t.running then some (s.schedExitGroup i t) else none
  | .kill i => if !t.zombie then some (s.schedKill i t) else none
  | .exec i ok => if t.running then some (s.userExec i t ok) else none
  | .reap i => if t.zombie ∧ !t.running then some (s.reap i t) else none
  | .switchTo i => if !t.zombie then some (s.set i { t with running := true }) else none
  | .switchAway i => some (s.set i { t with running := false })

def Event.thread : Event → Option Nat
  | .create => none
  | .clone i | .exit i | .exitGroup i | .kill i | .exec i _ | .reap i | .switchTo i
  | .switchAway i => some i

def step (s : Spaces) (event : Event) : Option Spaces :=
  match event.thread with
  | none => s.act { pml4 := none } event
  | some i => (s.threads[i]?).bind fun t => if t.reaped then none else s.act t event

def holders (s : Spaces) (p : Nat) : Nat := tally (Thread.holds p) s.threads

/-- Every page table is freed exactly once, and that when nobody has it any more. -/
def FreedOnce (s : Spaces) : Prop := ∀ p < s.next, s.freed.count p = if s.holders p = 0 then 1 else 0

/-- A thread killed off the CPU has its page table alone, and a shared one finds a slot. -/
def Counted (s : Spaces) : Event → Prop
  | .kill i => ∀ t p, s.threads[i]? = some t → t.running = false → t.pml4 = some p → s.holders p ≤ 1
  | .clone i => ∀ t p, s.threads[i]? = some t → t.pml4 = some p →
      (s.shared.lookup p).isSome ∨ s.shared.length < sharedPml4Max
  | _ => True

end Spaces

variable {shared : SharedTable} {p q : Nat}

lemma SharedTable.lookup_modify (f : Nat → Nat) (shared : SharedTable) (p q : Nat) :
    (shared.map fun e => if e.1 = p then (e.1, f e.2) else e).lookup q =
      if q = p then (shared.lookup p).map f else shared.lookup q := by
  induction shared with
  | nil => simp
  | cons e shared ih =>
    obtain ⟨k, r⟩ := e
    by_cases hk : k = p
    · subst hk
      by_cases hq : q = k
      · simp [hq]
      · simp [lookup_cons, hq, beq_false_of_ne hq, ih]
    · by_cases hq : q = k
      · subst hq
        simp [hk]
      · simp [map_cons, if_neg hk, lookup_cons, beq_false_of_ne hq, ih, beq_false_of_ne fun h => hk h.symm]

lemma SharedTable.lookup_remove (shared : SharedTable) (p q : Nat) :
    (shared.filter fun e => e.1 ≠ p).lookup q = if q = p then none else shared.lookup q := by
  induction shared with
  | nil => simp
  | cons e shared ih =>
    obtain ⟨k, r⟩ := e
    by_cases hk : k = p
    · subst hk
      rw [filter_cons_of_neg (by simp), ih, lookup_cons]
      by_cases hq : q = k
      · simp [hq]
      · simp [hq, beq_false_of_ne hq]
    · rw [filter_cons_of_pos (by simpa using hk), lookup_cons, lookup_cons, ih]
      by_cases hq : q = k
      · subst hq
        simp [hk]
      · simp [beq_false_of_ne hq]

/-- Counted page tables have as many references as holders, uncounted ones at most one holder. -/
structure Accounted (holders : Nat → Nat) (shared : SharedTable) (freed : List Nat)
    (next : Nat) : Prop where
  counted : ∀ p r, shared.lookup p = some r → r = holders p ∧ 1 ≤ r
  alone : ∀ p, shared.lookup p = none → holders p ≤ 1
  freedOnce : ∀ p < next, freed.count p = if holders p = 0 then 1 else 0
  fresh : ∀ p, next ≤ p → holders p = 0 ∧ shared.lookup p = none ∧ freed.count p = 0

namespace Accounted

variable {holders holders' : Nat → Nat} {freed : List Nat} {next : Nat}

variable (a : Accounted holders shared freed next)

include a

lemma lt_next (hp : 1 ≤ holders p) : p < next := by
  by_contra h
  have := (a.fresh p (Nat.not_lt.mp h)).1
  omega

/-- A change at page table `p`, which is known or the next one. -/
lemma change {shared' : SharedTable} {freed' : List Nat} {next' : Nat}
    (known : next' = next ∧ p < next ∨ next' = next + 1 ∧ p = next)
    (others : ∀ q, q ≠ p → holders' q = holders q ∧ shared'.lookup q = shared.lookup q ∧ freed'.count q = freed.count q)
    (counted : ∀ r, shared'.lookup p = some r → r = holders' p ∧ 1 ≤ r)
    (alone : shared'.lookup p = none → holders' p ≤ 1) (freedOnce : freed'.count p = if holders' p = 0 then 1 else 0) :
    Accounted holders' shared' freed' next' := by
  refine ⟨fun q => ?_, fun q => ?_, fun q hq => ?_, fun q hq => ?_⟩
  · by_cases hne : q = p
    · exact hne ▸ counted
    · rw [(others q hne).1, (others q hne).2.1]
      exact a.counted q
  · by_cases hne : q = p
    · exact hne ▸ alone
    · rw [(others q hne).1, (others q hne).2.1]
      exact a.alone q
  · by_cases hne : q = p
    · exact hne ▸ freedOnce
    · rw [(others q hne).1, (others q hne).2.2]
      exact a.freedOnce q (by omega)
  · obtain ⟨hHolders, hLookup, hFreed⟩ := others q (by omega)
    rw [hHolders, hLookup, hFreed]
    exact a.fresh q (by omega)

lemma drop (hp : holders' p + 1 = holders p) (others : ∀ q, q ≠ p → holders' q = holders q) :
    Accounted holders' (shared.schedPml4Unref p).2
      (if (shared.schedPml4Unref p).1 then freed ++ [p] else freed) next := by
  have hNext : p < next := a.lt_next (by omega)
  have hCount : freed.count p = 0 := by rw [a.freedOnce p hNext, if_neg (by omega)]
  -- the last holder goes: the slot is cleared and the table freed
  have last : ∀ {shared' : SharedTable}, holders p = 1 →
      (∀ q, shared'.lookup q = if q = p then none else shared.lookup q) →
      Accounted holders' shared' (freed ++ [p]) next := by
    intro shared' hOne hLookup
    refine a.change (.inl ⟨rfl, hNext⟩) (fun q hq => ⟨others q hq, ?_, ?_⟩) ?_ (fun _ => by omega) ?_
    · rw [hLookup, if_neg hq]
    · simp [Ne.symm hq]
    · simp [hLookup]
    · simp [hCount, show holders' p = 0 by omega]
  unfold SharedTable.schedPml4Unref
  cases hLookup : shared.lookup p with
  | none =>
    have := a.alone p hLookup
    refine last (by omega) fun q => ?_
    by_cases hq : q = p <;> simp [hq, hLookup]
  | some r =>
    obtain ⟨rfl, hr⟩ := a.counted p r hLookup
    simp only
    split
    · exact last (by omega) (SharedTable.lookup_remove shared p)
    have hMod := SharedTable.lookup_modify (· - 1) shared p
    simp only [hLookup, map_some] at hMod
    refine a.change (.inl ⟨rfl, hNext⟩) (fun q hq => ⟨others q hq, ?_, rfl⟩) (fun r h => ?_) (fun h => ?_) ?_
    · rw [hMod, if_neg hq]
    · rw [hMod, if_pos rfl, some.injEq] at h
      omega
    · simp [hMod] at h
    · simp [hCount, show holders' p ≠ 0 by omega]

/-- One more thread shares a page table that has a slot or gets one. -/
lemma ref (hHeld : 1 ≤ holders p) (hp : holders' p = holders p + 1) (others : ∀ q, q ≠ p → holders' q = holders q)
    (room : (shared.lookup p).isSome ∨ shared.length < sharedPml4Max) :
    Accounted holders' (shared.schedPml4Ref p) freed next := by
  have hNext : p < next := a.lt_next hHeld
  -- in both cases the count of `p` becomes the number of its holders
  have counted : ∀ {shared' : SharedTable},
      (∀ q, shared'.lookup q = if q = p then some (holders' p) else shared.lookup q) →
      Accounted holders' shared' freed next := by
    intro shared' hLookup
    refine a.change (.inl ⟨rfl, hNext⟩) (fun q hq => ⟨others q hq, ?_, rfl⟩) (fun r h => ?_) (fun h => ?_) ?_
    · rw [hLookup, if_neg hq]
    · rw [hLookup, if_pos rfl, some.injEq] at h
      omega
    · simp [hLookup] at h
    · rw [a.freedOnce p hNext, if_neg (by omega), if_neg (by omega)]
  unfold SharedTable.schedPml4Ref
  cases hLookup : shared.lookup p with
  | some r =>
    obtain ⟨rfl, -⟩ := a.counted p r hLookup
    simp only [isSome_some, if_true]
    apply counted
    intro q
    rw [SharedTable.lookup_modify (· + 1), hLookup, hp]
    rfl
  | none =>
    have := a.alone p hLookup
    rw [hLookup] at room
    simp only [isSome_none, Bool.false_eq_true, if_false, false_or] at room ⊢
    rw [if_pos room]
    apply counted
    intro q
    rw [lookup_append]
    by_cases hq : q = p
    · rw [if_pos hq, hq, hLookup, none_or, lookup_cons, beq_self_eq_true, hp, show holders p = 1 by omega]
    · rw [if_neg hq, lookup_cons, beq_false_of_ne hq]
      simp

lemma new (hNew : holders' next = 1) (others : ∀ q, q ≠ next → holders' q = holders q) :
    Accounted holders' shared freed (next + 1) := by
  obtain ⟨-, hLookup, hCount⟩ := a.fresh next (Nat.le_refl next)
  refine a.change (.inr ⟨rfl, rfl⟩) (fun q hq => ⟨others q hq, rfl, rfl⟩) ?_ (fun _ => Nat.le_of_eq hNew) ?_
  · simp [hLookup]
  · rw [hNew, hCount]
    rfl

/-- A new page table that is freed before any thread gets it. -/
lemma discarded : Accounted holders shared (freed ++ [next]) (next + 1) := by
  obtain ⟨hNone, hLookup, hCount⟩ := a.fresh next (Nat.le_refl next)
  refine a.change (.inr ⟨rfl, rfl⟩) (fun q hq => ⟨rfl, rfl, ?_⟩) ?_ (fun _ => by omega) ?_
  · simp [Ne.symm hq]
  · simp [hLookup]
  · simp [hNone, hCount]

end Accounted

namespace Spaces

variable {s s' : Spaces} {i : Nat} {t t' : Thread}

def Sound (s : Spaces) : Prop := Accounted s.holders s.shared s.freed s.next

lemma holders_set (h : s.threads[i]? = some t) (t' : Thread) (q : Nat) :
    (s.set i t').holders q + t.holds q = s.holders q + t'.holds q :=
  tally_set h t'

lemma holds_live (hReaped : t.reaped = false) : t.holds p = if t.pml4 = some p then 1 else 0 := by
  simp [Thread.holds, hReaped]

lemma holders_append (s : Spaces) (t : Thread) (q : Nat) : (s.append t).holders q = s.holders q + t.holds q := by
  simp [holders, append]

lemma held (h : s.threads[i]? = some t) (hReaped : t.reaped = false) (hPml4 : t.pml4 = some p) : 1 ≤ s.holders p := by
  have hHolds : t.holds p ≤ s.holders p := le_tally (mem_of_getElem? h)
  rwa [holds_live hReaped, if_pos hPml4] at hHolds

lemma act_of_step {event : Event} (h : s.step event = some s') (hi : event.thread = some i) :
    ∃ t, s.threads[i]? = some t ∧ t.reaped = false ∧ s.act t event = some s' := by
  unfold step at h
  rw [hi] at h
  obtain ⟨t, hThread, h⟩ := bind_eq_some_iff.mp h
  obtain ⟨hReaped, h⟩ := ite_none_left_eq_some.mp h
  exact ⟨t, hThread, by simpa using hReaped, h⟩

namespace Sound

lemma set_of_eq (ok : Sound s) (h : s.threads[i]? = some t) (hPml4 : t'.pml4 = t.pml4)
    (hReaped : t'.reaped = t.reaped) : Sound (s.set i t') := by
  have : (s.set i t').holders = s.holders := funext fun q =>
    tally_set_of_eq h (by rw [Thread.holds, Thread.holds, hPml4, hReaped])
  rw [Sound, this]
  exact ok

/-- A thread gives up its page table and drops the reference. -/
lemma drop (ok : Sound s) (h : s.threads[i]? = some t) (hReaped : t.reaped = false)
    (hPml4 : t.pml4 = some p) (hGone : ∀ q, t'.holds q = 0) : Sound ((s.drop p).set i t') := by
  have hHolders : ∀ q, (s.set i t').holders q + (if p = q then 1 else 0) = s.holders q := by
    intro q
    have := holders_set h t' q
    simpa [holds_live hReaped, hPml4, hGone] using this
  refine Accounted.drop ok ?_ fun q hq => ?_
  · rw [← hHolders p, if_pos rfl]
    rfl
  · rw [← hHolders q, if_neg (Ne.symm hq)]
    rfl

lemma create (ok : Sound s) : Sound s.create := by
  have hHolders : ∀ q, s.create.holders q = s.holders q + if s.next = q then 1 else 0 := by
    intro q
    rw [Spaces.create, holders_append, Thread.holds]
    simp [holders, newPml4]
  refine Accounted.new ok ?_ fun q hq => ?_
  · rw [hHolders, (ok.fresh s.next (Nat.le_refl _)).1, if_pos rfl]
  · rw [hHolders, if_neg (Ne.symm hq), Nat.add_zero]

section

variable (ok : Sound s) (h : s.threads[i]? = some t)

include ok h

lemma schedCloneThread (hReaped : t.reaped = false) (room : ∀ p, t.pml4 = some p →
      (s.shared.lookup p).isSome ∨ s.shared.length < sharedPml4Max) : Sound (s.schedCloneThread t) := by
  have hHolders : ∀ q, (s.append { pml4 := t.pml4 }).holders q = s.holders q + if t.pml4 = some q then 1 else 0 := by
    intro q
    rw [holders_append, holds_live rfl]
  unfold Spaces.schedCloneThread
  cases hPml4 : t.pml4 with
  | none =>
    have : (s.append { pml4 := none }).holders = s.holders := by
      funext q
      rw [← hPml4, hHolders, hPml4, if_neg (by simp), Nat.add_zero]
    simp only [Sound, this]
    exact ok
  | some p =>
    rw [hPml4] at hHolders
    refine Accounted.ref ok (held h hReaped hPml4) ?_ (fun q hq => ?_) (room p hPml4)
    · exact (hHolders p).trans (by rw [if_pos rfl])
    · exact (hHolders q).trans (by rw [if_neg (by simpa using Ne.symm hq), Nat.add_zero])

lemma schedKill (hReaped : t.reaped = false)
    (single : ∀ p, t.running = false → t.pml4 = some p → s.holders p ≤ 1) : Sound (s.schedKill i t) := by
  unfold Spaces.schedKill
  cases hPml4 : t.pml4 with
  | none => exact ok.set_of_eq h hPml4.symm rfl
  | some p =>
    simp only
    split
    · exact ok.set_of_eq h hPml4.symm rfl
    next hRunning =>
    have hOne := single p (by simpa using hRunning) hPml4
    split
    · exact ok.drop h hReaped hPml4 fun q => if_neg (by simp)
    next hLeft =>
    -- the reference that is left would be that of another holder
    exfalso
    apply hLeft
    unfold SharedTable.schedPml4Unref
    cases hLookup : s.shared.lookup p with
    | none => rfl
    | some r =>
      obtain ⟨rfl, -⟩ := ok.counted p r hLookup
      simp [hOne]

lemma schedExitGroup : Sound (s.schedExitGroup i t) := by
  have same : ∀ q u, (Thread.exitGroup t.pml4 u).holds q = u.holds q := by
    intro q u
    unfold Thread.exitGroup
    split <;> rfl
  have hMap : ({ s with threads := s.threads.map (Thread.exitGroup t.pml4) } : Spaces).holders = s.holders := by
    funext q
    change tally _ (s.threads.map _) = tally _ s.threads
    rw [tally, tally, List.map_map]
    exact congrArg sum (map_congr_left fun u _ => same q u)
  have marked : Sound { s with threads := s.threads.map (Thread.exitGroup t.pml4) } := by
    rw [Sound, hMap]
    exact ok
  apply marked.set_of_eq (t := Thread.exitGroup t.pml4 t)
  · rw [getElem?_map, h]
    rfl
  · unfold Thread.exitGroup
    split <;> rfl
  · unfold Thread.exitGroup
    split <;> rfl

lemma userExec (hReaped : t.reaped = false) (success : Bool) : Sound (s.userExec i t success) := by
  unfold Spaces.userExec
  cases success with
  | false => exact Accounted.discarded ok
  | true =>
    have changed : ∀ q, (s.newPml4.set i { t with pml4 := some s.next }).holders q +
        (if t.pml4 = some q then 1 else 0) = s.holders q + if s.next = q then 1 else 0 := by
      intro q
      rw [← holds_live hReaped]
      refine (holders_set (s := s.newPml4) h _ q).trans ?_
      simp [Thread.holds, hReaped, holders, newPml4]
    have fresh := (ok.fresh s.next (Nat.le_refl _)).1
    cases hPml4 : t.pml4 with
    | none =>
      simp only [hPml4, reduceCtorEq, if_false, Nat.add_zero] at changed
      refine Accounted.new ok ((changed s.next).trans ?_) fun q hq => (changed q).trans ?_
      · rw [fresh, if_pos rfl]
      · rw [if_neg (Ne.symm hq), Nat.add_zero]
    | some p =>
      -- first a holder of the new page table next to the old one, then the old one is dropped
      simp only [hPml4, some.injEq] at changed
      have hHeld := held h hReaped hPml4
      have hne : p ≠ s.next := by
        rintro rfl
        omega
      have both : Accounted (update s.holders s.next 1) s.shared s.freed (s.next + 1) :=
        Accounted.new ok (update_self ..) fun q hq => update_of_ne hq ..
      refine both.drop ?_ fun q hq => ?_
      · rw [update_of_ne hne]
        have := changed p
        rwa [if_pos rfl, if_neg (Ne.symm hne)] at this
      have := changed q
      rw [if_neg (Ne.symm hq)] at this
      by_cases hq' : q = s.next
      · rw [hq', update_self]
        rwa [hq', if_pos rfl, fresh] at this
      · rw [update_of_ne hq']
        rwa [if_neg (Ne.symm hq')] at this

lemma reap (hReaped : t.reaped = false) : Sound (s.reap i t) := by
  have gone : ∀ q, ({ t with reaped := true } : Thread).holds q = 0 := fun q => if_neg (by simp)
  unfold Spaces.reap
  split
  · next hPml4 =>
    have : (s.set i { t with reaped := true }).holders = s.holders := by
      funext q
      apply tally_set_of_eq h
      rw [gone, holds_live hReaped, if_neg (by simp [hPml4])]
    rw [Sound, this]
    exact ok
  · next p hPml4 => exact ok.drop h hReaped hPml4 gone

end

lemma start : Sound {} where
  counted := fun _ _ h => nomatch h
  alone := fun _ _ => Nat.zero_le 1
  freedOnce := fun p hp => absurd hp (Nat.not_lt_zero p)
  fresh := fun _ _ => ⟨rfl, rfl, rfl⟩

lemma step (ok : Sound s) (event : Event) (counted : Counted s event) (h : s.step event = some s') : Sound s' := by
  cases event with
  | create =>
    cases h
    exact ok.create
  | clone i =>
    obtain ⟨t, hThread, hReaped, h⟩ := act_of_step h rfl
    obtain ⟨-, ⟨⟩⟩ := ite_none_right_eq_some.mp h
    exact ok.schedCloneThread hThread hReaped fun p => counted t p hThread
  | exit i | switchTo i =>
    obtain ⟨t, hThread, -, h⟩ := act_of_step h rfl
    obtain ⟨-, ⟨⟩⟩ := ite_none_right_eq_some.mp h
    exact ok.set_of_eq hThread rfl rfl
  | exitGroup i =>
    obtain ⟨t, hThread, -, h⟩ := act_of_step h rfl
    obtain ⟨-, ⟨⟩⟩ := ite_none_right_eq_some.mp h
    exact ok.schedExitGroup hThread
  | kill i =>
    obtain ⟨t, hThread, hReaped, h⟩ := act_of_step h rfl
    obtain ⟨-, ⟨⟩⟩ := ite_none_right_eq_some.mp h
    exact ok.schedKill hThread hReaped fun p => counted t p hThread
  | exec i success =>
    obtain ⟨t, hThread, hReaped, h⟩ := act_of_step h rfl
    obtain ⟨-, ⟨⟩⟩ := ite_none_right_eq_some.mp h
    exact ok.userExec hThread hReaped success
  | reap i =>
    obtain ⟨t, hThread, hReaped, h⟩ := act_of_step h rfl
    obtain ⟨-, ⟨⟩⟩ := ite_none_right_eq_some.mp h
    exact ok.reap hThread hReaped
  | switchAway i =>
    obtain ⟨t, hThread, -, h⟩ := act_of_step h rfl
    cases h
    exact ok.set_of_eq hThread rfl rfl

end Sound

/-- In a run of counted steps every page table is freed once, with its last holder. -/
theorem freedOnce_of_counted_run
    (run : Reaches (Guarded Counted fun s event s' => s.step event = some s') {} s) : FreedOnce s := by
  have sound : Sound s := by
    apply run.invariant Sound.start
    intro s event s' ok h
    exact ok.step event h.1 h.2
  exact sound.freedOnce

/-- Two threads share an address space and exit one after the other. -/
theorem freedOnce_after_two_exits : ∃ s, Reaches (Guarded Counted fun s event s' => s.step event = some s') {} s ∧
      s.freed = [0] ∧ FreedOnce s := by
  have next : ∀ {s₁ s₂ : Spaces} (event : Event), Counted s₁ event → s₁.step event = some s₂ →
      Reaches (Guarded Counted fun s event s' => s.step event = some s') {} s₁ →
      Reaches (Guarded Counted fun s event s' => s.step event = some s') {} s₂ :=
    fun event counted h before => .tail event before ⟨counted, h⟩
  have created := next .create trivial rfl .refl
  have shared := next (.clone 0) (fun _ _ _ _ => .inr (by decide)) rfl (next (.switchTo 0) trivial rfl created)
  have first := next (.reap 0) trivial rfl (next (.switchAway 0) trivial rfl (next (.exit 0) trivial rfl shared))
  have gone := next (.reap 1) trivial rfl (next (.switchAway 1) trivial rfl
      (next (.exit 1) trivial rfl (next (.switchTo 1) trivial rfl first)))
  exact ⟨_, gone, rfl, freedOnce_of_counted_run gone⟩

/-- A thread killed in a queue drops the shared page table twice, and that of its running sibling
is freed. -/
theorem killed_thread_frees_sibling : ∃ s, Reaches (fun s event s' => s.step event = some s') {} s ∧ s.freed = [0] ∧
      s.holders 0 = 1 ∧ ¬ FreedOnce s := by
  have trace : ([.create, .switchTo 0, .clone 0, .kill 1, .reap 1].foldlM
      (fun (s : Spaces) (event : Event) => s.step event) {}).map
      (fun s => decide (s.freed = [0] ∧ s.holders 0 = 1 ∧ s.next = 1)) = some true := by decide
  obtain ⟨s, hRun, hEnd⟩ := map_eq_some_iff.mp trace
  rw [decide_eq_true_eq] at hEnd
  obtain ⟨hFreed, hHolders, hNext⟩ := hEnd
  refine ⟨s, Reaches.of_foldlM hRun, hFreed, hHolders, fun once => ?_⟩
  have := once 0 (by omega)
  rw [hFreed, hHolders] at this
  cases this

end Spaces

end YartOS.Sched
