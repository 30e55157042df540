import YartOS.Lib.Runs
import Mathlib.Tactic.Ring

/-! The credentials of tasks, and the calls of both ABIs that copy or change them. A family are a
task and all it has created. -/
namespace YartOS.Sched

open Runs List

/-- The credential fields of `task_t`, and the ABI that the task calls. -/
structure Cred where
  uid : UInt32
  euid : UInt32
  gid : UInt32
  suppGids : Fin 8 → UInt32 := fun _ => 0
  suppGidCount : Nat := 0
  elevAllowed : Bool := false
  linuxAbi : Bool := false

namespace Cred

/-- The child of `sched_fork` starts as zeros and gets no primary group. -/
def schedFork (parent : Cred) : Cred where
  uid := parent.uid
  euid := parent.euid
  gid := 0
  suppGids := parent.suppGids
  suppGidCount := parent.suppGidCount
  elevAllowed := parent.elevAllowed
  linuxAbi := parent.linuxAbi

def schedCloneThread (parent : Cred) : Cred where
  uid := parent.uid
  euid := parent.euid
  gid := parent.gid
  suppGids := parent.suppGids
  suppGidCount := parent.suppGidCount
  elevAllowed := parent.elevAllowed
  linuxAbi := parent.linuxAbi

variable (t : Cred)

/-- `user_exec` keeps the credentials. -/
def userExec (isLinux : Bool) : Cred := { t with linuxAbi := isLinux }

def sysSetuid (uid : UInt32) : Cred :=
  if t.euid ≠ 0 then t else { t with uid := uid, euid := uid, gid := uid }

def sysSetgid (gid : UInt32) : Cred :=
  if t.euid ≠ 0 then t else { t with gid := gid, suppGidCount := 0 }

/-- `checked` is the result of the password check. -/
def sysDoas (checked : Bool) : Cred :=
  if t.euid = 0 then t
  else if !t.elevAllowed then t
  else if !checked then t
  else { t with euid := 0 }

def sysDrop : Cred := { t with euid := t.uid }

/-- An identity that is left as it is. -/
def keepId : UInt32 := 0xFFFFFFFF

def linuxSetreuid (ruid euid : UInt32) : Cred :=
  let t := if ruid ≠ keepId then { t with uid := ruid } else t
  if euid ≠ keepId then { t with euid := euid } else t

def linuxSetresuid (ruid euid _suid : UInt32) : Cred := t.linuxSetreuid ruid euid

def linuxSetregid (rgid _egid : UInt32) : Cred :=
  if rgid ≠ keepId then { t with gid := rgid } else t

def linuxSetresgid (rgid egid _sgid : UInt32) : Cred := t.linuxSetregid rgid egid

/-- `list` is what the user pointer leads to; `none` when it may not be read. -/
def linuxSetgroups (size : Nat) (list : Option (Nat → UInt32)) : Cred :=
  if 8 < size then t
  else
    match list with
    | none => t
    | some gids =>
      if 0 < size then
        { t with
          suppGids := fun i => if i < size then gids i else t.suppGids i
          suppGidCount := size }
      else t

/-- Neither the effective user nor any group is 0. -/
def Unprivileged : Prop := t.euid ≠ 0 ∧ t.gid ≠ 0 ∧ ∀ i : Fin 8, i < t.suppGidCount → t.suppGids i ≠ 0

instance (t : Cred) : Decidable t.Unprivileged := inferInstanceAs (Decidable (_ ∧ _))

structure Ordinary (t : Cred) : Prop where
  uid : t.uid ≠ 0
  unprivileged : t.Unprivileged
  noElevation : t.elevAllowed = false

end Cred

/-- The calls on tasks or credentials. `ok`: the child was allocated; `image`: the program loaded. -/
inductive CredCall where
  | fork (ok : Bool)
  | clone (ok : Bool)
  | exec (image : Option Bool)
  | setuid (uid : UInt32)
  | setgid (gid : UInt32)
  | doas (checked : Bool)
  | drop
  | setreuid (ruid euid : UInt32)
  | setresuid (ruid euid suid : UInt32)
  | setregid (rgid egid : UInt32)
  | setresgid (rgid egid sgid : UInt32)
  | setgroups (size : Nat) (list : Option (Nat → UInt32))

namespace CredCall

/-- The dispatcher of the ABI has a number for the call. -/
def available (linuxAbi : Bool) : CredCall → Bool
  | fork _ | exec _ | setuid _ | setgid _ => true
  | doas _ | drop => !linuxAbi
  | clone _ | setreuid .. | setresuid .. | setregid .. | setresgid .. | setgroups .. => linuxAbi

def caller (t : Cred) : CredCall → Cred
  | fork _ | clone _ => t
  | exec image => image.elim t t.userExec
  | setuid uid => t.sysSetuid uid
  | setgid gid => t.sysSetgid gid
  | doas checked => t.sysDoas checked
  | drop => t.sysDrop
  | setreuid ruid euid => t.linuxSetreuid ruid euid
  | setresuid ruid euid suid => t.linuxSetresuid ruid euid suid
  | setregid rgid egid => t.linuxSetregid rgid egid
  | setresgid rgid egid sgid => t.linuxSetresgid rgid egid sgid
  | setgroups size list => t.linuxSetgroups size list

def child (t : Cred) : CredCall → Option Cred
  | fork ok => if ok then some t.schedFork else none
  | clone ok => if ok then some t.schedCloneThread else none
  | _ => none

def Harmless (t : Cred) : CredCall → Prop
  | fork ok => ok = false
  | clone _ | exec _ | setuid _ | setgid _ | doas _ => True
  | drop => t.uid ≠ 0
  | setreuid _ euid | setresuid _ euid _ => euid ≠ 0
  | setregid rgid _ | setresgid rgid _ _ => rgid ≠ 0
  | setgroups size list => size ≤ 8 → ∀ gids, list = some gids → ∀ i < size, gids i ≠ 0

end CredCall

/-- One call by a task; what does not exist changes nothing. -/
def Family.apply (family : List Cred) (event : Nat × CredCall) : List Cred :=
  match family[event.1]? with
  | none => family
  | some t =>
    if event.2.available t.linuxAbi then
      family.set event.1 (event.2.caller t) ++ (event.2.child t).toList
    else family

def Family.Safe (family : List Cred) (event : Nat × CredCall) : Prop :=
  ∀ t, family[event.1]? = some t → event.2.available t.linuxAbi = true → event.2.Harmless t

variable {t : Cred} {call : CredCall} {family : List Cred}

lemma CredCall.caller_elevAllowed (t : Cred) (call : CredCall) : (call.caller t).elevAllowed = t.elevAllowed := by
  cases call with
  | exec image => cases image <;> rfl
  | setuid uid => simp [caller, Cred.sysSetuid]; split <;> rfl
  | setgid gid => simp [caller, Cred.sysSetgid]; split <;> rfl
  | doas checked => simp [caller, Cred.sysDoas]; split_ifs <;> rfl
  | setreuid ruid euid => simp [caller, Cred.linuxSetreuid]; split_ifs <;> rfl
  | setresuid ruid euid suid =>
    simp [caller, Cred.linuxSetresuid, Cred.linuxSetreuid]; split_ifs <;> rfl
  | setregid rgid egid => simp [caller, Cred.linuxSetregid]; split <;> rfl
  | setresgid rgid egid sgid =>
    simp [caller, Cred.linuxSetresgid, Cred.linuxSetregid]; split <;> rfl
  | setgroups size list =>
    simp only [caller, Cred.linuxSetgroups]
    split_ifs
    · rfl
    · cases list with
      | none => rfl
      | some gids => split <;> rfl
    · cases list <;> rfl
  | fork _ | clone _ | drop => rfl

section

variable (ht : t.Unprivileged)

include ht

lemma Cred.linuxSetreuid_unprivileged_iff (ruid euid : UInt32) :
    (t.linuxSetreuid ruid euid).Unprivileged ↔ euid ≠ 0 := by
  unfold linuxSetreuid
  by_cases hKeep : euid = keepId
  · have : euid ≠ 0 := by
      rw [hKeep]
      decide
    simp only [if_neg (not_not_intro hKeep)]
    split <;> exact iff_of_true ht this
  · split <;> exact ⟨fun h => h.1, fun h => ⟨h, ht.2⟩⟩

lemma Cred.linuxSetregid_unprivileged_iff (rgid egid : UInt32) :
    (t.linuxSetregid rgid egid).Unprivileged ↔ rgid ≠ 0 := by
  unfold linuxSetregid
  by_cases hKeep : rgid = keepId
  · have : rgid ≠ 0 := by
      rw [hKeep]
      decide
    rw [if_neg (not_not_intro hKeep)]
    exact iff_of_true ht this
  · rw [if_pos hKeep]
    exact ⟨fun h => h.2.1, fun h => ⟨ht.1, h, ht.2.2⟩⟩

lemma Cred.linuxSetgroups_unprivileged_iff (size : Nat)
    (list : Option (Nat → UInt32)) : (t.linuxSetgroups size list).Unprivileged ↔
      (size ≤ 8 → ∀ gids, list = some gids → ∀ i < size, gids i ≠ 0) := by
  unfold linuxSetgroups
  by_cases hSize : 8 < size
  · rw [if_pos hSize]
    exact iff_of_true ht fun h => absurd h (Nat.not_le.mpr hSize)
  rw [if_neg hSize]
  cases list with
  | none => exact iff_of_true ht fun _ _ h => nomatch h
  | some gids =>
    cases size with
    | zero => exact iff_of_true ht fun _ _ _ i hi => absurd hi (Nat.not_lt_zero i)
    | succ n =>
      simp only [Nat.succ_pos, if_true]
      constructor
      · intro h _ gids' hEq i hi
        cases hEq
        have := h.2.2 ⟨i, by omega⟩ hi
        simpa [hi, if_true] using this
      · intro h
        refine ⟨ht.1, ht.2.1, fun i hi => ?_⟩
        simp only [show (i : Nat) < n + 1 from hi, if_true]
        exact h (by omega) gids rfl i hi

/-- A call leaves an unprivileged task and its child so iff it is harmless. -/
lemma CredCall.harmless_iff (noElevation : t.elevAllowed = false)
    (call : CredCall) : ((call.caller t).Unprivileged ∧ ∀ c ∈ (call.child t).toList, c.Unprivileged) ↔
      call.Harmless t := by
  have alone : ∀ {t' : Cred} {P : Prop}, (t'.Unprivileged ↔ P) →
      ((t'.Unprivileged ∧ ∀ c ∈ (none : Option Cred).toList, c.Unprivileged) ↔ P) := by
    intro t' P h
    rw [h]
    exact and_iff_left fun c hc => nomatch hc
  cases call with
  | fork ok =>
    cases ok with
    | false => exact iff_of_true ⟨ht, fun c hc => nomatch hc⟩ rfl
    | true =>
      refine iff_of_false (fun h => ?_) (by simp [Harmless])
      exact (h.2 t.schedFork (by simp [child])).2.1 rfl
  | clone ok =>
    refine iff_of_true ⟨ht, fun c hc => ?_⟩ trivial
    cases ok with
    | false => exact nomatch hc
    | true =>
      rw [mem_singleton.mp hc]
      exact ht
  | exec image => exact alone (iff_of_true (by cases image <;> exact ht) trivial)
  | setuid uid => exact alone (iff_of_true (by rwa [caller, Cred.sysSetuid, if_pos ht.1]) trivial)
  | setgid gid => exact alone (iff_of_true (by rwa [caller, Cred.sysSetgid, if_pos ht.1]) trivial)
  | doas checked =>
    apply alone (iff_of_true _ trivial)
    rwa [caller, Cred.sysDoas, if_neg ht.1, if_pos (by simp [noElevation])]
  | drop => exact alone ⟨fun h => h.1, fun h => ⟨h, ht.2⟩⟩
  | setreuid ruid euid => exact alone (Cred.linuxSetreuid_unprivileged_iff ht ruid euid)
  | setresuid ruid euid suid => exact alone (Cred.linuxSetreuid_unprivileged_iff ht ruid euid)
  | setregid rgid egid => exact alone (Cred.linuxSetregid_unprivileged_iff ht rgid egid)
  | setresgid rgid egid sgid => exact alone (Cred.linuxSetregid_unprivileged_iff ht rgid egid)
  | setgroups size list => exact alone (Cred.linuxSetgroups_unprivileged_iff ht size list)

end

lemma CredCall.child_elevAllowed {c : Cred} (h : c ∈ (call.child t).toList) : c.elevAllowed = t.elevAllowed := by
  cases call with
  | fork ok | clone ok =>
    cases ok with
    | false => exact nomatch h
    | true =>
      rw [mem_singleton.mp h]
      rfl
  | _ => exact nomatch h

lemma forall_mem_set_iff {Q : Cred → Prop} {i : Nat} (hi : i < family.length)
    (old : ∀ u ∈ family, Q u) (t : Cred) : (∀ u ∈ family.set i t, Q u) ↔ Q t := by
  constructor
  · intro h
    exact h t (mem_set hi t)
  · intro h u hu
    cases mem_or_eq_of_mem_set hu with
    | inl hu => exact old u hu
    | inr hu => exact hu ▸ h

lemma Family.apply_elevAllowed (event : Nat × CredCall) (noElevation : ∀ t ∈ family, t.elevAllowed = false) :
    ∀ t ∈ Family.apply family event, t.elevAllowed = false := by
  unfold Family.apply
  split
  · exact noElevation
  next t hMem =>
  have now := noElevation t (mem_of_getElem? hMem)
  have hi := (List.getElem?_eq_some_iff.mp hMem).1
  split
  · rw [forall_mem_append, forall_mem_set_iff hi noElevation]
    exact ⟨(event.2.caller_elevAllowed t).trans now, fun c hc => (CredCall.child_elevAllowed hc).trans now⟩
  · exact noElevation

lemma Family.unprivileged_iff_safe (event : Nat × CredCall)
    (noElevation : ∀ t ∈ family, t.elevAllowed = false) (before : ∀ t ∈ family, t.Unprivileged) :
    (∀ t ∈ Family.apply family event, t.Unprivileged) ↔ Family.Safe family event := by
  unfold Family.apply Family.Safe
  split
  · next hNone => exact iff_of_true before fun t h => nomatch hNone.symm.trans h
  next t hMem =>
  have hi := (List.getElem?_eq_some_iff.mp hMem).1
  have hIn := mem_of_getElem? hMem
  simp only [hMem, Option.some.injEq, forall_eq']
  split
  · next hAvailable =>
    rw [forall_mem_append, forall_mem_set_iff hi before, CredCall.harmless_iff (before t hIn) (noElevation t hIn)]
    exact ⟨fun h _ => h, fun h => h hAvailable⟩
  · next hNot => exact iff_of_true before fun h => absurd h hNot

/-- No task of an ordinary family ever gets user or group 0 iff every call is harmless. -/
theorem family_unprivileged_iff (start : t.Ordinary) (events : List (Nat × CredCall)) :
    Along Family.apply (fun _ _ family => ∀ u ∈ family, u.Unprivileged) [t] events ↔
      Along Family.apply (fun family event _ => Family.Safe family event) [t] events := by
  apply @Along.iff_safe _ _ _ fun family => ∀ u ∈ family, u.elevAllowed = false
  · exact fun family event => Family.apply_elevAllowed event
  · exact fun family event => Family.unprivileged_iff_safe event
  · simpa using start.noElevation
  · simpa using start.unprivileged

theorem family_unprivileged_after_clone : (⟨1000, 1000, 1000, fun _ => 0, 0, false, true⟩ : Cred).Ordinary ∧
      Along Family.apply (fun _ _ family => ∀ u ∈ family, u.Unprivileged)
        [⟨1000, 1000, 1000, fun _ => 0, 0, false, true⟩]
        [(0, .clone true), (1, .setreuid 1001 1001), (1, .setuid 0)] := by
  have start : (⟨1000, 1000, 1000, fun _ => 0, 0, false, true⟩ : Cred).Ordinary := ⟨by decide, by decide, rfl⟩
  refine ⟨start, (family_unprivileged_iff start _).mpr ⟨fun _ _ _ => trivial, ?_, ?_, trivial⟩⟩
  · intro u _ _
    exact show (1001 : UInt32) ≠ 0 by decide
  · intro u _ _
    trivial

/-- An ordinary Linux task makes itself root, and a fork puts the child into group 0. -/
theorem ordinary_task_becomes_root : (⟨1000, 1000, 1000, fun _ => 0, 0, false, true⟩ : Cred).Ordinary ∧
      ((Family.apply [⟨1000, 1000, 1000, fun _ => 0, 0, false, true⟩]
        (0, .setreuid Cred.keepId 0)).map Cred.euid = [0]) ∧
      ((Family.apply [⟨1000, 1000, 1000, fun _ => 0, 0, false, true⟩] (0, .fork true)).map Cred.gid = [1000, 0]) :=
  ⟨⟨by decide, by decide, rfl⟩, by decide, by decide⟩

end YartOS.Sched
