import YartOS.Mm.Regions

/-! The stack of a new program (`build_user_stack_into`). Addresses are taken in 64 bits. -/
namespace YartOS.Exec

open Mm List

/-- Where the parts of the process image start. -/
structure StackImage where
  strings : Nat
  auxv : Nat
  envp : Nat
  argv : Nat
  argc : Nat

def below (x n : Nat) : Nat := wrap (x + 2 ^ 64 - wrap n)

def stringBytes (strings : List (List UInt8)) : Nat := (strings.map fun s => s.length + 1).sum

variable (top : Nat) (kargv kenvp : List (List UInt8)) (auxv : Option (List Nat))

def buildUserStack : StackImage :=
  let strbytes := (if auxv.isSome then 16 else 0) + (stringBytes kargv + stringBytes kenvp)
  let strings := below top (8 + strbytes)
  let auxvVa := match auxv with
    | some auxv => below strings ((auxv.length / 2 + 1) * 16)
    | none => strings
  let envpVa := below auxvVa ((kenvp.length + 1) * 8)
  let argvVa := below envpVa ((kargv.length + 1) * 8)
  { strings, auxv := auxvVa, envp := envpVa, argv := argvVa, argc := below argvVa 8 }

/-- The program starts with the stack pointer at `argc`. -/
structure StackImage.Aligned (s : StackImage) : Prop where
  rsp : s.argc % 16 = 0
  argv : s.argv % 8 = 0
  envp : s.envp % 8 = 0
  auxv : s.auxv % 8 = 0

lemma below_add (x n : Nat) : (below x n + n) % 16 = x % 16 := by
  unfold below wrap
  omega

/-- The strings are not padded, so their lengths decide. -/
theorem aligned_buildUserStack_iff (page : top % pageSize = 0) : (buildUserStack top kargv kenvp auxv).Aligned ↔
      (stringBytes kargv + stringBytes kenvp + 8 * (kargv.length + kenvp.length)) % 16 = 0 := by
  let s := buildUserStack top kargv kenvp auxv
  have strings : (s.strings + (8 + ((if auxv.isSome then 16 else 0) +
    (stringBytes kargv + stringBytes kenvp)))) % 16 = top % 16 := below_add _ _
  have pairs : s.auxv % 16 = s.strings % 16 ∧ (if auxv.isSome then 16 else 0) % 16 = 0 := by
    cases auxv with
    | none => exact ⟨rfl, rfl⟩
    | some auxv =>
      have : (s.auxv + (auxv.length / 2 + 1) * 16) % 16 = s.strings % 16 := below_add _ _
      exact ⟨by omega, by simp⟩
  have envp : (s.envp + (kenvp.length + 1) * 8) % 16 = s.auxv % 16 := below_add _ _
  have argv : (s.argv + (kargv.length + 1) * 8) % 16 = s.envp % 16 := below_add _ _
  have argc : (s.argc + 8) % 16 = s.argv % 16 := below_add _ _
  unfold pageSize at page
  change s.Aligned ↔ _
  refine ⟨fun aligned => ?_, fun h => ⟨?_, ?_, ?_, ?_⟩⟩
  · have := aligned.rsp
    omega
  all_goals omega

theorem not_aligned_of_one_letter : ¬ (buildUserStack 0x7ffff000 [[97]] [] (some [])).Aligned :=
  fun h => absurd h.rsp (by decide)

theorem aligned_of_seven_letters : (buildUserStack 0x7ffff000 [replicate 7 97] [] (some [])).Aligned :=
  (aligned_buildUserStack_iff _ _ _ _ (by decide)).mpr (by decide)

end YartOS.Exec
