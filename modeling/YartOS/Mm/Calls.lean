import YartOS.Mm.Space

/-! The system calls by which a task maps memory. -/
namespace YartOS.Mm

open Programs

/-- The loop of `vmm_user_find_free`, which skips each region at most once. -/
def vmmUserFindFree (regions : List Region) (npages limit : Nat) : Nat → Nat → Nat
  | 0, _ => 0
  | rounds + 1, cand =>
    let finish := wrap (cand + wrap (npages * pageSize))
    if finish ≤ limit then
      match regions.find? fun r => cand < r.finish && r.start < finish with
      | some r => vmmUserFindFree regions npages limit rounds r.finish
      | none => cand
    else 0

def reserveFound (found pages : Nat) (flags : PteFlags) : Prog Mem Bool :=
  if found = 0 then pure false else vmmUserReserve found pages flags false

/-- One round of the loop of `sys_mmap_prot`. -/
def mmapRound (len : Nat) (flags : PteFlags) : Prog Mem (Option Nat) := do
  let m ← get
  let pages := len / pageSize
  let cand := max (pageAlignUp m.proc.mmapNext) userMmapBase
  let found := vmmUserFindFree m.proc.regions pages userMmapEnd (m.proc.regions.length + 1)
    (pageAlignUp cand)
  let reserved ← reserveFound found pages flags
  if reserved then do
    modify fun m => { m with proc.mmapNext := wrap (found + len + pageSize) }
    pure (some found)
  else do
    modify fun m => { m with proc.mmapNext := userMmapBase }
    pure none

def sysMmapProt (len : Nat) (exec : Bool) : Prog Mem (Option Nat) :=
  if len = 0 ∨ userMmapEnd - userMmapBase < len then pure none
  else do
    let flags : PteFlags := { rw := true, us := true, nx := !exec }
    match ← mmapRound (pageAlignUp len) flags with
    | some va => pure (some va)
    | none => mmapRound (pageAlignUp len) flags

def growBrk (addr : Nat) : Prog Mem Bool := do
  let m ← get
  let start := pageAlignUp m.proc.brk
  let finish := pageAlignUp addr
  if addr ≤ m.proc.brk ∨ finish ≤ start then pure true
  else if m.proc.memPages + (finish - start) / pageSize > memLimitPages then pure false
  else vmmUserReserve start ((finish - start) / pageSize) { rw := true, us := true, nx := true } false

def sysBrk (addr : Nat) : Prog Mem (Option Nat) := do
  let m ← get
  if addr = 0 then pure (some m.proc.brk)
  else if addr < m.proc.brkBase then pure none
  else if userMmapEnd - pageSize < addr then pure none
  else do
    let grown ← growBrk addr
    if grown then do
      modify fun m => { m with proc.brk := addr }
      pure (some addr)
    else pure none

inductive MmapError where
  | einval
  | enomem
deriving DecidableEq

structure MmapArgs where
  addr : Nat
  len : Nat
  prot : Nat
  flags : Nat
  fd : Nat
  off : Nat

namespace MmapArgs

def fixed (a : MmapArgs) : Bool := a.flags.testBit 4
def anonymous (a : MmapArgs) : Bool := a.flags.testBit 5
def pages (a : MmapArgs) : Nat := pageAlignUp a.len / pageSize

def pteFlags (a : MmapArgs) : PteFlags :=
  { us := true, rw := a.prot.testBit 1, nx := !a.prot.testBit 2 }

end MmapArgs

variable (files : Nat → Option (List Nat)) (a : MmapArgs)

/-- `MAP_FIXED`: the fallback maps pages one by one if the reservation is refused. -/
def mmapFixed : Prog Mem Unit := do
  let reserved ← vmmUserReserve a.addr a.pages a.pteFlags false
  if reserved then pure ()
  else (pagesFrom a.addr a.pages).forM (mapFresh { a.pteFlags with rw := true })

def mmapPlace : Prog Mem (Except MmapError Nat) :=
  if a.fixed then
    if a.addr = 0 ∨ a.addr % pageSize ≠ 0 then pure (.error .einval)
    else do
      mmapFixed a
      pure (.ok a.addr)
  else do
    match ← sysMmapProt (pageAlignUp a.len) (a.prot.testBit 2) with
    | some va => pure (.ok va)
    | none => pure (.error .enomem)

/-- The bytes copied into a file-backed mapping; `files` are the contents. -/
def mmapBytes : List Nat :=
  if !a.anonymous && a.fd < 2 ^ 63 then
    match files (a.fd % 2 ^ 32) with
    | some data => (data.drop a.off).take (pageAlignUp a.len)
    | none => []
  else []

def linuxMmap : Prog Mem (Except MmapError Nat) :=
  if a.len = 0 then pure (.error .einval)
  else do
    match ← mmapPlace a with
    | .error e => pure (.error e)
    | .ok va => do
        copyToUser va (mmapBytes files a)
        pure (.ok va)

def linuxMremap (oldAddr oldSize newSize : Nat) : Prog Mem (Except MmapError Nat) :=
  if newSize ≤ oldSize then pure (.ok oldAddr)
  else linuxMmap files ⟨0, newSize, 3, 0x22, 2 ^ 64 - 1, 0⟩

section Induction

variable {P : Mem → Prop} {m m' : Mem} {len va npages : Nat} {flags : PteFlags} {r : Bool}

/-- What an accepted reservation keeps, `vmm_user_reserve` keeps when it is lazy. -/
lemma vmmUserReserve_lazy (h : vmmUserReserve va npages flags false m = some (r, m')) :
    (r = false ∧ reserveFits m va npages = false ∧ m' = m) ∨
    (r = true ∧ reserveFits m va npages = true ∧ m' = m.reserve va npages flags) :=
  (vmmUserReserve_cases h).imp_right fun ⟨hr, hFits, map⟩ => ⟨hr, hFits, (of_pure map).2.symm⟩

variable (reserve : ∀ m va npages flags, P m → reserveFits m va npages → P (m.reserve va npages flags))
include reserve

lemma reserveFound_induction {found : Nat} (hP : P m)
    (run : reserveFound found npages flags m = some (r, m')) : P m' := by
  unfold reserveFound at run
  by_cases hFound : found = 0
  · simp only [hFound, if_true] at run
    obtain ⟨-, rfl⟩ := of_pure run
    exact hP
  · simp only [hFound, if_false] at run
    obtain ⟨-, -, rfl⟩ | ⟨-, hFits, rfl⟩ := vmmUserReserve_lazy run
    · exact hP
    · exact reserve _ _ _ _ hP hFits

variable (next : ∀ m n, P m → P { m with proc.mmapNext := n })
include next

lemma mmapRound_induction {found : Option Nat} (hP : P m) (run : mmapRound len flags m = some (found, m')) : P m' := by
  obtain ⟨reserved, t, found, run⟩ := of_bind (of_get_bind run)
  have kept := reserveFound_induction reserve hP found
  cases reserved with
  | true | false =>
    obtain ⟨-, rfl⟩ := of_pure run
    exact next _ _ kept

lemma sysMmapProt_induction {exec : Bool} {found : Option Nat} (hP : P m)
    (run : sysMmapProt len exec m = some (found, m')) : P m' := by
  unfold sysMmapProt at run
  split at run
  · obtain ⟨-, rfl⟩ := of_pure run
    exact hP
  obtain ⟨first, t, round, run⟩ := of_bind run
  have kept := mmapRound_induction reserve next hP round
  cases first with
  | some va =>
    obtain ⟨-, rfl⟩ := of_pure run
    exact kept
  | none => exact mmapRound_induction reserve next kept run

/-- The fallback of a fixed mapping maps no page. -/
def MmapArgs.NoFallback (a : MmapArgs) (m : Mem) : Prop :=
  a.fixed → a.addr ≠ 0 → a.addr % pageSize = 0 → a.pages ≠ 0 → reserveFits m a.addr a.pages = true

lemma mmapPlace_induction {a : MmapArgs} {place : Except MmapError Nat} (none : a.NoFallback m)
    (hP : P m) (run : mmapPlace a m = some (place, m')) : P m' := by
  unfold mmapPlace at run
  cases hFixed : a.fixed with
  | false =>
    simp only [hFixed] at run
    obtain ⟨found, t, mmap, run⟩ := of_bind run
    have kept := sysMmapProt_induction reserve next hP mmap
    cases found <;> exact (of_pure run).2 ▸ kept
  | true =>
    simp only [hFixed, if_true] at run
    by_cases hAddr : a.addr = 0 ∨ a.addr % pageSize ≠ 0
    · simp only [hAddr, if_true] at run
      exact (of_pure run).2 ▸ hP
    simp only [hAddr, if_false] at run
    obtain ⟨_, fixed, -⟩ := of_bind_pure run
    obtain ⟨hZero, hAligned⟩ : a.addr ≠ 0 ∧ a.addr % pageSize = 0 := by simpa using hAddr
    obtain ⟨reserved, t', reserveRun, fallback⟩ := of_bind fixed
    obtain ⟨rfl, hFits, rfl⟩ | ⟨rfl, hFits, rfl⟩ := vmmUserReserve_lazy reserveRun
    · have hPages : a.pages = 0 := by
        by_contra hPages
        rw [none hFixed hZero hAligned hPages] at hFits
        cases hFits
      rw [hPages] at fallback
      exact (of_pure fallback).2 ▸ hP
    · exact (of_pure fallback).2 ▸ reserve _ _ _ _ hP hFits

/-- What reservations and kernel writes keep, `linux_mmap` keeps without its fallback. -/
lemma linuxMmap_induction {files : Nat → Option (List Nat)} {a : MmapArgs} {result : Except MmapError Nat}
    (copy : ∀ m va b u m', P m → kernelWrite va b m = some (u, m') → P m') (none : a.len ≠ 0 → a.NoFallback m)
    (hP : P m) (run : linuxMmap files a m = some (result, m')) : P m' := by
  unfold linuxMmap at run
  by_cases hLen : a.len = 0
  · simp only [hLen, if_true] at run
    exact (of_pure run).2 ▸ hP
  simp only [hLen, if_false] at run
  obtain ⟨place, t, placed, run⟩ := of_bind run
  have kept := mmapPlace_induction reserve next (none hLen) hP placed
  cases place with
  | error e => exact (of_pure run).2 ▸ kept
  | ok va =>
    obtain ⟨u, t', copied, run⟩ := of_bind run
    obtain ⟨-, rfl⟩ := of_pure run
    exact Triple.forM (fun e _ s u s' hs write => copy s _ _ u s' hs write) t u t' kept copied

end Induction

inductive MapCall where
  | mmapProt (len : Nat) (exec : Bool)
  | brk (addr : Nat)
  | mmap (args : MmapArgs)
  | mremap (oldAddr oldSize newSize : Nat)

def MapCall.run (files : Nat → Option (List Nat)) (m : Mem) : MapCall → Option Mem
  | .mmapProt len exec => (sysMmapProt len exec m).map (·.2)
  | .brk addr => (sysBrk addr m).map (·.2)
  | .mmap args => (linuxMmap files args m).map (·.2)
  | .mremap oldAddr oldSize newSize => (linuxMremap files oldAddr oldSize newSize m).map (·.2)

end YartOS.Mm
