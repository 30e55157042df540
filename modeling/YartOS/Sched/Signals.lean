import Mathlib.Data.List.Find
import YartOS.Lib.Bytes
import YartOS.Mm.Machine

/-! Delivery of signals: registers are saved on the user stack, and `sigreturn` restores them. -/
namespace YartOS.Sched

open Bytes Mm UInt64 List

@[ext] structure CpuRegs where
  r15 : UInt64
  r14 : UInt64
  r13 : UInt64
  r12 : UInt64
  r11 : UInt64
  r10 : UInt64
  r9 : UInt64
  r8 : UInt64
  rdi : UInt64
  rsi : UInt64
  rbp : UInt64
  rdx : UInt64
  rcx : UInt64
  rbx : UInt64
  rax : UInt64
  vector : UInt64
  err : UInt64
  rip : UInt64
  cs : UInt64
  rflags : UInt64
  rsp : UInt64
  ss : UInt64
deriving DecidableEq

namespace CpuRegs

def words (r : CpuRegs) : List UInt64 :=
  [r.r15, r.r14, r.r13, r.r12, r.r11, r.r10, r.r9, r.r8, r.rdi, r.rsi, r.rbp, r.rdx, r.rcx, r.rbx, r.rax,
    r.vector, r.err, r.rip, r.cs, r.rflags, r.rsp, r.ss]

def ofWords (w : Nat → UInt64) : CpuRegs where
  r15 := w 0
  r14 := w 1
  r13 := w 2
  r12 := w 3
  r11 := w 4
  r10 := w 5
  r9 := w 6
  r8 := w 7
  rdi := w 8
  rsi := w 9
  rbp := w 10
  rdx := w 11
  rcx := w 12
  rbx := w 13
  rax := w 14
  vector := w 15
  err := w 16
  rip := w 17
  cs := w 18
  rflags := w 19
  rsp := w 20
  ss := w 21

/-- General purpose registers, `rip`, `rsp`, `cs` and `rflags`. -/
def program (r : CpuRegs) : CpuRegs := { r with vector := 0, err := 0, ss := 0 }

end CpuRegs

def sizeofCpuRegs : UInt64 := 176
def hscratch : UInt64 := 512
def userCs : UInt64 := 0x1B
def userDs : UInt64 := 0x23

/-- What signal delivery reads of a task; `readable` are its pages. -/
structure SigTask where
  sigPending : UInt64
  sigBlocked : UInt64
  sigHandlers : Nat → UInt64
  linuxAbi : Bool := false
  readable : Nat → Bool

def load64 (m : Buffer) (a : UInt64) : UInt64 := ofNat (getU64 m a.toNat)

def store64 (m : Buffer) (a v : UInt64) : Buffer := putU64 m a.toNat v.toNat

def saveRegs (m : Buffer) (a : UInt64) (r : CpuRegs) : Buffer := putWords m a.toNat (r.words.map toNat)

def loadRegs (m : Buffer) (a : UInt64) : CpuRegs := .ofWords fun i => ofNat (getU64 m (a.toNat + 8 * i))

/-- The lowest signal that is pending and not blocked. -/
def SigTask.nextSignal (t : SigTask) : Option Nat :=
  (range' 1 31).find? fun sig => t.sigPending.toNat.testBit sig && !t.sigBlocked.toNat.testBit sig

/-- The places below the stack pointer, rounded down by `& ~7`. -/
def usp (f : CpuRegs) : UInt64 := f.rsp / 8 * 8
def retVa (f : CpuRegs) : UInt64 := usp f - 8
def fpSlot (f : CpuRegs) : UInt64 := retVa f - 8
def frameVa (f : CpuRegs) : UInt64 := fpSlot f - sizeofCpuRegs - hscratch

/-- Of `deliver_pending_signal`: the resumed frame and memory, if a handler runs. -/
inductive Delivery where
  | nothing
  | killed (status : Nat)
  | handler (t : SigTask) (f : CpuRegs) (m : Buffer)

def deliverPendingSignal (t : SigTask) (f : CpuRegs) (m : Buffer) : Delivery :=
  match t.nextSignal with
  | none => .nothing
  | some sig =>
    let h := t.sigHandlers sig
    if h = 0 then .killed (128 + sig)
    else if (frameVa f).toNat < userVbase ∨ (frameVa f + sizeofCpuRegs + hscratch + 16).toNat > userStackTop then
      .killed (128 + sig)
    else
      let m := saveRegs m (frameVa f) f
      let m := store64 m (fpSlot f) (frameVa f)
      let m := store64 m (retVa f) (ofNat sigreturnTrampVa)
      .handler { t with sigPending := t.sigPending &&& ~~~(1 <<< ofNat sig) }
        { f with rax := ofNat sig, rip := h, rsp := retVa f } m

inductive Instr where
  /-- `mov rdi, [rsp + disp8]` -/
  | loadRdi (disp : Nat)
  /-- `mov rax, imm32` -/
  | movRax (imm : Nat)
  | syscall
  /-- `jmp rel8` -/
  | jmp (rel : Nat)
deriving DecidableEq

def decode : List Nat → Option (Instr × UInt64)
  | 0x48 :: 0x8B :: 0x7C :: 0x24 :: d :: _ => some (.loadRdi d, 5)
  | 0x48 :: 0xC7 :: 0xC0 :: a :: b :: c :: d :: _ =>
    some (.movRax (a + 2 ^ 8 * b + 2 ^ 16 * c + 2 ^ 24 * d), 7)
  | 0x0F :: 0x05 :: _ => some (.syscall, 2)
  | 0xEB :: d :: _ => some (.jmp d, 2)
  | _ => none

def signExtend (bits x : Nat) : UInt64 := ofNat (if x < 2 ^ (bits - 1) then x else 2 ^ 64 - 2 ^ bits + x)

def syscallFrame (r : CpuRegs) (next : UInt64) : CpuRegs :=
  { r with
    rcx := next, r11 := r.rflags, rip := next, cs := userCs, ss := userDs, vector := 0x80, err := 0 }

def fetch (rip : UInt64) : List Nat := (range 7).map fun k => trampolineCode (rip.toNat - sigreturnTrampVa + k)

inductive Executed where
  | next (r : CpuRegs)
  | trap (frame : CpuRegs)

def execute (m : Buffer) (r : CpuRegs) : Instr × UInt64 → Executed
  | (.loadRdi d, n) => .next { r with rdi := load64 m (r.rsp + signExtend 8 d), rip := r.rip + n }
  | (.movRax x, n) => .next { r with rax := signExtend 32 x, rip := r.rip + n }
  | (.syscall, n) => .trap (syscallFrame r (r.rip + n))
  | (.jmp d, n) => .next { r with rip := r.rip + n + signExtend 8 d }

def runUser (code : UInt64 → Option (Instr × UInt64)) (m : Buffer) : Nat → CpuRegs → Option CpuRegs
  | 0, _ => none
  | fuel + 1, r =>
    match (code r.rip).map (execute m r) with
    | none => none
    | some (.next r) => runUser code m fuel r
    | some (.trap frame) => some frame

def runTrampoline (m : Buffer) (r : CpuRegs) : Option CpuRegs := runUser (fun rip => decode (fetch rip)) m 3 r

def vmmUserRangeOk (t : SigTask) (va len : UInt64) : Bool :=
  len == 0 || (!(va + len < va) && !(va.toNat < userVfloor || (va + len).toNat > userStackTop) &&
      (range' (va.toNat / pageSize) (pageAlignUp (va + len).toNat / pageSize - va.toNat / pageSize)).all t.readable)

/-- `none` where the task is killed. -/
def sysSigreturn (t : SigTask) (r : CpuRegs) (m : Buffer) : Option CpuRegs :=
  let fp := r.rdi
  if fp.toNat < userVbase ∨ (fp + sizeofCpuRegs).toNat > userStackTop ∨ ¬ vmmUserRangeOk t fp sizeofCpuRegs then
    none
  else
    let saved := loadRegs m fp
    if saved.cs &&& 3 ≠ 3 ∨ saved.ss &&& 3 ≠ 3 ∨ saved.rip = 0 ∨ saved.rip = ofNat sigreturnTrampVa then
      none
    else some { saved with vector := r.vector, err := r.err, ss := userDs }

/-- A system call: `sigreturn` with argument and frame, or another. -/
inductive Handled where
  | sigreturn (fp : UInt64) (left : Option CpuRegs)
  | other

/-- `syscall_handler` up to `sigreturn`; the Linux ABI has other numbers. -/
def syscallHandler (t : SigTask) (r : CpuRegs) (m : Buffer) : Handled :=
  if r.rax = if t.linuxAbi then 15 else 51 then .sigreturn r.rdi (sysSigreturn t r m) else .other

/-- The handler wrote below its entry `rsp` only, inside the scratch area, and popped its return
address. -/
structure HandlerReturns (entry : CpuRegs) (m : Buffer) (r : CpuRegs) (m' : Buffer) : Prop where
  memory : ∀ x, m' x ≠ m x → entry.rsp.toNat - hscratch.toNat ≤ x ∧ x < entry.rsp.toNat
  rip : r.rip = load64 m' entry.rsp
  rsp : r.rsp = entry.rsp + 8

structure LegalFrame (t : SigTask) (f : CpuRegs) : Prop where
  cs : f.cs &&& 3 = 3
  ss : f.ss &&& 3 = 3
  rip : f.rip ≠ 0 ∧ f.rip ≠ UInt64.ofNat sigreturnTrampVa
  low : userVbase + 704 ≤ f.rsp.toNat / 8 * 8
  high : f.rsp.toNat / 8 * 8 ≤ userStackTop
  readable : ∀ a, f.rsp.toNat / 8 * 8 - 704 ≤ a → a < f.rsp.toNat → t.readable (a / pageSize)

/-- The trampoline passes `sys_sigreturn` the saved frame, and the registers are the interrupted
ones. -/
def Transparent (t : SigTask) (f r : CpuRegs) (m : Buffer) : Prop :=
  ∃ call left, runTrampoline m r = some call ∧
    syscallHandler t call m = .sigreturn (frameVa f) (some left) ∧ left.program = f.program

variable {m m' : Buffer} {a v : UInt64}

lemma load64_congr (same : ∀ x, a.toNat ≤ x → x < a.toNat + 8 → m x = m' x) : load64 m a = load64 m' a := by
  unfold load64
  rw [getU64_congr same]

lemma load64_store64_self : load64 (store64 m a v) a = v := by
  unfold load64 store64
  rw [getU64_putU64_self, Nat.mod_eq_of_lt v.toNat_lt, UInt64.ofNat_toNat]

variable {x fuel : Nat} {i : Instr × UInt64} {code : UInt64 → Option (Instr × UInt64)} {entry r : CpuRegs}
  {m' : Buffer}

lemma store64_of_apart (apart : x < a.toNat ∨ a.toNat + 8 ≤ x) : store64 m a v x = m x := putU64_of_apart apart

lemma load64_eq_iff : load64 m a = load64 m' a ↔ ∀ x, a.toNat ≤ x → x < a.toNat + 8 → m x = m' x := by
  refine ⟨fun h x lo hi => bytes_eq_of_getU64_eq ?_ lo hi, load64_congr⟩
  have := congrArg toNat h
  simp only [load64, toNat_ofNat'] at this
  rwa [Nat.mod_eq_of_lt (getU64_lt m _), Nat.mod_eq_of_lt (getU64_lt m' _)] at this

lemma loadRegs_congr (same : ∀ x, a.toNat ≤ x → x < a.toNat + 176 → m x = m' x) : loadRegs m a = loadRegs m' a := by
  have word : ∀ i < 22, getU64 m (a.toNat + 8 * i) = getU64 m' (a.toNat + 8 * i) := fun i hi =>
    getU64_congr fun x lo hi => same x (by omega) (by omega)
  ext1 <;> exact congrArg ofNat (word _ (by decide))

/-- A frame that was saved is read back. -/
lemma loadRegs_saveRegs (m : Buffer) (a : UInt64) (r : CpuRegs) : loadRegs (saveRegs m a r) a = r := by
  have word : ∀ (i : Nat) (w : UInt64), r.words[i]? = some w →
      UInt64.ofNat (getU64 (saveRegs m a r) (a.toNat + 8 * i)) = w := fun i w hw => by
    unfold saveRegs
    rw [getU64_putWords (x := w.toNat) (by rw [getElem?_map, hw]; rfl), Nat.mod_eq_of_lt w.toNat_lt, UInt64.ofNat_toNat]
  ext1 <;> exact word _ _ rfl

variable {t : SigTask} {f : CpuRegs}

lemma toNat_usp (f : CpuRegs) : (usp f).toNat = f.rsp.toNat / 8 * 8 := by
  have := f.rsp.toNat_lt
  change f.rsp.toNat / 8 * 8 % 2 ^ 64 = _
  omega

/-- The places of the delivery, from the rounded stack pointer down. -/
lemma LegalFrame.layout (h : LegalFrame t f) :
    (retVa f).toNat = f.rsp.toNat / 8 * 8 - 8 ∧ (fpSlot f).toNat = f.rsp.toNat / 8 * 8 - 16 ∧
      (frameVa f).toNat = f.rsp.toNat / 8 * 8 - 704 := by
  have low := h.low
  have hUsp := toNat_usp f
  have := f.rsp.toNat_lt
  have hRet : (retVa f).toNat = f.rsp.toNat / 8 * 8 - 8 := by
    rw [retVa, UInt64.toNat_sub, hUsp]
    change (2 ^ 64 - 8 + _) % 2 ^ 64 = _
    omega
  have hSlot : (fpSlot f).toNat = f.rsp.toNat / 8 * 8 - 16 := by
    rw [fpSlot, UInt64.toNat_sub, hRet]
    change (2 ^ 64 - 8 + _) % 2 ^ 64 = _
    omega
  refine ⟨hRet, hSlot, ?_⟩
  rw [frameVa, UInt64.toNat_sub, UInt64.toNat_sub, hSlot]
  change (2 ^ 64 - 512 + (2 ^ 64 - 176 + _) % 2 ^ 64) % 2 ^ 64 = _
  omega

lemma LegalFrame.end_eq (h : LegalFrame t f) : (frameVa f + sizeofCpuRegs).toNat = (frameVa f).toNat + 176 := by
  obtain ⟨-, -, hFrame⟩ := h.layout
  have high := h.high
  rw [UInt64.toNat_add]
  change (_ + 176) % 2 ^ 64 = _
  unfold userStackTop at high
  omega

lemma LegalFrame.rangeOk (h : LegalFrame t f) : vmmUserRangeOk t (frameVa f) sizeofCpuRegs := by
  obtain ⟨-, -, hFrame⟩ := h.layout
  have low := h.low
  have high := h.high
  have hEnd := h.end_eq
  have hPages : (range' ((frameVa f).toNat / pageSize)
      (pageAlignUp (frameVa f + sizeofCpuRegs).toNat / pageSize - (frameVa f).toNat / pageSize)).all
        t.readable := by
    refine all_eq_true.mpr fun n hn => ?_
    rw [mem_range'_1, hEnd, pageAlignUp, pageAlignDown, wrap, hFrame] at hn
    unfold pageSize at hn
    -- the first page is that of the frame; any other begins inside it
    by_cases hFirst : n = (f.rsp.toNat / 8 * 8 - 704) / 4096
    · rw [hFirst]
      exact h.readable _ (Nat.le_refl _) (by omega)
    · have := h.readable (n * 4096) (by omega) (by omega)
      rwa [pageSize, Nat.mul_div_cancel n (by decide : 0 < 4096)] at this
  have noWrap : ¬ frameVa f + sizeofCpuRegs < frameVa f := by
    rw [lt_iff_toNat_lt, hEnd]
    omega
  have inside : ¬ ((frameVa f).toNat < userVfloor ∨ (frameVa f + sizeofCpuRegs).toNat > userStackTop) := by
    unfold userVfloor userStackTop userVbase at *
    omega
  rw [not_or] at inside
  simp only [vmmUserRangeOk, hPages, Bool.and_true, Bool.or_eq_true, Bool.and_eq_true, Bool.not_eq_true',
    decide_eq_false_iff_not, Bool.or_eq_false_iff]
  exact .inr ⟨noWrap, inside⟩

variable {r : CpuRegs}

lemma runUser_next {r' : CpuRegs} (h : code r.rip = some i) (hNext : execute m r i = .next r') :
    runUser code m (fuel + 1) r = runUser code m fuel r' := by
  rw [runUser, h, Option.map_some, hNext]

lemma runUser_trap {frame : CpuRegs} (h : code r.rip = some i) (hTrap : execute m r i = .trap frame) :
    runUser code m (fuel + 1) r = some frame := by
  rw [runUser, h, Option.map_some, hTrap]

/-- Three instructions that load `rdi`, set `rax` and enter the kernel. -/
lemma runUser_call {d : Nat} (first : code r.rip = some (.loadRdi d, 5))
    (second : code (r.rip + 5) = some (.movRax x, 7)) (third : code (r.rip + 5 + 7) = some (.syscall, 2))
    : ∃ call, runUser code m 3 r = some call ∧ call.rdi = load64 m (r.rsp + signExtend 8 d) ∧
      call.rax = signExtend 32 x :=
  ⟨_, (runUser_next first rfl).trans ((runUser_next second rfl).trans (runUser_trap third rfl)), rfl, rfl⟩

/-- The trampoline passes the word 16 bytes below the stack pointer to call 51. -/
lemma runTrampoline_eq (hRip : r.rip = ofNat sigreturnTrampVa) :
    ∃ call, runTrampoline m r = some call ∧ call.rdi = load64 m (r.rsp - 16) ∧ call.rax = 51 := by
  have code : decode (fetch r.rip) = some (.loadRdi 0xF0, 5) ∧ decode (fetch (r.rip + 5)) = some (.movRax 51, 7) ∧
      decode (fetch (r.rip + 5 + 7)) = some (.syscall, 2) := by
    rw [hRip]
    decide +kernel
  obtain ⟨call, run, rdi, rax⟩ : ∃ call, runTrampoline m r = some call ∧
      call.rdi = load64 m (r.rsp + signExtend 8 0xF0) ∧ call.rax = signExtend 32 51 :=
    runUser_call code.1 code.2.1 code.2.2
  refine ⟨call, run, ?_, ?_⟩
  · rw [rdi, sub_eq_add_neg, show signExtend 8 0xF0 = -16 by decide +kernel]
  · rw [rax]
    decide +kernel

variable {sig : Nat}

def deliveredMemory (f : CpuRegs) (m : Buffer) : Buffer :=
  store64 (store64 (saveRegs m (frameVa f) f) (fpSlot f) (frameVa f)) (retVa f) (ofNat sigreturnTrampVa)

lemma deliver_eq_handler (m : Buffer) (next : t.nextSignal = some sig) (installed : t.sigHandlers sig ≠ 0)
    (legal : LegalFrame t f) : deliverPendingSignal t f m =
      .handler { t with sigPending := t.sigPending &&& ~~~(1 <<< ofNat sig) }
        { f with rax := ofNat sig, rip := t.sigHandlers sig, rsp := retVa f } (deliveredMemory f m) := by
  obtain ⟨-, -, hFrame⟩ := legal.layout
  have low := legal.low
  have high := legal.high
  have hTop : (frameVa f + sizeofCpuRegs + hscratch + 16).toNat = f.rsp.toNat / 8 * 8 := by
    rw [UInt64.toNat_add, UInt64.toNat_add, UInt64.toNat_add, hFrame]
    change (((_ + 176) % 2 ^ 64 + 512) % 2 ^ 64 + 16) % 2 ^ 64 = _
    unfold userStackTop userVbase at *
    omega
  have fits : ¬ ((frameVa f).toNat < userVbase ∨ (frameVa f + sizeofCpuRegs + hscratch + 16).toNat > userStackTop) := by
    omega
  simp only [deliverPendingSignal, next, if_neg installed, if_neg fits]
  rfl

/-- What the delivery has stored is found again. -/
lemma delivered (legal : LegalFrame t f) (m : Buffer) :
    load64 (deliveredMemory f m) (retVa f) = ofNat sigreturnTrampVa ∧
      load64 (deliveredMemory f m) (fpSlot f) = frameVa f ∧ loadRegs (deliveredMemory f m) (frameVa f) = f := by
  obtain ⟨hRet, hSlot, hFrame⟩ := legal.layout
  have low := legal.low
  refine ⟨load64_store64_self, ?_, ?_⟩
  · refine Eq.trans (load64_congr fun x lo hi => store64_of_apart ?_) load64_store64_self
    omega
  · refine Eq.trans (loadRegs_congr fun x lo hi => ?_) (loadRegs_saveRegs m (frameVa f) f)
    exact (store64_of_apart (by omega)).trans (store64_of_apart (by omega))

lemma sysSigreturn_eq (legal : LegalFrame t f) {call : CpuRegs} {pending : UInt64} (hFp : call.rdi = frameVa f)
    (saved : loadRegs m (frameVa f) = f) :
    sysSigreturn { t with sigPending := pending } call m =
      some { f with vector := call.vector, err := call.err, ss := userDs } := by
  obtain ⟨-, -, hFrame⟩ := legal.layout
  have low := legal.low
  have high := legal.high
  have hEnd := legal.end_eq
  have fits : ¬ ((frameVa f).toNat < userVbase ∨ (frameVa f + sizeofCpuRegs).toNat > userStackTop ∨
      ¬ vmmUserRangeOk { t with sigPending := pending } (frameVa f) sizeofCpuRegs) := by
    rintro (h | h | h)
    · omega
    · omega
    · exact h legal.rangeOk
  have sane : ¬ (f.cs &&& 3 ≠ 3 ∨ f.ss &&& 3 ≠ 3 ∨ f.rip = 0 ∨ f.rip = ofNat sigreturnTrampVa) := by
    rintro (h | h | h | h)
    · exact h legal.cs
    · exact h legal.ss
    · exact legal.rip.1 h
    · exact legal.rip.2 h
  simp only [sysSigreturn, hFp, if_neg fits, saved, if_neg sane]

/-- The handler leaves alone what is not in its scratch area. -/
lemma HandlerReturns.eq_of_apart {m : Buffer} (h : HandlerReturns entry m r m') {x : Nat}
    (apart : x < entry.rsp.toNat - 512 ∨ entry.rsp.toNat ≤ x) : m' x = m x := by
  by_contra hne
  have := h.memory x hne
  change entry.rsp.toNat - 512 ≤ x ∧ x < entry.rsp.toNat at this
  omega

/-- From the handler the trampoline is reached, and passes on what the slot holds. -/
lemma HandlerReturns.trampoline (legal : LegalFrame t f)
    (hRsp : entry.rsp = retVa f) (h : HandlerReturns entry (deliveredMemory f m) r m') :
    ∃ call, runTrampoline m' r = some call ∧ call.rdi = load64 m' (fpSlot f) ∧ call.rax = 51 := by
  obtain ⟨hRet, hSlot, -⟩ := legal.layout
  have low := legal.low
  have hRip : r.rip = UInt64.ofNat sigreturnTrampVa := by
    rw [h.rip, hRsp, ← (delivered legal m).1]
    exact load64_congr fun x lo _ => h.eq_of_apart (.inr (hRsp ▸ lo))
  have hAddr : r.rsp - 16 = fpSlot f := by
    apply UInt64.toNat_inj.mp
    rw [h.rsp, hRsp, UInt64.toNat_sub, UInt64.toNat_add, hSlot]
    change (2 ^ 64 - 16 + ((retVa f).toNat + 8) % 2 ^ 64) % 2 ^ 64 = _
    have := f.rsp.toNat_lt
    omega
  exact hAddr ▸ runTrampoline_eq hRip

lemma Transparent.call_eq {call : CpuRegs} (h : Transparent t f r m) (run : runTrampoline m r = some call)
    (rax : call.rax = 51) : t.linuxAbi = false ∧ call.rdi = frameVa f := by
  obtain ⟨call', left, run', handled, -⟩ := h
  cases run.symm.trans run'
  rw [syscallHandler, rax] at handled
  cases hAbi : t.linuxAbi with
  | true => simp only [hAbi, if_true, show ¬ (51 : UInt64) = 15 by decide, if_false, reduceCtorEq] at handled
  | false =>
    simp only [hAbi, Bool.false_eq_true, if_false, if_true, Handled.sigreturn.injEq] at handled
    exact ⟨rfl, handled.1⟩

/-- Delivery is transparent iff the task is not a Linux one and the handler keeps the eight bytes
below its entry `rsp`. -/
theorem transparent_iff (m : Buffer) (next : t.nextSignal = some sig) (installed : t.sigHandlers sig ≠ 0)
    (legal : LegalFrame t f) : ∃ t' f' m', deliverPendingSignal t f m = .handler t' f' m' ∧
      ∀ r m'', HandlerReturns f' m' r m'' → (Transparent t' f r m'' ↔
        t.linuxAbi = false ∧ ∀ x, f'.rsp.toNat - 8 ≤ x → x < f'.rsp.toNat → m'' x = m' x) := by
  refine ⟨_, _, _, deliver_eq_handler m next installed legal, fun r m'' returns => ?_⟩
  obtain ⟨hRet, hSlot, hFrame⟩ := legal.layout
  obtain ⟨-, slot, frame⟩ := delivered legal m
  have low := legal.low
  obtain ⟨call, run, rdi, rax⟩ := returns.trampoline legal rfl
  have slotKept : call.rdi = frameVa f ↔
      ∀ x, (retVa f).toNat - 8 ≤ x → x < (retVa f).toNat → m'' x = deliveredMemory f m x := by
    rw [rdi, ← slot, load64_eq_iff, hSlot, hRet, show f.rsp.toNat / 8 * 8 - 16 + 8 = f.rsp.toNat / 8 * 8 - 8 by omega]
    rfl
  constructor
  · intro h
    obtain ⟨hAbi, hFp⟩ := h.call_eq run rax
    exact ⟨hAbi, slotKept.mp hFp⟩
  rintro ⟨hAbi, kept⟩
  have hFp := slotKept.mpr kept
  -- the saved frame is below the scratch area
  have saved : loadRegs m'' (frameVa f) = f :=
    (loadRegs_congr fun x lo hi => returns.eq_of_apart (.inl (by
      change x < (retVa f).toNat - 512
      omega))).trans frame
  refine ⟨call, { f with vector := call.vector, err := call.err, ss := userDs }, run, ?_, rfl⟩
  rw [syscallHandler, if_pos (by simp [rax, hAbi]), sysSigreturn_eq legal hFp saved, hFp]

def handlerTask : SigTask where
  sigPending := 4
  sigBlocked := 0
  sigHandlers := fun _ => 0x40001000
  readable := fun _ => true

def interrupted : CpuRegs :=
  { CpuRegs.ofWords (fun _ => 0) with rip := 0x40000000, cs := 0x1B, ss := 0x23, rsp := 0x7FFFF000 }

lemma legal_interrupted : LegalFrame handlerTask interrupted :=
  ⟨by decide, by decide, by decide, by decide, by decide, fun _ _ _ => rfl⟩

lemma next_handlerTask : handlerTask.nextSignal = some 2 := by decide

/-- The handler returns at once. -/
theorem transparent_of_ret : ∃ t f m, deliverPendingSignal handlerTask interrupted zeros = .handler t f m ∧
    Transparent t interrupted { f with rip := load64 m f.rsp, rsp := f.rsp + 8 } m := by
  obtain ⟨t, f, m, delivered, iff⟩ := transparent_iff zeros next_handlerTask (by decide) legal_interrupted
  exact ⟨t, f, m, delivered, (iff _ m ⟨fun x hx => absurd rfl hx, rfl, rfl⟩).mpr ⟨rfl, fun _ _ _ => rfl⟩⟩

/-- The handler pushes `rbp`, pops it again and returns. -/
theorem push_not_transparent : ∃ t f m, deliverPendingSignal handlerTask interrupted zeros = .handler t f m ∧
    ∃ r m', m' = store64 m (f.rsp - 8) f.rbp ∧ HandlerReturns f m r m' ∧ ¬ Transparent t interrupted r m' := by
  refine ⟨_, _, _, deliver_eq_handler zeros next_handlerTask (by decide) legal_interrupted, ?_⟩
  obtain ⟨hRet, hSlot, -⟩ := legal_interrupted.layout
  let f : CpuRegs := { interrupted with rax := ofNat 2, rip := 0x40001000, rsp := retVa interrupted }
  let m' := store64 (deliveredMemory interrupted zeros) (fpSlot interrupted) 0
  have returns : HandlerReturns f (deliveredMemory interrupted zeros)
      { f with rip := load64 m' f.rsp, rsp := f.rsp + 8 } m' := by
    refine ⟨fun x hx => ?_, rfl, rfl⟩
    by_contra outside
    refine hx (store64_of_apart ?_)
    change ¬ ((retVa interrupted).toNat - 512 ≤ x ∧ x < (retVa interrupted).toNat) at outside
    have low := legal_interrupted.low
    omega
  refine ⟨_, m', rfl, returns, fun transparent => ?_⟩
  obtain ⟨call, run, rdi, rax⟩ := returns.trampoline legal_interrupted rfl
  have hFp := (transparent.call_eq run rax).2
  rw [rdi, load64_store64_self] at hFp
  exact absurd hFp (by decide)

/-- User selectors, I/O privilege level 0, and interrupts enabled. -/
structure Unprivileged (f : CpuRegs) : Prop where
  cs : f.cs = userCs
  ss : f.ss = userDs
  iopl : f.rflags &&& 0x3000 = 0
  interrupts : f.rflags &&& 0x200 ≠ 0

/-- `sigreturn` looks at two bits of the selectors, and not at `rflags`. -/
theorem sysSigreturn_unprivileged_iff (t : SigTask) (r : CpuRegs) (m : Buffer) :
    (∀ left, sysSigreturn t r m = some left → Unprivileged left) ↔
      (sysSigreturn t r m ≠ none → (loadRegs m r.rdi).cs = userCs ∧
        (loadRegs m r.rdi).rflags &&& 0x3000 = 0 ∧ (loadRegs m r.rdi).rflags &&& 0x200 ≠ 0) := by
  unfold sysSigreturn
  dsimp only
  split
  · simp
  split
  · simp
  constructor
  · intro h _
    obtain ⟨cs, -, iopl, interrupts⟩ := h _ rfl
    exact ⟨cs, iopl, interrupts⟩
  · rintro h left ⟨⟩
    obtain ⟨cs, iopl, interrupts⟩ := h nofun
    exact ⟨cs, rfl, iopl, interrupts⟩

/-- With 0x3002 for `rflags` in the frame the task has all ports, and no interrupts. -/
theorem sigreturn_raises_privilege : ∃ t r m left, sysSigreturn t r m = some left ∧
    left.rflags &&& 0x3000 = 0x3000 ∧ left.rflags &&& 0x200 = 0 := by
  let f : CpuRegs := { interrupted with rflags := 0x3002 }
  have legal : LegalFrame handlerTask f := ⟨by decide, by decide, by decide, by decide, by decide, fun _ _ _ => rfl⟩
  exact ⟨handlerTask, { f with rdi := frameVa f }, _, _, sysSigreturn_eq legal rfl (loadRegs_saveRegs zeros _ f),
    by decide, by decide⟩

def maskBy (how : Nat) (old mask : UInt64) : UInt64 :=
  match how with
  | 0 => old ||| mask
  | 1 => old &&& ~~~mask
  | 2 => mask
  | _ => old

namespace SigTask

def linuxRtSigprocmask (t : SigTask) (how : Nat) (mask : UInt64) : SigTask :=
  { t with sigBlocked := maskBy how t.sigBlocked (mask &&& ~~~0x80200) }

/-- `sched_signal` for a signal other than SIGKILL, SIGCONT and SIGSTOP. -/
def schedSignal (t : SigTask) (sig : Nat) : SigTask :=
  if sig = 0 ∨ 32 ≤ sig ∨ t.sigBlocked.toNat.testBit sig then t
  else { t with sigPending := t.sigPending ||| 1 <<< ofNat sig }

end SigTask

inductive SigEvent where
  | procmask (how : Nat) (mask : UInt64)
  | signal (sig : Nat)
  | deliver

/-- A task, the mask its program means, and the signals sent and not delivered yet. -/
structure Masked where
  task : SigTask
  mask : UInt64 := 0
  sent : Nat → Bool := fun _ => false

namespace Masked

/-- To be delivered next; signal `n` is bit `n - 1` of the mask. -/
def due (s : Masked) : Option Nat :=
  (range' 1 31).find? fun sig => s.sent sig && !s.mask.toNat.testBit (sig - 1)

def step (s : Masked) : SigEvent → Masked
  | .procmask how mask =>
    { s with
      task := s.task.linuxRtSigprocmask how mask
      mask := maskBy how s.mask (mask &&& ~~~0x40100) }
  | .signal sig => { s with task := s.task.schedSignal sig, sent := Function.update s.sent sig true }
  | .deliver =>
    match s.task.nextSignal with
    | none => s
    | some sig =>
      { s with
        task.sigPending := s.task.sigPending &&& ~~~(1 <<< ofNat sig)
        sent := Function.update s.sent sig false }

/-- Every delivery takes the signal that is due. -/
def Deferred : Masked → List SigEvent → Prop
  | _, [] => True
  | s, e :: events => (e = .deliver → s.task.nextSignal = s.due) ∧ Deferred (s.step e) events

/-- The pending word holds the signals that are sent and not delivered. -/
def Tracked (s : Masked) : Prop := ∀ sig < 32, s.task.sigPending.toNat.testBit sig = s.sent sig

/-- A signal is sent while its bit in the kernel's reading is clear, unless it is pending already; at a delivery both
readings of the mask, bit `n` and bit `n - 1`, agree on the signals that are sent. -/
def Heeds (s : Masked) : SigEvent → Prop
  | .procmask _ _ => True
  | .signal sig => 0 < sig ∧ sig < 32 ∧ (s.sent sig = true ∨ s.task.sigBlocked.toNat.testBit sig = false)
  | .deliver => ∀ sig < 32, s.sent sig = true → s.task.sigBlocked.toNat.testBit sig = s.mask.toNat.testBit (sig - 1)

/-- Every event of the run is such in the state that it finds. -/
def AllHeed : Masked → List SigEvent → Prop
  | _, [] => True
  | s, e :: events => s.Heeds e ∧ AllHeed (s.step e) events

variable {s : Masked} {sig k : Nat}

lemma testBit_one_shiftLeft (h : sig < 32) : (1 <<< ofNat sig : UInt64).toNat.testBit k = decide (sig = k) := by
  have hPow : ∀ sig < 32, (1 <<< ofNat sig : UInt64).toNat = 2 ^ sig := by decide
  rw [hPow sig h, Nat.testBit_two_pow]

lemma testBit_and_not (w x : UInt64) (hk : k < 64) :
    (w &&& ~~~x).toNat.testBit k = (w.toNat.testBit k && !x.toNat.testBit k) := by
  change (w.toBitVec &&& ~~~x.toBitVec).getLsbD k = _
  rw [BitVec.getLsbD_and, BitVec.getLsbD_not, decide_eq_true hk]
  rfl

lemma Tracked.next (inv : s.Tracked) (heeds : s.Heeds .deliver) : s.task.nextSignal = s.due := by
  refine find?_congr fun sig hSig => ?_
  have hLt : sig < 32 := by
    have := mem_range'_1.mp hSig
    omega
  rw [inv sig hLt]
  cases hSent : s.sent sig with
  | false => rfl
  | true => rw [heeds sig hLt hSent]

lemma Tracked.step (inv : s.Tracked) {e : SigEvent} (heeds : s.Heeds e) : (s.step e).Tracked := by
  cases e with
  | procmask how mask => exact inv
  | signal sig =>
    obtain ⟨hPos, hLt, hOpen⟩ := heeds
    intro k hk
    unfold Masked.step SigTask.schedSignal
    dsimp only
    split
    case isTrue hDropped =>
      -- The signal is blocked, so it is one that is pending already.
      have hBlocked : s.task.sigBlocked.toNat.testBit sig = true :=
        (hDropped.resolve_left (by omega)).resolve_left (by omega)
      have hSent : s.sent sig = true := hOpen.resolve_right (by simp [hBlocked])
      grind [inv k hk, Function.update_apply]
    case isFalse =>
      rw [UInt64.toNat_or, Nat.testBit_or, testBit_one_shiftLeft hLt, inv k hk]
      grind [Function.update_apply]
  | deliver =>
    unfold Masked.step
    dsimp only
    split
    next => exact inv
    next sig hNext =>
    have hLt := mem_range'_1.mp (mem_of_find?_eq_some hNext)
    intro k hk
    rw [testBit_and_not _ _ (by omega), testBit_one_shiftLeft (by omega), inv k hk]
    grind [Function.update_apply]

/-- Bit `n` is read for signal `n`, and a blocked signal is dropped: where neither matters, every delivery takes the
signal that is due. -/
theorem deferred_of_allHeed (s : Masked) (events : List SigEvent) (inv : s.Tracked) (heed : AllHeed s events) :
    Deferred s events := by
  induction events generalizing s with
  | nil => trivial
  | cons e events ih =>
    refine ⟨?_, ih _ (inv.step heed.1) heed.2⟩
    rintro rfl
    exact inv.next heed.1

/-- Signal 2 is blocked and sent, held back while signal 3 is blocked too, and delivered once both are not. -/
theorem deferred_until_unblocked : Deferred { task := { handlerTask with sigPending := 0 } }
    [.procmask 0 2, .signal 2, .procmask 0 4, .deliver, .procmask 1 6, .deliver] :=
  deferred_of_allHeed _ _ (by unfold Tracked; decide) (by simp only [AllHeed, Heeds]; decide)

/-- The masked signal is delivered, the other is lost. -/
theorem masked_delivered :
    ¬ Deferred { task := { handlerTask with sigPending := 0 } } [.procmask 0 2, .signal 2, .deliver] ∧
      ¬ Deferred { task := { handlerTask with sigPending := 0 } } [.procmask 0 4, .signal 2, .deliver] := by
  simp [Deferred]
  decide

end Masked
end YartOS.Sched
