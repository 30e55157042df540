import YartOS.Mm.Calls

/-! The processes of the machine: fork, exec, exit and reap. Threads that share an address space
are left out. -/
namespace YartOS.Mm

open Programs Tally List Option

def userHalf : Nat := 2 ^ 27

def Pte.frame : Pte → Option Nat
  | .present p _ => some p
  | .swapped _ => none

def lowTable (k : Nat × Nat) : Bool := k.2 * 2 ^ (9 * k.1) < userHalf

def inSpace {α : Type} (p : Proc) (x : Prog Mem α) : Prog Mem (α × Proc) := fun m =>
  (x { m with proc := p }).map fun r => ((r.1, r.2.proc), { r.2 with proc := m.proc })

lemma inSpace_eq_some {α : Type} {p p' : Proc} {x : Prog Mem α} {a : α} {m m' : Mem}
    (h : inSpace p x m = some ((a, p'), m')) :
    ∃ t, x { m with proc := p } = some (a, t) ∧ p' = t.proc ∧ m' = { t with proc := m.proc } := by
  obtain ⟨⟨b, t⟩, run, ht⟩ := map_eq_some_iff.mp h
  cases ht
  exact ⟨t, run, rfl, rfl⟩

def Proc.newSpace (p : Proc) (root : Nat) : Proc := { p with root := root, tables := ∅, leaves := ∅ }

def Mem.ref (m : Mem) (p : Nat) : Mem := { m with pmm := m.pmm.refPage p }

/-- User tables get own frames; leaf entries are copied. -/
def vmmClonePml4 : Prog Mem Proc := do
  let m ← get
  let root ← pmmAllocPage
  let r ← inSpace (m.proc.newSpace root) ((m.proc.tables.keys.filter lowTable).forM nextTable)
  pure { r.2 with leaves := m.proc.leaves }

def cowFlags : PteFlags := { us := true, cow := true }

def cowForkPage (child : Proc) (n : Nat) : Prog Mem Proc := do
  let m ← get
  match m.leaf n with
  | some (.present p flags) => do
      modify (·.ref p)
      if flags.noshr then pure child
      else do
        modify (·.setLeaf n (.present p cowFlags))
        let r ← inSpace child (vmmMap n p cowFlags)
        pure r.2
  | _ => pure child

/-- The frame that the second loop of `vmm_cow_fork` references: a shared buffer outside all
regions. -/
def outsideFrame (regions : List Region) (n : Nat) : Pte → Option Nat
  | .present p flags =>
    if flags.noshr && n < userHalf && (findRegion regions (n * pageSize)).isNone then some p
    else none
  | .swapped _ => none

def outsideFrames (p : Proc) : List Nat := p.leaves.entries.filterMap fun e => outsideFrame p.regions e.1 e.2

def refOutside (m : Mem) : Mem := (outsideFrames m.proc).foldl Mem.ref m

def vmmCowFork (child : Proc) : Prog Mem Proc := do
  let m ← get
  let child ← (m.proc.regions.flatMap Region.pages).foldlM cowForkPage child
  modify refOutside
  pure child

/-- The memory of the child of `sched_fork`. -/
def schedFork : Prog Mem Proc := do
  let child ← vmmClonePml4
  vmmCowFork child

def Proc.frames (p : Proc) : List Nat :=
  (p.leaves.entries.filterMap fun e => if e.1 < userHalf then e.2.frame else none) ++
  (p.tables.entries.filterMap fun e => if lowTable e.1 then some e.2 else none) ++ [p.root]

def vmmFreePml4 (p : Proc) (m : Mem) : Mem :=
  { m with pmm := p.frames.foldl Pmm.unrefPage m.pmm }

def vmmUserTeardownAll (m : Mem) : Mem :=
  let m := (m.proc.regions.flatMap Region.pages).foldl vmmUnmap m
  { m with proc.regions := [] }

def sigreturnTrampVa : Nat := 0x6F000000
def userStackPages : Nat := 32

def trampolineCode : Page := fun i =>
  [0x48, 0x8B, 0x7C, 0x24, 0xF0, 0x48, 0xC7, 0xC0, 51, 0, 0, 0, 0x0F, 0x05, 0xEB, 0xFE].getD i 0

/-- An ELF file as loaded: per page whether a segment is writable or executable, the contents, and
the relocated bytes. -/
structure Image where
  first : Nat
  pages : List (Bool × Bool × Page)
  relocations : List (Nat × Nat) := []
  aligned : first % pageSize = 0
  fits : pages.length < 2 ^ 52

/-- What `user_exec` is given. `main` is `none` for a refused file; `stack` is the process image. -/
structure Program where
  main : Option Image
  interp : Option Image := none
  top : Nat
  stack : List (Nat × Nat) := []

/-- A page of the second pass of `load_user_elf_into`. -/
def loadPage (n : Nat) (wantWrite wantExec : Bool) (contents : Page) : Prog Mem Unit := do
  let p ← pmmAllocPage
  vmmMap n p { rw := true, us := true }
  modify fun m => vmmSetFlags (m.store p contents) n { us := true, rw := wantWrite, nx := !wantExec }

def loadUserElfInto (rs : List Region) (img : Image) : Prog Mem (Option (List Region)) := do
  match ← vmmReserveIn rs img.first img.pages.length { rw := true, us := true, nx := true } false with
  | none => pure none
  | some rs => do
      img.pages.zipIdx.forM fun e =>
        loadPage (vpn (wrap (img.first + e.2 * pageSize))) e.1.1 e.1.2.1 e.1.2.2
      pure (some rs)

def kernelWrites (bytes : List (Nat × Nat)) : Prog Mem Unit :=
  bytes.forM fun e => kernelWrite e.1 e.2

/-- The loading of the interpreter; where it fails the regions are as before. -/
def loadInterp (rs : List Region) : Option Image → Prog Mem (List Region)
  | none => pure rs
  | some img => do
      match ← loadUserElfInto rs img with
      | none => pure rs
      | some rs => do
          kernelWrites img.relocations
          pure rs

/-- The page is mapped by the reservation and then once more. -/
def userMapTrampoline (rs : List Region) : Prog Mem (List Region) := do
  match ← vmmReserveIn rs sigreturnTrampVa 1 { us := true } true with
  | none => pure rs
  | some rs => do
      let p ← pmmAllocPage
      modify (·.store p trampolineCode)
      vmmMap (vpn sigreturnTrampVa) p { us := true }
      pure rs

def buildUserStackInto (rs : List Region) (top : Nat) (bytes : List (Nat × Nat)) : Prog Mem (Option (List Region)) := do
  match ← vmmReserveIn rs (wrap (top + 2 ^ 64 - userStackPages * pageSize)) userStackPages
      { rw := true, nx := true } true with
  | none => pure none
  | some rs => do
      kernelWrites bytes
      pure (some rs)

/-- The new image, in the new address space: its regions, or `none` on failure. -/
def loadProgram (prog : Program) : Prog Mem (Option (List Region)) :=
  match prog.main with
  | none => pure none
  | some img => do
      match ← loadUserElfInto [] img with
      | none => pure none
      | some rs => do
          kernelWrites img.relocations
          let rs ← loadInterp rs prog.interp
          let rs ← userMapTrampoline rs
          buildUserStackInto rs prog.top prog.stack

/-- `user_exec`. While the image is loaded, faults still go by the old regions. -/
def userExec (prog : Program) : Prog Mem Bool := do
  let m ← get
  let root ← pmmAllocPage
  let r ← inSpace (m.proc.newSpace root) (loadProgram prog)
  match r.1 with
  | some rs => do
      modify (vmmFreePml4 m.proc)
      modify fun m => { m with proc := { root := r.2.root, tables := r.2.tables, leaves := r.2.leaves,
                                         regions := rs, memPages := (rs.map (·.npages)).sum } }
      pure true
  | none => do
      modify (vmmFreePml4 r.2)
      modify fun m => { m with proc.memPages := r.2.memPages }
      pure false

/-- A reaped process is `none`. `kernelRefs` counts references outside page tables. -/
structure Machine where
  pmm : Pmm
  swap : Swap
  procs : List (Option Proc)
  kernelRefs : Nat → Nat := fun _ => 0

namespace Machine

def mem (s : Machine) (p : Proc) : Mem := { pmm := s.pmm, swap := s.swap, proc := p }

def put (s : Machine) (i : Nat) (m : Mem) : Machine :=
  { s with pmm := m.pmm, swap := m.swap, procs := s.procs.set i (some m.proc) }

def proc (s : Machine) (i : Nat) : Option Proc := s.procs[i]?.join

def runOn {α : Type} (s : Machine) (i : Nat) (x : Prog Mem α) : Option (α × Machine) := do
  let p ← s.proc i
  let r ← x (s.mem p)
  some (r.1, s.put i r.2)

def spawn (s : Machine) (i : Nat) (x : Prog Mem Proc) : Option Machine := do
  let r ← s.runOn i x
  some { r.2 with procs := r.2.procs ++ [some r.1] }

def reap (s : Machine) (i : Nat) : Option Machine := do
  let p ← s.proc i
  some { s with pmm := (vmmFreePml4 p (s.mem p)).pmm, procs := s.procs.set i none }

variable {s s' : Machine} {i n : Nat} {p : Proc}

lemma getElem?_of_proc (hp : s.proc i = some p) : s.procs[i]? = some (some p) := join_eq_some_iff.mp hp

lemma lt_length_of_proc (hp : s.proc i = some p) : i < s.procs.length :=
  (List.getElem?_eq_some_iff.mp (getElem?_of_proc hp)).1

lemma proc_set (o : Option Proc) {j : Nat} {q : Proc} (hq : (s.procs.set i o)[j]?.join = some q) :
    o = some q ∨ s.proc j = some q := by
  rw [getElem?_set] at hq
  split at hq
  · split at hq
    · exact .inl hq
    · cases hq
  · exact .inr hq

lemma runOn_eq_some {α : Type} {x : Prog Mem α} {a : α} (run : s.runOn i x = some (a, s')) :
    ∃ p m, s.proc i = some p ∧ x (s.mem p) = some (a, m) ∧ s' = s.put i m := by
  obtain ⟨p, hp, rest⟩ := bind_eq_some_iff.mp run
  obtain ⟨⟨b, m⟩, hx, done⟩ := bind_eq_some_iff.mp rest
  cases done
  exact ⟨p, m, hp, hx, rfl⟩

lemma map_runOn_eq_some {α : Type} {x : Prog Mem α} (run : (s.runOn i x).map (·.2) = some s') :
    ∃ p a m, s.proc i = some p ∧ x (s.mem p) = some (a, m) ∧ s' = s.put i m := by
  obtain ⟨⟨a, t⟩, ran, rfl⟩ := map_eq_some_iff.mp run
  obtain ⟨p, m, done⟩ := runOn_eq_some ran
  exact ⟨p, a, m, done⟩

lemma spawn_eq_some {x : Prog Mem Proc} (run : s.spawn i x = some s') : ∃ p child m, s.proc i = some p ∧
    x (s.mem p) = some (child, m) ∧ s' = { s.put i m with procs := (s.put i m).procs ++ [some child] } := by
  obtain ⟨⟨child, t⟩, ran, ⟨⟩⟩ := bind_eq_some_iff.mp run
  obtain ⟨p, m, hp, hx, rfl⟩ := runOn_eq_some ran
  exact ⟨p, child, m, hp, hx, rfl⟩

def leaf (s : Machine) (i n : Nat) : Option Pte := (s.proc i).bind (·.leaves.lookup n)

lemma lt_length_of_leaf {e : Pte} (h : s.leaf i n = some e) : i < s.procs.length := by
  obtain ⟨p, hp, -⟩ := bind_eq_some_iff.mp h
  exact lt_length_of_proc hp

lemma leaf_put {m : Mem} (hi : i < s.procs.length) (j : Nat) :
    (s.put i m).leaf j n = if j = i then m.leaf n else s.leaf j n := by
  unfold leaf proc put
  rw [List.getElem?_set]
  by_cases h : j = i
  · subst h
    rw [if_pos rfl, if_pos hi, if_pos rfl]
    rfl
  · rw [if_neg (Ne.symm h), if_neg h]

lemma leaf_append (s : Machine) (q : Proc) (j n : Nat) : { s with procs := s.procs ++ [some q] : Machine }.leaf j n =
      if j = s.procs.length then q.leaves.lookup n else s.leaf j n := by
  unfold leaf proc
  rw [getElem?_append]
  split
  · rename_i hj
    rw [if_neg (ne_of_lt hj)]
  · rename_i hj
    rw [getElem?_singleton, getElem?_eq_none (Nat.le_of_not_lt hj)]
    by_cases h : j = s.procs.length
    · simp [h]
    · rw [if_neg h, if_neg (by omega)]

lemma proc_append {q r : Proc} {j : Nat}
    (h : { s with procs := s.procs ++ [some q] : Machine }.proc j = some r) : s.proc j = some r ∨ r = q := by
  unfold proc at h
  rw [getElem?_append] at h
  split at h
  · exact .inl h
  · rw [getElem?_singleton] at h
    split at h
    · cases h
      exact .inr rfl
    · cases h

def oneProcess : Machine where
  pmm := { used := fun p => p < 2, refs := fun p => if p = 1 then 1 else 0, data := fun _ => zeroPage, total := 64 }
  swap := { used := fun _ => false, data := fun _ => zeroPage, slots := swapSlots }
  procs := [some { root := 1 }]

end Machine

end YartOS.Mm
