import YartOS.Lib.Programs
import YartOS.Lib.Table
import YartOS.Mm.Frames
import YartOS.Mm.Regions

/-! The virtual memory manager. A program stops where no frame is free and where the kernel panics. -/
namespace YartOS.Mm

open Programs Tally Function List

def swapSlots : Nat := 1024

/-- The swap pool: slots below `swapSlots` in memory, others on a disk that may be `bad`. -/
structure Swap where
  used : Nat → Bool
  data : Nat → Page
  slots : Nat
  bad : Nat → Bool := fun _ => false

inductive Pte where
  | present (frame : Nat) (flags : PteFlags)
  | swapped (slot : Nat)
deriving DecidableEq

/-- The memory of a process: leaf entries by page number, tables by level and index; `root` is the
PML4. -/
structure Proc where
  root : Nat
  tables : Table (Nat × Nat) Nat := ∅
  leaves : Table Nat Pte := ∅
  regions : List Region := []
  memPages : Nat := 0
  mmapNext : Nat := userMmapBase
  brk : Nat := userMmapBase
  brkBase : Nat := userMmapBase

/-- What the running process sees; `written` logs assigned pages. -/
structure Mem where
  pmm : Pmm
  swap : Swap
  proc : Proc
  written : List Nat := []

/-- The cap that `sched_create_user` sets and `sched_fork` hands on, in pages. -/
def memLimitPages : Nat := 256 * 1024 * 1024 / pageSize

/-- The bits of an address by which `walk` goes. -/
def vpn (va : Nat) : Nat := va / pageSize % 2 ^ 36

def pagesFrom (start count : Nat) : List Nat := (range count).map fun i => vpn (wrap (start + i * pageSize))

def Region.pages (r : Region) : List Nat := pagesFrom r.start ((r.finish - r.start) / pageSize)

/-- Whether an access goes through without a fault. -/
def Pte.allows (user write : Bool) : Pte → Bool
  | .present _ flags => (!user || flags.us) && (!write || flags.rw)
  | .swapped _ => false

namespace Mem

def leaf (m : Mem) (n : Nat) : Option Pte := m.proc.leaves.lookup n

def setLeaf (m : Mem) (n : Nat) (e : Pte) : Mem :=
  { m with proc.leaves := m.proc.leaves.insert n e, written := n :: m.written }

def clearLeaf (m : Mem) (n : Nat) : Mem :=
  { m with proc.leaves := m.proc.leaves.erase n, written := n :: m.written }

def store (m : Mem) (p : Nat) (page : Page) : Mem :=
  { m with pmm.data := update m.pmm.data p page }

def unref (m : Mem) (p : Nat) : Mem := { m with pmm := m.pmm.unrefPage p }

end Mem

def pmmAllocPage : Prog Mem Nat := fun m =>
  m.pmm.allocPage.map fun r => (r.1, { m with pmm := r.2 })

/-- The entry of the table at a level, allocated where it is missing. -/
def nextTable (k : Nat × Nat) : Prog Mem Unit := do
  let m ← get
  if (m.proc.tables.lookup k).isSome then pure ()
  else do
    let p ← pmmAllocPage
    modify fun m => { m with proc.tables := m.proc.tables.insert k p }

def tableKeys (n : Nat) : List (Nat × Nat) := [(3, n / 2 ^ 27), (2, n / 2 ^ 18), (1, n / 2 ^ 9)]

def walkCreate (n : Nat) : Prog Mem Unit := (tableKeys n).forM nextTable

/-- `vmm_map` and `vmm_map_in`: whatever the entry held is overwritten. -/
def vmmMap (n p : Nat) (flags : PteFlags) : Prog Mem Unit := do
  walkCreate n
  modify (·.setLeaf n (.present p flags))

def vmmSetFlags (m : Mem) (n : Nat) (flags : PteFlags) : Mem :=
  match m.leaf n with
  | some (.present p _) => m.setLeaf n (.present p flags)
  | _ => m

/-- `vmm_unmap`: only a present entry is dropped, with its reference. -/
def vmmUnmap (m : Mem) (n : Nat) : Mem :=
  match m.leaf n with
  | some (.present p _) => (m.clearLeaf n).unref p
  | _ => m

def chargePages (m : Mem) (n : Nat) : Mem :=
  if m.proc.memPages + n > memLimitPages then m
  else { m with proc.memPages := m.proc.memPages + n }

def unchargePages (m : Mem) (n : Nat) : Mem :=
  { m with proc.memPages := m.proc.memPages - n }

def mapFresh (flags : PteFlags) (n : Nat) : Prog Mem Unit := do
  let p ← pmmAllocPage
  vmmMap n p flags

def newRegion (va npages : Nat) (flags : PteFlags) : Region := ⟨pageAlignDown va, npages, { flags with us := true }⟩

/-- Unless the reservation is lazy, each page of the region is mapped at once. -/
def mapRegion (r : Region) (eager : Bool) : Prog Mem Unit :=
  if eager then r.pages.forM (mapFresh r.flags) else pure ()

/-- `vmm_reserve_in`: the regions with the new one, or `none` where it is refused. -/
def vmmReserveIn (rs : List Region) (va npages : Nat) (flags : PteFlags) (eager : Bool) :
    Prog Mem (Option (List Region)) :=
  if reserveOk rs va npages then do
    let r := newRegion va npages flags
    mapRegion r eager
    pure (some (rs ++ [r]))
  else pure none

def vmmUserReserve (va npages : Nat) (flags : PteFlags) (eager : Bool) : Prog Mem Bool := do
  let m ← get
  if reserveOk m.proc.regions va npages && m.proc.memPages + npages ≤ memLimitPages then do
    let r := newRegion va npages flags
    modify fun m => { chargePages m npages with proc.regions := m.proc.regions ++ [r] }
    mapRegion r eager
    pure true
  else pure false

/-- The table of regions without entry `i`, whose place the last entry takes. -/
def dropRegion (rs : List Region) (i : Nat) : List Region :=
  match rs.getLast? with
  | some last => (rs.set i last).dropLast
  | none => rs

def vmmUserRelease (va : Nat) : Prog Mem Bool := do
  let m ← get
  match m.proc.regions.findIdx? fun r => r.start = pageAlignDown va with
  | none => pure false
  | some i =>
    match m.proc.regions[i]? with
    | none => pure false
    | some r => do
        modify fun m => r.pages.foldl vmmUnmap m
        modify fun m => unchargePages m r.npages
        modify fun m => { m with proc.regions := dropRegion m.proc.regions i }
        pure true

def swapFreeSlot (m : Mem) (slot : Nat) : Mem :=
  { m with swap.used := update m.swap.used slot false }

def swapAllocSlot (m : Mem) : Option (Nat × Mem) :=
  ((range m.swap.slots).find? fun i => !m.swap.used i).map fun i =>
    (i, { m with swap.used := update m.swap.used i true })

def Swap.fails (w : Swap) (slot : Nat) : Bool := swapSlots ≤ slot && w.bad slot

def vmmSwapOut (va : Nat) (m : Mem) : Bool × Mem :=
  match m.leaf (vpn va) with
  | some (.present p _) =>
    match swapAllocSlot m with
    | none => (false, m)
    | some (slot, m) =>
      if m.swap.fails slot then (false, swapFreeSlot m slot)
      else
        let m := { m with swap.data := update m.swap.data slot (m.pmm.data p) }
        (true, (m.unref p).setLeaf (vpn va) (.swapped slot))
  | _ => (false, m)

/-- The protection of a page that comes back from the swap pool. -/
def swapInFlags (m : Mem) (va : Nat) : PteFlags :=
  match findRegion m.proc.regions (pageAlignDown va) with
  | some r => r.flags
  | none => { rw := true, us := true }

def vmmSwapIn (va : Nat) : Prog Mem Bool := do
  let m ← get
  match m.leaf (vpn va) with
  | some (.swapped slot) => do
      let p ← pmmAllocPage
      if m.swap.fails slot then do
        -- the entry still names the slot
        modify fun m => swapFreeSlot (m.unref p) slot
        pure false
      else do
        modify fun m => swapFreeSlot (m.store p (m.swap.data slot)) slot
        vmmMap (vpn va) p (swapInFlags m va)
        pure true
  | _ => pure false

def Pte.evictable : Pte → Bool
  | .present _ flags => !flags.cow && !flags.noshr && flags.nx
  | .swapped _ => false

/-- One page of the loop of `vmm_evict_some`; `done` counts the evicted pages. -/
def evictPage (max : Nat) (s : Nat × Mem) (n : Nat) : Nat × Mem :=
  if s.1 < max && (s.2.leaf n).any Pte.evictable then
    match vmmSwapOut (n * pageSize) s.2 with
    | (true, m) => (s.1 + 1, m)
    | (false, m) => (s.1, m)
  else s

def vmmEvictSome (max : Nat) (m : Mem) : Nat × Mem := (m.proc.regions.flatMap Region.pages).foldl (evictPage max) (0, m)

def demandFault (va : Nat) : Prog Mem Bool := do
  let m ← get
  match findRegion m.proc.regions va with
  | none => pure false
  | some r =>
    if m.proc.memPages + 1 > memLimitPages then pure false
    else do
      modify fun m => chargePages m 1
      mapFresh r.flags (vpn va)
      pure true

def cowFault (va p : Nat) (flags : PteFlags) : Prog Mem Unit := do
  let m ← get
  if m.pmm.refs p = 1 then
    modify (·.setLeaf (vpn va) (.present p { flags with rw := true, cow := false }))
  else do
    let copy ← pmmAllocPage
    modify fun m => (m.store copy (m.pmm.data p)).unref p
    vmmMap (vpn va) copy { rw := true, us := true }

def vmmResolveUserFault (va : Nat) (write : Bool) : Prog Mem Bool := do
  let m ← get
  match m.leaf (vpn va) with
  | some (.swapped _) => vmmSwapIn va
  | none => demandFault va
  | some (.present p flags) =>
    if write && flags.cow && !flags.rw then do
      cowFault va p flags
      pure true
    else pure false

/-- An access repeated after resolved faults. The first can map the page, the second copy it. -/
def access (user write : Bool) (va : Nat) : Nat → Prog Mem Bool
  | 0 => pure false
  | faults + 1 => do
      let m ← get
      if (m.leaf (vpn va)).any (Pte.allows user write) then pure true
      else do
        let resolved ← vmmResolveUserFault va write
        if resolved then access user write va faults else pure false

def vmmTranslate (m : Mem) (va : Nat) : Option Nat :=
  match m.leaf (vpn va) with
  | some (.present p _) => some p
  | _ => none

def setByte (va b : Nat) (m : Mem) : Mem :=
  match vmmTranslate m va with
  | some p => m.store p (update (m.pmm.data p) (va % pageSize) b)
  | none => m

/-- A write by the kernel. A fault that is not resolved is a panic. -/
def kernelWrite (va b : Nat) : Prog Mem Unit := do
  let done ← access false true va 3
  if done then modify (setByte va b) else failure

def copyToUser (va : Nat) (bytes : List Nat) : Prog Mem Unit :=
  bytes.zipIdx.forM fun e => kernelWrite (wrap (va + e.2)) e.1

variable {m m' : Mem} {n p : Nat} {flags : PteFlags} {u : Unit}

lemma pmmAllocPage_eq_some (h : pmmAllocPage m = some (p, m')) :
    m.pmm.used p = false ∧ m' = { m with pmm := m.pmm.allocIdx p } := by
  obtain ⟨⟨q, pmm'⟩, found, hq⟩ := Option.map_eq_some_iff.mp h
  cases hq
  obtain ⟨free, rfl⟩ := Pmm.allocPage_eq_some found
  exact ⟨free, rfl⟩

/-- `m'` differs from `m` in frames and in page tables above the leaves only. -/
def OnlyTables (m m' : Mem) : Prop := ∃ pmm' tables', m' = { m with pmm := pmm', proc.tables := tables' }

lemma nextTable_onlyTables {m₀ : Mem} (k : Nat × Nat) : Keeps (OnlyTables m₀) (nextTable k) := by
  refine Triple.get_bind fun m hm => ?_
  refine Triple.ite (fun _ => Triple.pure fun s hs => hs ▸ hm) fun _ => ?_
  rintro _ u m' rfl run
  obtain ⟨p, t, alloc, rest⟩ := of_bind run
  obtain ⟨-, rfl⟩ := pmmAllocPage_eq_some alloc
  obtain rfl := of_modify rest
  obtain ⟨pmm', tables', rfl⟩ := hm
  exact ⟨_, _, rfl⟩

lemma onlyTables_of_forM {ks : List (Nat × Nat)} (h : ks.forM nextTable m = some (u, m')) : OnlyTables m m' :=
  Triple.forM (fun k _ => nextTable_onlyTables k) m u m' ⟨m.pmm, m.proc.tables, rfl⟩ h

lemma vmmMap_eq_some (h : vmmMap n p flags m = some (u, m')) :
    ∃ t, walkCreate n m = some ((), t) ∧ OnlyTables m t ∧ m' = t.setLeaf n (.present p flags) := by
  obtain ⟨_, t, walk, rest⟩ := of_bind h
  exact ⟨t, walk, onlyTables_of_forM walk, (of_modify rest).symm⟩

lemma mapFresh_eq_some (h : mapFresh flags n m = some (u, m')) :
    ∃ p t, OnlyTables m t ∧ m' = t.setLeaf n (.present p flags) := by
  obtain ⟨p, m₁, alloc, map⟩ := of_bind h
  obtain ⟨-, rfl⟩ := pmmAllocPage_eq_some alloc
  obtain ⟨t, -, ⟨pmm', tables', rfl⟩, rfl⟩ := vmmMap_eq_some map
  exact ⟨p, _, ⟨pmm', tables', rfl⟩, rfl⟩

lemma leaf_setLeaf (m : Mem) (n k : Nat) (e : Pte) : (m.setLeaf n e).leaf k = if k = n then some e else m.leaf k := by
  split_ifs with h
  · rw [h]
    exact AList.lookup_insert _
  · exact AList.lookup_insert_ne ‹_›

lemma nextTable_stable {m₀ : Pmm} (k : Nat × Nat) : Keeps (fun m => m₀.Stable m.pmm) (nextTable k) := by
  refine Triple.get_bind fun m hm => Triple.ite (fun _ => Triple.pure fun s hs => hs ▸ hm) fun _ => ?_
  rintro t u m' rfl run
  obtain ⟨p, t', alloc, rest⟩ := of_bind run
  obtain ⟨free, rfl⟩ := pmmAllocPage_eq_some alloc
  obtain rfl := of_modify rest
  exact hm.trans (Pmm.stable_allocIdx free)

lemma stable_of_forM {ks : List (Nat × Nat)} (h : ks.forM nextTable m = some (u, m')) : m.pmm.Stable m'.pmm :=
  Triple.forM (P := fun t : Mem => m.pmm.Stable t.pmm) (fun k _ => nextTable_stable k) m u m' .refl h

lemma vmmMap_stable (h : vmmMap n p flags m = some (u, m')) : m.pmm.Stable m'.pmm := by
  obtain ⟨t, walk, -, rfl⟩ := vmmMap_eq_some h
  have stable := stable_of_forM walk
  exact stable

def reserveFits (m : Mem) (va npages : Nat) : Bool :=
  reserveOk m.proc.regions va npages && m.proc.memPages + npages ≤ memLimitPages

def Mem.reserve (m : Mem) (va npages : Nat) (flags : PteFlags) : Mem :=
  { m with
    proc.memPages := m.proc.memPages + npages
    proc.regions := m.proc.regions ++ [newRegion va npages flags] }

lemma vmmUserReserve_cases {va npages : Nat} {eager r : Bool}
    (h : vmmUserReserve va npages flags eager m = some (r, m')) :
    (r = false ∧ reserveFits m va npages = false ∧ m' = m) ∨
    (r = true ∧ reserveFits m va npages = true ∧ mapRegion (newRegion va npages flags) eager
        (m.reserve va npages flags) = some ((), m')) := by
  change (if reserveFits m va npages then _ else _ : Prog Mem Bool) m = _ at h
  cases hFits : reserveFits m va npages with
  | false =>
    rw [hFits] at h
    obtain ⟨rfl, rfl⟩ := of_pure h
    exact .inl ⟨rfl, rfl, rfl⟩
  | true =>
    rw [hFits] at h
    replace h := of_modify_bind h
    obtain ⟨_, map, rfl⟩ := of_bind_pure h
    have hLimit : m.proc.memPages + npages ≤ memLimitPages := by
      simp only [reserveFits, Bool.and_eq_true, decide_eq_true_eq] at hFits
      exact hFits.2
    rw [chargePages, if_neg (not_lt.mpr hLimit)] at map
    exact .inr ⟨rfl, rfl, map⟩

lemma vmmUserRelease_cases {va : Nat} {r : Bool} (h : vmmUserRelease va m = some (r, m')) :
    (r = false ∧ m' = m) ∨ ∃ i region, r = true ∧ region.start = pageAlignDown va ∧ m.proc.regions[i]? = some region ∧
      m' = { unchargePages (region.pages.foldl vmmUnmap m) region.npages with
             proc.regions := dropRegion (region.pages.foldl vmmUnmap m).proc.regions i } := by
  replace h := of_get_bind h
  cases hFound : m.proc.regions.findIdx? fun r => r.start = pageAlignDown va with
  | none =>
    rw [hFound] at h
    obtain ⟨rfl, rfl⟩ := of_pure h
    exact .inl ⟨rfl, rfl⟩
  | some i =>
    rw [hFound] at h
    cases hRegion : m.proc.regions[i]? with
    | none =>
      simp only [hRegion] at h
      obtain ⟨rfl, rfl⟩ := of_pure h
      exact .inl ⟨rfl, rfl⟩
    | some region =>
      simp only [hRegion] at h
      obtain ⟨rfl, rfl⟩ := of_pure h
      obtain ⟨hi, hStart, -⟩ := findIdx?_eq_some_iff_getElem.mp hFound
      rw [getElem?_eq_getElem hi] at hRegion
      cases hRegion
      exact .inr ⟨i, _, rfl, by simpa using hStart, getElem?_eq_getElem hi, rfl⟩

/-- What `vmm_resolve_user_fault` can do, with its result. -/
inductive Fault (va : Nat) (write : Bool) (m : Mem) : Bool → Mem → Prop where
  | refused : Fault va write m false m
  | demand {r : Region} {m' : Mem} (absent : m.leaf (vpn va) = none)
      (found : findRegion m.proc.regions va = some r)
      (cap : m.proc.memPages + 1 ≤ memLimitPages)
      (map : mapFresh r.flags (vpn va) { m with proc.memPages := m.proc.memPages + 1 } = some ((), m')) :
      Fault va write m true m'
  | upgrade {p : Nat} {flags : PteFlags} (leaf : m.leaf (vpn va) = some (.present p flags))
      (writes : write = true) (cow : flags.cow = true) (ro : flags.rw = false)
      (last : m.pmm.refs p = 1) :
      Fault va write m true (m.setLeaf (vpn va) (.present p { flags with rw := true, cow := false }))
  | copy {p q : Nat} {flags : PteFlags} {t m' : Mem}
      (leaf : m.leaf (vpn va) = some (.present p flags)) (writes : write = true)
      (cow : flags.cow = true) (ro : flags.rw = false) (shared : m.pmm.refs p ≠ 1)
      (alloc : pmmAllocPage m = some (q, t))
      (map : vmmMap (vpn va) q { rw := true, us := true } ((t.store q (t.pmm.data p)).unref p) = some ((), m')) :
      Fault va write m true m'
  | swapFailed {slot p : Nat} {t : Mem} (leaf : m.leaf (vpn va) = some (.swapped slot))
      (alloc : pmmAllocPage m = some (p, t)) (fails : m.swap.fails slot = true) :
      Fault va write m false (swapFreeSlot (t.unref p) slot)
  | swapIn {slot p : Nat} {t m' : Mem} (leaf : m.leaf (vpn va) = some (.swapped slot))
      (alloc : pmmAllocPage m = some (p, t)) (works : m.swap.fails slot = false)
      (map : vmmMap (vpn va) p (swapInFlags m va) (swapFreeSlot (t.store p (t.swap.data slot)) slot) = some ((), m')) :
      Fault va write m true m'

variable {va : Nat} {write r : Bool}

lemma demandFault_fault (absent : m.leaf (vpn va) = none) (h : demandFault va m = some (r, m')) :
    Fault va write m r m' := by
  replace h := of_get_bind h
  cases hFound : findRegion m.proc.regions va with
  | none =>
    rw [hFound] at h
    obtain ⟨rfl, rfl⟩ := of_pure h
    exact .refused
  | some region =>
    rw [hFound] at h
    by_cases hCap : m.proc.memPages + 1 > memLimitPages
    · simp only [hCap, if_true] at h
      obtain ⟨rfl, rfl⟩ := of_pure h
      exact .refused
    · simp only [hCap, if_false] at h
      replace h := of_modify_bind h
      obtain ⟨_, map, rfl⟩ := of_bind_pure h
      rw [chargePages, if_neg hCap] at map
      exact .demand absent hFound (Nat.le_of_not_lt hCap) map

lemma cowFault_fault (hLeaf : m.leaf (vpn va) = some (.present p flags)) (writes : write = true)
    (cow : flags.cow = true) (ro : flags.rw = false) (h : cowFault va p flags m = some (u, m')) :
    Fault va write m true m' := by
  replace h := of_get_bind h
  by_cases hRefs : m.pmm.refs p = 1
  · simp only [hRefs, if_true] at h
    obtain rfl := of_modify h
    exact .upgrade hLeaf writes cow ro hRefs
  · simp only [hRefs, if_false] at h
    obtain ⟨q, t, alloc, h⟩ := of_bind h
    have map := of_modify_bind h
    exact .copy hLeaf writes cow ro hRefs alloc map

lemma vmmSwapIn_fault (h : vmmSwapIn va m = some (r, m')) : Fault va write m r m' := by
  replace h := of_get_bind h
  cases hLeaf : m.leaf (vpn va) with
  | none =>
    rw [hLeaf] at h
    obtain ⟨rfl, rfl⟩ := of_pure h
    exact .refused
  | some e =>
    rw [hLeaf] at h
    cases e with
    | present p flags =>
      obtain ⟨rfl, rfl⟩ := of_pure h
      exact .refused
    | swapped slot =>
      obtain ⟨p, t, alloc, h⟩ := of_bind h
      cases hFails : m.swap.fails slot with
      | true =>
        simp only [hFails, if_true] at h
        obtain ⟨rfl, rfl⟩ := of_pure h
        exact .swapFailed hLeaf alloc hFails
      | false =>
        simp only [hFails] at h
        replace h := of_modify_bind h
        obtain ⟨_, map, rfl⟩ := of_bind_pure h
        exact .swapIn hLeaf alloc hFails map

lemma vmmResolveUserFault_fault (h : vmmResolveUserFault va write m = some (r, m')) : Fault va write m r m' := by
  replace h := of_get_bind h
  cases hLeaf : m.leaf (vpn va) with
  | none =>
    rw [hLeaf] at h
    exact demandFault_fault hLeaf h
  | some e =>
    rw [hLeaf] at h
    cases e with
    | swapped slot => exact vmmSwapIn_fault h
    | present p flags =>
      by_cases hCow : write && flags.cow && !flags.rw
      · simp only [hCow, if_true] at h
        obtain ⟨_, cow, rfl⟩ := of_bind_pure h
        simp only [Bool.and_eq_true, Bool.not_eq_true'] at hCow
        exact cowFault_fault hLeaf hCow.1.1 hCow.1.2 hCow.2 cow
      · simp only [hCow] at h
        obtain ⟨rfl, rfl⟩ := of_pure h
        exact .refused

/-- What every fault at an address keeps, an access to it keeps. -/
lemma access_induction {user : Bool} {faults : Nat} {P : Mem → Prop}
    (step : ∀ m r m', P m → Fault va write m r m' → P m') (hP : P m)
    (h : access user write va faults m = some (r, m')) : P m' := by
  induction faults generalizing m with
  | zero =>
    obtain ⟨-, rfl⟩ := of_pure h
    exact hP
  | succ faults ih =>
    replace h := of_get_bind h
    by_cases hAllowed : (m.leaf (vpn va)).any (Pte.allows user write)
    · simp only [hAllowed, if_true] at h
      obtain ⟨-, rfl⟩ := of_pure h
      exact hP
    simp only [hAllowed] at h
    obtain ⟨resolved, t, fault, h⟩ := of_bind h
    have kept := step m resolved t hP (vmmResolveUserFault_fault fault)
    cases resolved with
    | true => exact ih kept h
    | false =>
      obtain ⟨-, rfl⟩ := of_pure h
      exact kept

end YartOS.Mm
