import YartOS.Mm.Accounting

/-! The surfaces of windows, mapped into application and compositor. The frames of a destroyed
surface stay mapped in the compositor and are freed with the next use of the slot. -/
namespace YartOS.Wm

open Mm Programs Tally Runs List

def wmMaxSurfaces : Nat := 8
def wmSurfAppBase : Nat := 0x60000000
def wmSurfWmBase : Nat := 0x64000000
def wmSurfStride : Nat := 0x400000
def wmSurfMaxW : Nat := 1280
def wmSurfMaxH : Nat := 800
def wmSurfMaxPages : Nat := wmSurfStride / pageSize

def appPage (id i : Nat) : Nat := vpn (wmSurfAppBase + id * wmSurfStride + i * pageSize)

def wmPage (id i : Nat) : Nat := vpn (wmSurfWmBase + id * wmSurfStride + i * pageSize)

def surfFlags : PteFlags := { rw := true, us := true, nx := true, noshr := true }

def surfPages (w h : Nat) : Nat := (w * h * 4 + pageSize - 1) / pageSize

/-- A size that is refused, where `least` is the smallest width and height. -/
def BadSize (least w h : Nat) : Prop := w < least ∨ h < least ∨ wmSurfMaxW < w ∨ wmSurfMaxH < h

instance (least w h : Nat) : Decidable (BadSize least w h) := inferInstanceAs (Decidable (_ ∨ _))

/-- A slot of `g_wm_surfs`; a destroyed surface keeps its pages. The model keeps its owner, and
`stray` frames of a failed resize, which no function reads. -/
structure Surface where
  used : Bool := false
  owner : Nat := 0
  pages : List Nat := []
  stray : List Nat := []

def Surface.frames (x : Surface) : List (Nat × Nat) := (x.pages ++ x.stray).map fun f => (x.owner, f)

/-- The addresses of the pages go through a table of 32-bit words. -/
def savedPage (f : Nat) : Nat := f * pageSize % 2 ^ 32 / pageSize

def Surface.released (x : Surface) : Surface := { x with used := false, pages := x.pages.map savedPage }

def mapRef (n f : Nat) : Prog Mem Unit := do
  vmmMap n f surfFlags
  modify (·.ref f)

def mapAll (es : List (Nat × Nat)) : Prog Mem Unit := es.forM fun e => mapRef e.1 e.2

def entriesAt (page : Nat → Nat) (first : Nat) (fs : List Nat) : List (Nat × Nat) :=
  (fs.zipIdx first).map fun e => (page e.2, e.1)

def placePage (mapped : Bool) (n f : Nat) : Prog Mem Unit := if mapped then mapRef n f else pure ()

/-- Fresh frames for `n` pages from `first` on, mapped at once if `mapped`. -/
def growPages (page : Nat → Nat) (mapped : Bool) (first : Nat) : Nat → Prog Mem (List Nat)
  | 0 => pure []
  | n + 1 => do
      let f ← pmmAllocPage
      placePage mapped (page first) f
      let fs ← growPages page mapped (first + 1) n
      pure (f :: fs)

def createPages (id n : Nat) : Prog Mem (List Nat) := do
  let fs ← growPages (appPage id) false 0 n
  mapAll (entriesAt (appPage id) 0 fs)
  pure fs

/-- Reuse of a slot drops two references per page: the compositor's and the table's. -/
def reclaim (old : List Nat) (m : Pmm) : Pmm := old.foldl (fun m f => (m.unrefPage f).unrefPage f) m

/-- `wm` is `g_wm_task`, `zombies` are not reaped yet. `replaced` records frames in use of surfaces
whose slot was used again. -/
structure Desktop where
  machine : Machine
  surfs : List Surface := replicate wmMaxSurfaces {}
  wm : Option Nat := none
  zombies : List Nat := []
  replaced : List (Nat × Nat) := []

namespace Desktop

def surf (s : Desktop) (id : Nat) : Surface := s.surfs[id]?.getD {}

def freeSlot (s : Desktop) : Option Nat := s.surfs.findIdx? fun x => !x.used

def Live (s : Desktop) (i : Nat) : Prop := (s.machine.proc i).isSome ∧ i ∉ s.zombies

instance (s : Desktop) (i : Nat) : Decidable (s.Live i) := inferInstanceAs (Decidable (_ ∧ _))

def showPages (wm : Option Nat) (id : Nat) (fs : List Nat) (s : Machine) : Option Machine :=
  match wm with
  | none => some s
  | some c => (s.runOn c (mapAll (entriesAt (wmPage id) 0 fs))).map (·.2)

/-- `sys_wm_create` in a slot, where there are frames for all `n` pages. -/
def createIn (s : Desktop) (i id n : Nat) : Option Desktop := do
  let old := s.surf id
  let (fs, m) ← s.machine.runOn i (createPages id n)
  let m ← showPages s.wm id fs m
  let (_, m) ← { m with pmm := reclaim old.pages m.pmm }.runOn i (modify (chargePages · n))
  some { s with
    machine := m
    surfs := s.surfs.set id { used := true, owner := i, pages := fs }
    replaced := s.replaced ++ old.frames }

/-- `sys_wm_create` with `grant` frames only: they are given back but stay in the slot, and the old
pages are forgotten. -/
def createFailed (s : Desktop) (i id n grant : Nat) : Option Desktop := do
  let old := s.surf id
  let (fs, m) ← s.machine.runOn i (growPages (appPage id) false 0 grant)
  some { s with
    machine := { m with pmm := fs.foldl Pmm.unrefPage m.pmm }
    surfs := s.surfs.set id { owner := i, pages := fs ++ replicate (n - grant) 0 }
    replaced := s.replaced ++ old.frames }

/-- The slot or `-1`; `grant` frames can be allocated. -/
def sysWmCreate (s : Desktop) (i w h grant : Nat) : Option (Int × Desktop) :=
  if BadSize 16 w h then some (-1, s)
  else
    match s.freeSlot with
    | none => some (-1, s)
    | some id =>
      if wmSurfMaxPages < surfPages w h then some (-1, s)
      else if grant < surfPages w h then (s.createFailed i id (surfPages w h) grant).map ((-1, ·))
      else (s.createIn i id (surfPages w h)).map ((id, ·))

def unmapApp (s : Machine) (owner id n : Nat) : Machine :=
  match s.proc owner with
  | none => s
  | some p => s.put owner (((range n).map (appPage id)).foldl vmmUnmap (s.mem p))

variable (s : Desktop)

def wmSurfaceTeardown (id : Nat) (unmap : Bool) : Desktop :=
  let x := s.surf id
  { s with
    machine := if unmap then unmapApp s.machine x.owner id x.pages.length else s.machine
    surfs := s.surfs.set id x.released }

def mayChange (i id : Nat) : Bool :=
  id < wmMaxSurfaces && (s.surf id).used && (i == (s.surf id).owner || s.wm == some i)

def sysWmDestroy (i id : Nat) : Int × Desktop :=
  if s.mayChange i id then (0, s.wmSurfaceTeardown id true) else (-1, s)

/-- The surface grows by up to `n` pages, which only the compositor sees. -/
def growTo (i id n grant : Nat) : Option (Int × Desktop) := do
  let x := s.surf id
  let (fs, m) ← s.machine.runOn (s.wm.getD i) (growPages (wmPage id) s.wm.isSome x.pages.length (min n grant))
  some <| if grant < n then
      (-1, { s with machine := m, surfs := s.surfs.set id { x with stray := x.stray ++ fs } })
    else (0, { s with machine := m, surfs := s.surfs.set id { x with pages := x.pages ++ fs } })

def sysWmResize (i id w h grant : Nat) : Option (Int × Desktop) :=
  if ¬ s.mayChange i id ∨ BadSize 100 w h ∨ wmSurfMaxPages < surfPages w h then some (-1, s)
  else s.growTo i id (surfPages w h - (s.surf id).pages.length) grant

def owned (i : Nat) : List Nat := (range wmMaxSurfaces).filter fun id => (s.surf id).used && (s.surf id).owner == i

def wmSurfaceOwnerDied (i : Nat) : Desktop :=
  let t := (s.owned i).foldl (fun t id => t.wmSurfaceTeardown id false) s
  { t with wm := if t.wm = some i then none else t.wm }

/-- The claim on the framebuffer by the first process that asks for it. -/
def sysFbInfo (i : Nat) : Desktop :=
  if s.wm = none then { s with wm := some i } else s

def schedExit (i : Nat) : Option Desktop := do
  let (_, m) ← s.machine.runOn i (modify vmmUserTeardownAll)
  some ({ s with machine := m, zombies := i :: s.zombies }.wmSurfaceOwnerDied i)

def reapTask (i : Nat) : Option Desktop := do
  let m ← s.machine.reap i
  some ({ s with machine := m }.wmSurfaceOwnerDied i)

/-- Frames that were given back are no longer recorded. -/
def settle : Desktop :=
  { s with replaced := s.replaced.filter fun e => s.machine.pmm.used e.2 }

end Desktop

/-- The calls of process `i`, and its end; a killed one is reaped without exit. -/
inductive WmEvent where
  | claim (i : Nat)
  | create (i w h grant : Nat)
  | resize (i id w h grant : Nat)
  | destroy (i id : Nat)
  | exit (i : Nat)
  | reap (i : Nat)

namespace Desktop

def caller : WmEvent → Option Nat
  | .claim i | .create i .. | .resize i .. | .destroy i _ | .exit i => some i
  | .reap _ => none

def perform (s : Desktop) : WmEvent → Option Desktop
  | .claim i => some (s.sysFbInfo i)
  | .create i w h grant => (s.sysWmCreate i w h grant).map (·.2)
  | .resize i id w h grant => (s.sysWmResize i id w h grant).map (·.2)
  | .destroy i id => some (s.sysWmDestroy i id).2
  | .exit i => s.schedExit i
  | .reap i => s.reapTask i

/-- A step of the desktop: only a process that has not exited makes calls. -/
def step (s : Desktop) (e : WmEvent) : Option Desktop :=
  if ∀ i ∈ caller e, s.Live i then (s.perform e).map settle else none

/-- No entry names an unreferenced frame, and no frame of a replaced surface outlives its owner. -/
structure FramesKept (s : Desktop) : Prop where
  mapped : ∀ i n f flags, s.machine.leaf i n = some (.present f flags) → s.machine.pmm.refs f ≠ 0
  returned : ∀ e ∈ s.replaced, (s.machine.proc e.1).isSome

end Desktop

end YartOS.Wm
