import YartOS.Lib.Rows

/-! The kernel heap of `kernel/mm/heap.c`. Memory is accessed by block headers: `mem a` is the
header at address `a`, and `(mem a).magic` also the 32-bit word at `a` that a canary uses.
Additions of 64-bit words wrap; `0` is `NULL`. -/
namespace YartOS.Heap

open Function

def wordSize : Nat := 2 ^ 64

def wadd (a b : Nat) : Nat := (a + b) % wordSize

def wsub (a b : Nat) : Nat := (a + (wordSize - b)) % wordSize

def pageSize : Nat := 4096

def pageAlignUp (x : Nat) : Nat := wadd x (pageSize - 1) / pageSize * pageSize

def heapMagic : Nat := 0x59415254
def heapCanary : Nat := 0xC0FFEE00
def canaryBytes : Nat := 16

def sizeofBlock : Nat := 48

/-- `classes[]`, the payload capacities of the segregated free lists. -/
def classes : List Nat :=
  [16, 32, 48, 64, 96, 128, 192, 256, 384, 512, 768, 1024, 1536, 2048, 3072, 4096, 6144, 8192, 12288, 16384]

def numClasses : Nat := 20
def hugeClass : Nat := 20
def numBuckets : Nat := 21

/-- `block_t`. While a block is free, `req` holds the next block of its bucket. -/
structure Block where
  magic : Nat := 0
  size : Nat := 0
  req : Nat := 0
  free : Bool := false
  next : Nat := 0
  prev : Nat := 0
deriving DecidableEq

structure Stats where
  totalAllocBytes : Nat := 0
  totalFreeBytes : Nat := 0
  curBytes : Nat := 0
  peakBytes : Nat := 0
  allocCount : Nat := 0
  freeCount : Nat := 0
  growCount : Nat := 0
  perClassActive : Nat → Nat := fun _ => 0

/-- `runs` records the runs that `grow` obtained; the code has no such table. -/
structure State where
  mem : Nat → Block
  head : Nat := 0
  buckets : Nat → Nat := fun _ => 0
  pagesTotal : Nat := 0
  stats : Stats := {}
  badFrees : Nat := 0
  badCanaries : Nat := 0
  hhdm : Nat := 0
  runs : List Rows.Range := []

/-- `phys_to_virt`: the direct map adds a fixed offset. -/
def physToVirt (hhdm p : Nat) : Nat := wadd p hhdm

/-- So many iterations decide whether a pointer-chasing loop returns. -/
def loopFuel : Nat := wordSize

variable (h : State)

def State.modify (b : Nat) (f : Block → Block) : State :=
  { h with mem := update h.mem b (f (h.mem b)) }

def State.setPrev (b q : Nat) : State :=
  if b = 0 then h else h.modify b fun x => { x with prev := q }

def classFrom (n : Nat) : List Nat → Nat → Nat
  | [], _ => hugeClass
  | c :: rest, i => if n ≤ c then i else classFrom n rest (i + 1)

def classFor (n : Nat) : Nat := classFrom n classes 0

def payload (b : Nat) : Nat := wadd b sizeofBlock

def canaryOf (b : Nat) : Nat := wadd (payload b) (h.mem b).req

def bfreeNext (b : Nat) : Nat := (h.mem b).req

def bfreeSetNext (b n : Nat) : State := h.modify b fun x => { x with req := n }

def setBucket (ci b : Nat) : State :=
  { h with buckets := update h.buckets ci b }

def bucketPush (b ci : Nat) : State := setBucket (bfreeSetNext h b (h.buckets ci)) ci b

/-- Returns `0` on an empty bucket. -/
def bucketPop (ci : Nat) : Nat × State :=
  let b := h.buckets ci
  if b = 0 then (0, h) else (b, setBucket h ci (bfreeNext h b))

/-- The block of the chain from `t` whose link is `b`; `some 0` at its end, `none` if it never
ends. -/
def linkTo (h : State) (b : Nat) : Nat → Nat → Option Nat
  | 0, _ => none
  | fuel + 1, t =>
    if t = 0 then some 0
    else if bfreeNext h t = b then some t
    else linkTo h b fuel (bfreeNext h t)

def bucketRemoveFrom (h : State) (b : Nat) : List Nat → Option State
  | [] => some h
  | i :: rest =>
    if h.buckets i = b then some (setBucket h i (bfreeNext h b))
    else
      match linkTo h b loopFuel (h.buckets i) with
      | none => none
      | some t =>
        if t = 0 then bucketRemoveFrom h b rest
        else some (bfreeSetNext h t (bfreeNext h b))

def bucketRemove (b : Nat) : Option State := bucketRemoveFrom h b (List.range numBuckets)

def lastFrom (h : State) : Nat → Nat → Option Nat
  | 0, _ => none
  | fuel + 1, t => if (h.mem t).next = 0 then some t else lastFrom h fuel (h.mem t).next

def growPages (needPayload : Nat) : Nat :=
  let pages := pageAlignUp (wadd sizeofBlock needPayload) / pageSize
  if pages < 8 then 8 else pages

/-- `p` is the run that `pmm_alloc_pages` hands out; where it cannot, it panics. -/
def grow (needPayload p : Nat) : Option (Nat × State) :=
  let pages := growPages needPayload
  let b := physToVirt h.hhdm p
  let h := h.modify b fun _ =>
    { magic := heapMagic, size := wsub (wsub (pages * pageSize) sizeofBlock) canaryBytes,
      req := 0, free := true, next := 0, prev := 0 }
  let linked : Option State :=
    if h.head = 0 then some { h with head := b }
    else
      (lastFrom h loopFuel h.head).map fun t =>
        (h.modify t fun x => { x with next := b }).modify b fun x => { x with prev := t }
  linked.map fun h =>
    (b, { h with
      runs := h.runs ++ [⟨b, pages * pageSize⟩]
      pagesTotal := wadd h.pagesTotal pages
      stats := { h.stats with growCount := wadd h.stats.growCount 1 } })

/-- Returns the tail block, or `0` when the block is too small to be cut. -/
def split (b want : Nat) : Nat × State :=
  if (h.mem b).size < wadd (wadd (wadd want sizeofBlock) canaryBytes) 32 then (0, h)
  else
    let n := wadd (wadd (wadd b sizeofBlock) want) canaryBytes
    let next := (h.mem b).next
    let h := h.modify n fun _ =>
      { magic := heapMagic, req := 0, free := true, next := next, prev := b,
        size := wsub (wsub (wsub (h.mem b).size want) sizeofBlock) canaryBytes }
    (n, (h.setPrev next n).modify b fun x => { x with next := n, size := want })

/-- One turn per bucket: the head is taken if large enough, or moved to its bucket. -/
def popClasses (n : Nat) : List Nat → State → Nat × State
  | [], h => (0, h)
  | i :: rest, h =>
    if h.buckets i = 0 then popClasses n rest h
    else
      let (b, h) := bucketPop h i
      if n ≤ (h.mem b).size then (b, h)
      else popClasses n rest (bucketPush h b (classFor (h.mem b).size))

/-- First fit in the huge bucket; `pr` is the block before `b`, or `0`. -/
def scanHuge (n : Nat) (h : State) : Nat → Nat → Nat → Option (Nat × State)
  | 0, _, _ => none
  | fuel + 1, pr, b =>
    if b = 0 then some (0, h)
    else
      let nx := bfreeNext h b
      if n ≤ (h.mem b).size then
        some (b, if pr = 0 then setBucket h hugeClass nx else bfreeSetNext h pr nx)
      else scanHuge n h fuel b nx

def allocFromClass (n : Nat) : Option (Nat × State) :=
  let ci := classFor n
  if ci < numClasses then
    let (b, h) := popClasses n ((List.range numClasses).drop ci) h
    if b = 0 then scanHuge n h loopFuel 0 (h.buckets hugeClass) else some (b, h)
  else scanHuge n h loopFuel 0 (h.buckets hugeClass)

def heapInit (mem : Nat → Block) (hhdm p : Nat) : Option State :=
  (grow { mem := mem, hhdm := hhdm } (1024 * 1024) p).map fun (b, h) =>
    bucketPush h b (classFor (h.mem b).size)

variable (h : State)

def roundRequest (n : Nat) : Nat := wadd n 15 / 16 * 16

def plantCanary (b : Nat) : State := h.modify (canaryOf h b) fun x => { x with magic := heapCanary }

def Stats.alloc (s : Stats) (n ci : Nat) : Stats :=
  let cur := wadd s.curBytes n
  { s with
    totalAllocBytes := wadd s.totalAllocBytes n
    allocCount := wadd s.allocCount 1
    curBytes := cur
    peakBytes := if s.peakBytes < cur then cur else s.peakBytes
    perClassActive := update s.perClassActive ci (wadd (s.perClassActive ci) 1) }

def trim (b n : Nat) : State :=
  let (rem, h) := split h b n
  if rem = 0 then h else bucketPush h rem (classFor (h.mem rem).size)

def handOut (b n : Nat) : State :=
  let h := plantCanary (h.modify b fun x => { x with free := false, req := n }) b
  { h with stats := h.stats.alloc n (classFor n) }

/-- `p` is the run handed out if the heap grows. The result is the pointer, `0` for `NULL`. -/
def kmalloc (n p : Nat) : Option (Nat × State) :=
  if n = 0 then some (0, h)
  else
    let n := roundRequest n
    ((allocFromClass h n).bind fun (b, h) => if b = 0 then grow h n p else some (b, h)).map
      fun (b, h) => (payload b, handOut (trim h b n) b n)

def Stats.free (s : Stats) (req : Nat) : Stats :=
  let ci := classFor req
  { s with
    perClassActive :=
      if ci < numBuckets ∧ s.perClassActive ci ≠ 0 then
        update s.perClassActive ci (s.perClassActive ci - 1)
      else s.perClassActive
    totalFreeBytes := wadd s.totalFreeBytes req
    freeCount := wadd s.freeCount 1
    curBytes := s.curBytes - if req < s.curBytes then req else s.curBytes }

/-- `x` takes over its successor `y`, as both branches of `kfree` end. -/
def absorb (x y : Nat) : State :=
  let grown := wadd (h.mem x).size (wadd (wadd sizeofBlock canaryBytes) (h.mem y).size)
  let h := h.modify x fun blk => { blk with size := grown }
  let after := (h.mem y).next
  (h.modify x fun blk => { blk with next := after }).setPrev after x

/-- Coalesce with the free list neighbour after `b`. -/
def mergeNext (b : Nat) : Option State :=
  let nx := (h.mem b).next
  if nx ≠ 0 ∧ (h.mem nx).free = true then (bucketRemove h nx).map fun h => absorb h b nx
  else some h

/-- Coalesce with the free neighbour before `b`; returns the covering block. -/
def mergePrev (b : Nat) : Option (Nat × State) :=
  let pv := (h.mem b).prev
  if pv ≠ 0 ∧ (h.mem pv).free = true then
    (bucketRemove h pv).map fun h => (pv, absorb h pv b)
  else some (b, h)

/-- Coalesce `b` with its free neighbours and put the result into its bucket. -/
def release (b : Nat) : Option State :=
  ((mergeNext h b).bind fun h => mergePrev h b).map fun (b, h) =>
    let h := h.modify b fun x => { x with free := true, req := 0 }
    bucketPush h b (classFor (h.mem b).size)

def kfree (p : Nat) : Option State :=
  if p = 0 then some h
  else
    let b := wsub p sizeofBlock
    if (h.mem b).magic ≠ heapMagic then some { h with badFrees := wadd h.badFrees 1 }
    else if (h.mem b).free = true then some { h with badFrees := wadd h.badFrees 1 }
    else
      -- a smashed canary is only counted: the block is freed all the same
      release { h with
        badCanaries := if (h.mem (canaryOf h b)).magic = heapCanary then h.badCanaries
          else wadd h.badCanaries 1
        stats := h.stats.free (h.mem b).req } b

end YartOS.Heap
