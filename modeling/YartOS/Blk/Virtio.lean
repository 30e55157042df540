import YartOS.Lib.Bytes

/-! The virtio block driver and its device, which share one header, one bounce buffer, one chain of
descriptors and one status byte. Every ring entry names that chain, so only the indices of the
rings are kept. -/
namespace YartOS.Blk

open Bytes

def blkSectorSize : Nat := 512

def pageSize : Nat := 4096

inductive ReqType where
  | tIn
  | tOut
  | tFlush
deriving DecidableEq, Repr

structure Header where
  type : ReqType
  sector : Nat
deriving DecidableEq, Repr

/-- The second descriptor: the bounce buffer, writable or not, or the status byte. The others do
not change. -/
inductive Desc where
  | data (bytes : Nat) (deviceWrites : Bool)
  | status
deriving DecidableEq, Repr

inductive Phase where
  | idle
  /-- The data has been moved, and this status is still to be written. -/
  | transferred (status : UInt8)
  /-- The status is written; the used index is still to be advanced. -/
  | answered
deriving DecidableEq, Repr

/-- A call of the driver. `dst` and `src` are the memory at the caller's pointer. -/
inductive Call where
  | read (sector : UInt64) (count : UInt32) (dst : Buffer)
  | write (sector : UInt64) (count : UInt32) (src : Buffer)
  | flush

def Call.size : Call → Nat
  | .read _ count _ => count.toNat * blkSectorSize
  | .write _ count _ => count.toNat * blkSectorSize
  | .flush => 0

def Call.sector : Call → Nat
  | .read sector _ _ => sector.toNat
  | .write sector _ _ => sector.toNat
  | .flush => 0

def Call.type : Call → ReqType
  | .read _ _ _ => .tIn
  | .write _ _ _ => .tOut
  | .flush => .tFlush

/-- How far the driver is with a request, by what it has done last. -/
inductive Pc where
  | start
  | copied
  | headed
  | reset
  | chained
  | posted
  | waiting
  /-- It has taken over the used index; `fresh` if that had changed. -/
  | harvested (fresh : Bool)
  | checked (status : UInt8)
deriving DecidableEq, Repr

/-- A call in progress; `before` is what the disk held, which the driver does not keep. -/
structure Running where
  call : Call
  before : Buffer
  dst : Buffer
  off : Nat

structure Finished where
  call : Call
  before : Buffer
  after : Buffer
  dst : Buffer
  /-- It returned 0. -/
  ok : Bool

structure Machine where
  present : Bool
  capacity : UInt64
  disk : Buffer
  header : Header
  data : Buffer
  desc : Desc
  status : UInt8
  avail : UInt16
  used : UInt16
  /-- How many requests the device has taken. -/
  taken : UInt16
  phase : Phase
  lastUsed : UInt16
  ioDone : Bool
  running : Option (Running × Pc)
  finished : List Finished

namespace Running

variable (r : Running)

/-- `count * BLK_SECTOR_SIZE` in 32 bits. -/
def bytes : Nat := r.call.size % 2 ^ 32

def chunk : Nat := if pageSize < r.bytes - r.off then pageSize else r.bytes - r.off

def header : Header := ⟨r.call.type, (r.call.sector + r.off / blkSectorSize) % 2 ^ 64⟩

def desc : Desc :=
  match r.call with
  | .read _ _ _ => .data r.chunk true
  | .write _ _ _ => .data r.chunk false
  | .flush => .status

/-- What `vq_request` asks of its arguments; `blk_flush` asks nothing. -/
def accepted : Bool :=
  match r.call with
  | .flush => true
  | _ => r.chunk ≠ 0 ∧ r.chunk % blkSectorSize = 0 ∧ r.chunk ≤ pageSize

end Running

namespace Machine

variable (m : Machine)

/-! The driver. -/

def finish (r : Running) (ok : Bool) : Machine :=
  { m with running := none, finished := m.finished ++ [⟨r.call, r.before, m.disk, r.dst, ok⟩] }

def goOn (r : Running) (pc : Pc) : Machine := { m with running := some (r, pc) }

/-- The start of a call, which is done without sectors, or as a flush without a disk. -/
def begin (c : Call) : Machine :=
  let r : Running := ⟨c, m.disk, match c with | .read _ _ dst => dst | _ => zeros, 0⟩
  match c with
  | .flush => if m.present then m.goOn r .start else m.finish r true
  | _ => if r.off < r.bytes then m.goOn r .start else m.finish r true

/-- The loop of `blk_read_sectors` and `blk_write_sectors` after a success. -/
def next (r : Running) : Machine :=
  let off := (r.off + pageSize) % 2 ^ 32
  if off < r.bytes then m.goOn { r with off } .start else m.finish r true

def conclude (r : Running) (status : UInt8) : Machine :=
  if status ≠ 0 then m.finish r false
  else
    match r.call with
    | .read _ _ _ => m.next { r with dst := copyTo r.dst r.off m.data r.chunk }
    | _ => m.next r

/-- The next step of `vq_request` and `blk_flush`. -/
def drive (r : Running) (pc : Pc) : Machine :=
  match pc with
  | .start =>
    if ¬ m.present ∨ ¬ r.accepted then m.finish r false
    else
      match r.call with
      | .write _ _ src =>
        { m with data := copyTo m.data 0 (fun i => src (r.off + i)) r.chunk }.goOn r .copied
      | _ => m.goOn r .copied
  | .copied => { m with header := r.header }.goOn r .headed
  | .headed => { m with status := 0xFF }.goOn r .reset
  | .reset => { m with desc := r.desc }.goOn r .chained
  | .chained => { m with avail := m.avail + 1 }.goOn r .posted
  | .posted => { m with ioDone := false }.goOn r .waiting
  | .waiting =>
    if m.used = m.lastUsed ∧ ¬ m.ioDone then m
    else { m with lastUsed := m.used }.goOn r (.harvested (m.lastUsed ≠ m.used))
  | .harvested fresh => m.goOn r (.checked (if fresh then m.status else 0xFF))
  | .checked status => m.conclude r status

/-! The device. -/

/-- The device moves the data of the chain. Beyond the disk, or with a buffer for the other
direction, it answers an error. -/
def transfer : Machine :=
  let m := { m with taken := m.taken + 1 }
  match m.header.type, m.desc with
  | .tIn, .data bytes true =>
    if m.header.sector + bytes / blkSectorSize ≤ m.capacity.toNat then
      { m with
        data := copyTo m.data 0 (fun i => m.disk (m.header.sector * blkSectorSize + i)) bytes
        phase := .transferred 0 }
    else { m with phase := .transferred 1 }
  | .tOut, .data bytes false =>
    if m.header.sector + bytes / blkSectorSize ≤ m.capacity.toNat then
      { m with
        disk := copyTo m.disk (m.header.sector * blkSectorSize) m.data bytes
        phase := .transferred 0 }
    else { m with phase := .transferred 1 }
  | .tFlush, _ => { m with phase := .transferred 0 }
  | _, _ => { m with phase := .transferred 1 }

end Machine

inductive Event where
  | call (c : Call)
  /-- The driver takes its next step. -/
  | driver
  /-- It has waited long enough. -/
  | timeout
  /-- The device takes the next request and moves its data. -/
  | transfer
  /-- It writes the status byte. -/
  | status
  /-- It advances the used index. -/
  | advance
  /-- `blk_irq_handler` runs, whatever the reason. -/
  | interrupt

def Machine.step (m : Machine) : Event → Option Machine
  | .call c => if m.running.isNone then some (m.begin c) else none
  | .driver => m.running.map fun r => m.drive r.1 r.2
  | .timeout => (m.running.filter (·.2 = .waiting)).map (m.finish ·.1 false)
  | .transfer => if m.phase = .idle ∧ m.taken ≠ m.avail then some m.transfer else none
  | .status =>
    match m.phase with
    | .transferred status => some { m with status, phase := .answered }
    | _ => none
  | .advance => if m.phase = .answered then some { m with used := m.used + 1, phase := .idle } else none
  | .interrupt => some { m with ioDone := true }

end YartOS.Blk
