/-
The driver of `virtio_blk.c` and `blk.c` beside a device at the other end of
its queue.  Every store of the driver is a step of its own, and the device may
move between any two of them.
-/
import OsAgentLab.Blk
import OsAgentLab.Bytes
import Mathlib.Logic.Relation

namespace OsAgentLab.Virtio

/-- The value of a `uint16_t` expression. -/
def u16 (n : Nat) : Nat := n % 65536

/-- `QUEUE_SIZE`. -/
def queueSize : Nat := 8

/-- `VIRTQ_DESC_F_NEXT` and `VIRTQ_DESC_F_WRITE`. -/
def descNext : Nat := 1
def descWrite : Nat := 2

/-- `VIRTIO_BLK_T_IN` and `VIRTIO_BLK_T_OUT`. -/
def typeIn : Nat := 0
def typeOut : Nat := 1

section Memory

/-- `struct virtq_desc`. -/
structure VirtqDesc where
  addr : Nat
  len : Nat
  flags : Nat
  next : Nat
deriving DecidableEq, Repr

/-- `struct virtio_blk_req`. -/
structure BlkReq where
  type : Nat
  reserved : Nat
  sector : Nat
deriving DecidableEq, Repr

/-- The physical addresses of `g_req`, `g_status` and `g_bounce`. -/
structure Layout where
  req : Nat
  status : Nat
  bounce : Nat

/-- The memory that both sides use: `g_desc`, `g_avail`, `g_used`, `g_req`,
`g_status` and `g_bounce`. -/
structure Shared where
  desc : Nat → VirtqDesc
  availFlags : Nat
  availIdx : Nat
  availRing : Nat → Nat
  usedFlags : Nat
  usedIdx : Nat
  usedRing : Nat → Nat × Nat
  req : BlkReq
  status : UInt8
  bounce : Sector

end Memory

section Init

/-- The registers that `virtio_blk_init` reads; `featuresOk` is the bit that the
device leaves in its status register. -/
structure Mmio where
  magic : Nat
  version : Nat
  deviceId : Nat
  featuresOk : Bool
  queueNumMax : Nat
  capLo : Nat
  capHi : Nat

/-- `struct virtio_blk_dev`. -/
structure VirtioBlkDev where
  base : Nat
  version : Nat
  lastUsed : Nat
  capacitySectors : Nat

/-- `virtio_blk_init`; the addresses that it stores in the queue registers are
those of the shared memory. -/
def virtioBlkInit (regs : Mmio) (base : Nat) (s : Shared) : Option (VirtioBlkDev × Shared) :=
  if regs.magic ≠ 0x74726976 ∨ regs.deviceId ≠ 2 then none
  else if 2 ≤ regs.version ∧ regs.featuresOk = false then none
  else if regs.queueNumMax < queueSize then none
  else if regs.version = 0 then none
  else some
    (⟨base, regs.version, 0, u64 (regs.capHi * 4294967296) ||| regs.capLo⟩,
      { s with availFlags := 0, availIdx := 0, usedFlags := 0, usedIdx := 0 })

end Init

section Device

/-- How far the device has come with an entry of the available ring. -/
inductive DevPhase where
  | idle
  | taken (head : Nat)
  | moved (head : Nat) (status : UInt8)
  | reported (head : Nat)
  | listed
deriving DecidableEq

/-- The device: its sectors, its place in the available ring, and the statuses that
it has reported so far. -/
structure Device where
  disk : Nat → Sector
  lastAvail : Nat
  phase : DevPhase
  log : List UInt8

/-- The chain that starts at the descriptor `head` is a request for one sector. -/
structure IsRequest (lay : Layout) (s : Shared) (head : Nat) : Prop where
  header : (s.desc head).addr = lay.req ∧ (s.desc head).len = 16 ∧
    (s.desc head).flags = descNext
  data : (s.desc (s.desc head).next).addr = lay.bounce ∧ (s.desc (s.desc head).next).len = 512 ∧
    (s.desc (s.desc head).next).flags = descNext + if s.req.type = typeIn then descWrite else 0
  status : (s.desc (s.desc (s.desc head).next).next).addr = lay.status ∧
    (s.desc (s.desc (s.desc head).next).next).len = 1 ∧
    (s.desc (s.desc (s.desc head).next).next).flags = descWrite
  type : s.req.type = typeIn ∨ s.req.type = typeOut

/-- The disk with `data` in the sector `n`. -/
def putDisk (disk : Nat → Sector) (n : Nat) (data : Sector) : Nat → Sector :=
  fun k => if k = n then overlay (disk n) 0 512 data else disk k

/-- What a device may do that keeps to the protocol: it takes the entries in order,
transfers the data, writes the status byte, lists the head in the used ring and
counts up its index.  What it does with a chain that is no request is left open. -/
inductive DevStep (lay : Layout) : Shared → Device → Shared → Device → Prop
  | take {s : Shared} {d : Device} : d.phase = .idle → d.lastAvail ≠ s.availIdx →
      DevStep lay s d s { d with phase := .taken (s.availRing (d.lastAvail % queueSize)) }
  | readSector {s : Shared} {d : Device} {head : Nat} : d.phase = .taken head →
      IsRequest lay s head → s.req.type = typeIn →
      DevStep lay s d { s with bounce := overlay s.bounce 0 512 (d.disk s.req.sector) }
        { d with phase := .moved head 0 }
  | readFails {s : Shared} {d : Device} {head : Nat} {st : UInt8} {data : Sector} :
      d.phase = .taken head → IsRequest lay s head → s.req.type = typeIn → st ≠ 0 →
      DevStep lay s d { s with bounce := overlay s.bounce 0 512 data }
        { d with phase := .moved head st }
  | writeSector {s : Shared} {d : Device} {head : Nat} : d.phase = .taken head →
      IsRequest lay s head → s.req.type = typeOut →
      DevStep lay s d s { d with
        disk := putDisk d.disk s.req.sector s.bounce, phase := .moved head 0 }
  | writeFails {s : Shared} {d : Device} {head : Nat} {st : UInt8} {data : Sector} :
      d.phase = .taken head → IsRequest lay s head → s.req.type = typeOut → st ≠ 0 →
      DevStep lay s d s { d with
        disk := putDisk d.disk s.req.sector data, phase := .moved head st }
  | astray {s s' : Shared} {d d' : Device} {head : Nat} : d.phase = .taken head →
      ¬ IsRequest lay s head → DevStep lay s d s' d'
  | report {s : Shared} {d : Device} {head : Nat} {st : UInt8} : d.phase = .moved head st →
      DevStep lay s d { s with status := st }
        { d with phase := .reported head, log := d.log ++ [st] }
  | list {s : Shared} {d : Device} {head len : Nat} : d.phase = .reported head →
      DevStep lay s d
        { s with usedRing := Function.update s.usedRing (s.usedIdx % queueSize) (head, len) }
        { d with phase := .listed }
  | publish {s : Shared} {d : Device} : d.phase = .listed →
      DevStep lay s d { s with usedIdx := u16 (s.usedIdx + 1) }
        { d with phase := .idle, lastAvail := u16 (d.lastAvail + 1) }

end Device

section Driver

/-- A call of `blk_read` or `blk_write` for `count` sectors and the buffer at `addr`. -/
structure Call where
  write : Bool
  lba : Nat
  addr : Nat
  count : Nat
deriving DecidableEq, Repr

/-- The stores of `virtio_blk_rw_one` before it makes the request available. -/
inductive Store where
  | reqType (type : Nat)
  | reqReserved (value : Nat)
  | reqSector (sector : Nat)
  | status (value : UInt8)
  | addr (i value : Nat)
  | len (i value : Nat)
  | flags (i value : Nat)
  | next (i value : Nat)
deriving DecidableEq

/-- The memory after a store. -/
def Store.run (s : Shared) : Store → Shared
  | reqType type => { s with req := { s.req with type := type } }
  | reqReserved value => { s with req := { s.req with reserved := value } }
  | reqSector sector => { s with req := { s.req with sector := sector } }
  | status value => { s with status := value }
  | addr i value => { s with desc := Function.update s.desc i { s.desc i with addr := value } }
  | len i value => { s with desc := Function.update s.desc i { s.desc i with len := value } }
  | flags i value => { s with desc := Function.update s.desc i { s.desc i with flags := value } }
  | next i value => { s with desc := Function.update s.desc i { s.desc i with next := value } }

/-- The stores into `g_req`, `g_status` and the three descriptors, in their order. -/
def rwOneStores (lay : Layout) (type sector : Nat) : List Store :=
  [.reqType type, .reqReserved 0, .reqSector sector, .status 0xff,
    .addr 0 lay.req, .len 0 16, .flags 0 descNext, .next 0 1,
    .addr 1 lay.bounce, .len 1 512,
    .flags 1 (if type = typeIn then descWrite ||| descNext else descNext), .next 1 2,
    .addr 2 lay.status, .len 2 1, .flags 2 descWrite, .next 2 0]

/-- The place of the driver between two steps: outside of any call, at the test of
the loop of `blk_read` or `blk_write`, or in `virtio_blk_rw_one`. -/
inductive Pc where
  | idle
  | head
  | enter
  | store (rest : List Store)
  | ring (idx : Nat)
  | publish (idx : Nat)
  | notify
  | wait
  | last
  | restore
  | leave
deriving DecidableEq

/-- The driver: `i` is the loop counter of the call, `saved` the bit of `sstatus`
that `virtio_blk_rw_one` has read. -/
structure Driver where
  pc : Pc
  call : Call
  i : Nat
  lastUsed : Nat
  saved : Bool

/-- Both sides, `SSTATUS_SIE`, the buffers of the callers, the calls to come and
those that have returned. -/
structure System where
  shared : Shared
  device : Device
  driver : Driver
  sie : Bool
  mem : Nat → UInt8
  todo : List Call
  done : List (Call × Int)

namespace System

variable (st : System)

def setPc (pc : Pc) : System := { st with driver := { st.driver with pc := pc } }

/-- The call returns `ret`. -/
def return_ (ret : Int) : System :=
  { st with
    driver := { st.driver with pc := .idle }
    done := st.done ++ [(st.driver.call, ret)] }

/-- The address of the part of the buffer that the loop is at. -/
def bufAddr : Nat := st.driver.call.addr + u32 (st.driver.i * 512)

end System

/-- The `type` argument of `virtio_blk_rw_one`. -/
def Call.type (c : Call) : Nat := if c.write then typeOut else typeIn

/-- One step of the driver; there is none when no call is left. -/
def driverStep (lay : Layout) (st : System) : Option System :=
  let d := st.driver
  let s := st.shared
  match d.pc with
  | .idle =>
      match st.todo with
      | [] => none
      | c :: rest => some { st with
          driver := { d with pc := .head, call := c, i := 0 }
          todo := rest }
  | .head =>
      if d.i < d.call.count then
        if d.call.write then some ({ st with shared := { s with
          bounce := overlay s.bounce 0 512 fun b => st.mem (st.bufAddr + b) } }.setPc .enter)
        else some (st.setPc .enter)
      else some (st.return_ 0)
  | .enter => some { st with
      sie := false
      driver := { d with
        pc := .store (rwOneStores lay d.call.type (u64 (d.call.lba + d.i)))
        saved := st.sie } }
  | .store (x :: rest) => some ({ st with shared := x.run s }.setPc (.store rest))
  | .store [] => some (st.setPc (.ring s.availIdx))
  | .ring idx => some ({ st with shared := { s with
      availRing := Function.update s.availRing (idx % queueSize) 0 } }.setPc (.publish idx))
  | .publish idx =>
      some ({ st with shared := { s with availIdx := u16 (idx + 1) } }.setPc .notify)
  | .notify => some (st.setPc .wait)
  | .wait => if s.usedIdx = d.lastUsed then some st else some (st.setPc .last)
  | .last => some { st with driver := { d with pc := .restore, lastUsed := s.usedIdx } }
  | .restore => some ({ st with sie := if d.saved then true else st.sie }.setPc .leave)
  | .leave =>
      if s.status = 0 then some { st with
        mem := if d.call.write then st.mem else overlay st.mem st.bufAddr 512 s.bounce
        driver := { d with pc := .head, i := d.i + 1 } }
      else some (st.return_ (-1))

end Driver

/-- A step of either side. -/
inductive Step (lay : Layout) : System → System → Prop
  | driver {st st' : System} : driverStep lay st = some st' → Step lay st st'
  | device {st : System} {s : Shared} {d : Device} : DevStep lay st.shared st.device s d →
      Step lay st { st with shared := s, device := d }

/-- Any number of steps, in any order of the two sides. -/
def Reaches (lay : Layout) : System → System → Prop := Relation.ReflTransGen (Step lay)

/-- The system behind `virtio_blk_init`, with the calls `todo` before it. -/
def boot (dev : VirtioBlkDev) (s : Shared) (disk : Nat → Sector) (sie : Bool) (mem : Nat → UInt8)
    (todo : List Call) : System where
  shared := s
  device := ⟨disk, 0, .idle, []⟩
  driver := ⟨.idle, ⟨false, 0, 0, 0⟩, 0, dev.lastUsed, false⟩
  sie := sie
  mem := mem
  todo := todo
  done := []

end OsAgentLab.Virtio
