/-
The virtio-blk driver is a faithful disk: seen from its callers, driver and
device together are an array of sectors that may refuse a request.
-/
import OsAgentLab.Virtio.Blk

namespace OsAgentLab.Virtio

section Array

/-- An array of sectors, and the memory of its callers. -/
structure DiskMem where
  disk : Nat → Sector
  mem : Nat → UInt8

namespace Call

/-- The sector that the loop is at with the counter `i`. -/
def sector (c : Call) (i : Nat) : Nat := u64 (c.lba + i)

/-- One sector is copied between the array and the buffer of the caller. -/
def sectorOn (c : Call) (i : Nat) (m : DiskMem) : DiskMem :=
  if c.write then
    { m with disk := putDisk m.disk (c.sector i) fun b => m.mem (c.addr + i * 512 + b) }
  else { m with mem := overlay m.mem (c.addr + i * 512) 512 (m.disk (c.sector i)) }

/-- The first `n` sectors of the call are copied. -/
def sectors (c : Call) : Nat → DiskMem → DiskMem
  | 0, m => m
  | n + 1, m => c.sectorOn n (c.sectors n m)

/-- A sector whose request failed: a write may have left anything in it. -/
structure Spoiled (c : Call) (i : Nat) (m m' : DiskMem) : Prop where
  mem : m'.mem = m.mem
  disk : ∀ n, c.write = false ∨ n ≠ c.sector i → m'.disk n = m.disk n

/-- What a call does to the array and returns when the device reports the statuses
in the list. -/
inductive Answer (c : Call) : List UInt8 → Int → DiskMem → DiskMem → Prop
  | ok (m : DiskMem) : Answer c (List.replicate c.count 0) 0 m (c.sectors c.count m)
  | fail {k : Nat} {st : UInt8} {m m' : DiskMem} : k < c.count → st ≠ 0 →
      c.Spoiled k (c.sectors k m) m' → Answer c (List.replicate k 0 ++ [st]) (-1) m m'

end Call

/-- A sequence of calls on the array, with what they returned and all statuses. -/
inductive ArrayRun : DiskMem → List (Call × Int) → List UInt8 → DiskMem → Prop
  | nil (m : DiskMem) : ArrayRun m [] [] m
  | call {m m' m'' : DiskMem} {done : List (Call × Int)} {log sts : List UInt8} {c : Call}
      {ret : Int} : ArrayRun m done log m' → c.Answer sts ret m' m'' →
      ArrayRun m (done ++ [(c, ret)]) (log ++ sts) m''

/-- A read that is answered delivers the sectors and changes nothing else. -/
theorem Call.sectors_read {c : Call} (h : c.write = false) (n : Nat) (m : DiskMem) :
    (c.sectors n m).disk = m.disk ∧
      ∀ a, (c.sectors n m).mem a = if c.addr ≤ a ∧ a < c.addr + n * 512 then
        m.disk (c.sector ((a - c.addr) / 512)) ((a - c.addr) % 512) else m.mem a := by
  induction n with
  | zero =>
      refine ⟨rfl, fun a => ?_⟩
      rw [if_neg (by omega)]
      rfl
  | succ n ih =>
      obtain ⟨hdisk, hmem⟩ := ih
      have hend : c.addr + (n + 1) * 512 = c.addr + n * 512 + 512 := by
        rw [Nat.succ_mul, Nat.add_assoc]
      rw [sectors, sectorOn, if_neg (by rw [h]; decide)]
      refine ⟨hdisk, fun a => ?_⟩
      simp only [hend]
      by_cases hlast : c.addr + n * 512 ≤ a ∧ a < c.addr + n * 512 + 512
      · have hdiv : (a - c.addr) / 512 = n := by omega
        have hmod : (a - c.addr) % 512 = a - (c.addr + n * 512) := by omega
        have hin : c.addr ≤ a ∧ a < c.addr + n * 512 + 512 := ⟨by omega, hlast.2⟩
        rw [overlay_of_mem hlast, if_pos hin, hdisk, hdiv, hmod]
      · rw [overlay_of_not_mem hlast, hmem]
        by_cases hin : c.addr ≤ a ∧ a < c.addr + n * 512
        · rw [if_pos hin, if_pos ⟨hin.1, Nat.lt_add_right 512 hin.2⟩]
        · rw [if_neg hin, if_neg]
          rintro ⟨hlow, hhigh⟩
          exact (Nat.lt_or_ge a (c.addr + n * 512)).elim (fun hlt => hin ⟨hlow, hlt⟩)
            fun hge => hlast ⟨hge, hhigh⟩

end Array

section Invariant

/-- All descriptors and the request header hold the values of the call. -/
structure Prepared (lay : Layout) (c : Call) (i : Nat) (s : Shared) : Prop where
  desc₀ : s.desc 0 = ⟨lay.req, 16, descNext, 1⟩
  desc₁ : s.desc 1 =
    ⟨lay.bounce, 512, descNext + if c.type = typeIn then descWrite else 0, 2⟩
  desc₂ : s.desc 2 = ⟨lay.status, 1, descWrite, 0⟩
  req : s.req = ⟨c.type, 0, c.sector i⟩

theorem Call.type_read {c : Call} (h : c.write = false) : c.type = typeIn := by
  unfold Call.type
  rw [h]
  exact if_neg (by decide)

theorem Call.type_write {c : Call} (h : c.write = true) : c.type = typeOut := by
  unfold Call.type
  rw [h]
  exact if_pos rfl

theorem Call.type_cases (c : Call) :
    (c.write = false ∧ c.type = typeIn) ∨ (c.write = true ∧ c.type = typeOut) := by
  cases h : c.write with
  | false => exact Or.inl ⟨rfl, Call.type_read h⟩
  | true => exact Or.inr ⟨rfl, Call.type_write h⟩

theorem Prepared.isRequest {lay : Layout} {c : Call} {i : Nat} {s : Shared}
    (h : Prepared lay c i s) : IsRequest lay s 0 where
  header := by
    rw [h.desc₀]
    exact ⟨rfl, rfl, rfl⟩
  data := by
    rw [h.desc₀, h.desc₁, h.req]
    exact ⟨rfl, rfl, rfl⟩
  status := by
    rw [h.desc₀, h.desc₁, h.desc₂]
    exact ⟨rfl, rfl, rfl⟩
  type := by
    rw [h.req]
    exact c.type_cases.imp And.right And.right

/-- The stores of `virtio_blk_rw_one` prepare the request, whatever was there. -/
theorem rwOneStores_prepare (lay : Layout) (c : Call) (i : Nat) (s : Shared) :
    Prepared lay c i ((rwOneStores lay c.type (c.sector i)).foldl Store.run s) where
  desc₀ := by
    simp [rwOneStores, Store.run, Function.update]
  desc₁ := by
    rcases c.type_cases with ⟨_, h⟩ | ⟨_, h⟩
    · simp [rwOneStores, Store.run, Function.update, h, typeIn, descWrite, descNext]
    · simp [rwOneStores, Store.run, Function.update, h, typeIn, typeOut, descNext]
  desc₂ := by
    simp [rwOneStores, Store.run, Function.update]
  req := by
    simp [rwOneStores, Store.run]

variable {lay : Layout} {m₀ : DiskMem} {st st' : System}

/-- The array as it is now. -/
def System.now (st : System) : DiskMem := ⟨st.device.disk, st.mem⟩

/-- Nothing is in flight: every entry was taken, answered and seen. -/
structure Quiet (st : System) : Prop where
  phase : st.device.phase = .idle
  taken : st.device.lastAvail = st.shared.availIdx
  answered : st.shared.usedIdx = st.shared.availIdx
  seen : st.shared.usedIdx = st.driver.lastUsed
  lt : st.shared.availIdx < 65536

/-- The driver waits for the one entry that the device owns. -/
structure Awaiting (st : System) : Prop where
  avail : st.shared.availIdx = u16 (st.device.lastAvail + 1)
  answered : st.shared.usedIdx = st.device.lastAvail
  seen : st.shared.usedIdx = st.driver.lastUsed
  lt : st.device.lastAvail < 65536
  ring : st.shared.availRing (st.device.lastAvail % queueSize) = 0

/-- The entry was answered, and the driver has not yet seen it. -/
structure Answered (st : System) : Prop where
  phase : st.device.phase = .idle
  taken : st.device.lastAvail = st.shared.availIdx
  answered : st.shared.usedIdx = st.shared.availIdx
  unseen : st.shared.usedIdx = u16 (st.driver.lastUsed + 1)
  lt : st.driver.lastUsed < 65536

/-- The finished calls and the first `i` sectors of the current one have made the
array what `m` is, and the device has reported `log`. -/
def Working (m₀ : DiskMem) (st : System) (log : List UInt8) (m : DiskMem) : Prop :=
  ∃ m₁ log₁, ArrayRun m₀ st.done log₁ m₁ ∧
    log = log₁ ++ List.replicate st.driver.i 0 ∧ m = st.driver.call.sectors st.driver.i m₁

/-- A write has its data in `g_bounce`. -/
def Loaded (st : System) : Prop :=
  st.driver.call.write = true →
    ∀ b, b < 512 → st.shared.bounce b = st.mem (st.driver.call.addr + st.driver.i * 512 + b)

/-- The device has moved the data of the current sector, with the status `s`. -/
structure Moved (m₀ : DiskMem) (st : System) (log : List UInt8) (s : UInt8) (m : DiskMem) :
    Prop where
  working : Working m₀ st log m
  mem : st.mem = m.mem
  disk : s = 0 → st.driver.call.write = true →
    st.device.disk = (st.driver.call.sectorOn st.driver.i m).disk
  same : st.driver.call.write = false → st.device.disk = m.disk
  bounce : s = 0 → st.driver.call.write = false →
    ∀ b, b < 512 → st.shared.bounce b = m.disk (st.driver.call.sector st.driver.i) b
  other : ∀ n, n ≠ st.driver.call.sector st.driver.i → st.device.disk n = m.disk n

/-- The device has reported how the current sector ended. -/
def Settled (m₀ : DiskMem) (st : System) : Prop :=
  ∃ log m, st.device.log = log ++ [st.shared.status] ∧ Moved m₀ st log st.shared.status m

/-- How far the device has come with the request that the driver waits for. -/
def Serving (m₀ : DiskMem) (st : System) : DevPhase → Prop
  | .idle => Working m₀ st st.device.log st.now ∧ Loaded st
  | .taken head => head = 0 ∧ Working m₀ st st.device.log st.now ∧ Loaded st
  | .moved head s => head = 0 ∧ ∃ m, Moved m₀ st st.device.log s m
  | .reported head => head = 0 ∧ Settled m₀ st
  | .listed => Settled m₀ st

/-- The request of the current sector is with the device, or answered. -/
def Pending (lay : Layout) (m₀ : DiskMem) (st : System) : Prop :=
  (Awaiting st ∧ Prepared lay st.driver.call st.driver.i st.shared ∧
      Serving m₀ st st.device.phase) ∨
    (Answered st ∧ Settled m₀ st)

/-- The invariant, by the place of the driver. -/
inductive Inv (lay : Layout) (m₀ : DiskMem) (st : System) : Prop
  | idle : st.driver.pc = .idle → Quiet st → ArrayRun m₀ st.done st.device.log st.now →
      Inv lay m₀ st
  | head : st.driver.pc = .head → Quiet st → st.driver.i ≤ st.driver.call.count →
      Working m₀ st st.device.log st.now → Inv lay m₀ st
  | enter : st.driver.pc = .enter → Quiet st → st.driver.i < st.driver.call.count →
      Working m₀ st st.device.log st.now → Loaded st → Inv lay m₀ st
  | store {rest : List Store} : st.driver.pc = .store rest → Quiet st →
      st.driver.i < st.driver.call.count → Working m₀ st st.device.log st.now → Loaded st →
      Prepared lay st.driver.call st.driver.i (rest.foldl Store.run st.shared) → Inv lay m₀ st
  | ring {idx : Nat} : st.driver.pc = .ring idx → Quiet st → idx = st.shared.availIdx →
      st.driver.i < st.driver.call.count → Working m₀ st st.device.log st.now → Loaded st →
      Prepared lay st.driver.call st.driver.i st.shared → Inv lay m₀ st
  | publish {idx : Nat} : st.driver.pc = .publish idx → Quiet st → idx = st.shared.availIdx →
      st.driver.i < st.driver.call.count → Working m₀ st st.device.log st.now → Loaded st →
      Prepared lay st.driver.call st.driver.i st.shared →
      st.shared.availRing (idx % queueSize) = 0 → Inv lay m₀ st
  | pending : st.driver.pc = .notify ∨ st.driver.pc = .wait →
      st.driver.i < st.driver.call.count → Pending lay m₀ st → Inv lay m₀ st
  | last : st.driver.pc = .last → st.driver.i < st.driver.call.count → Answered st →
      Settled m₀ st → Inv lay m₀ st
  | back : st.driver.pc = .restore ∨ st.driver.pc = .leave →
      st.driver.i < st.driver.call.count → Quiet st → Settled m₀ st → Inv lay m₀ st

theorem overlay_congr {dst src src' : Nat → UInt8} {off len : Nat}
    (h : ∀ b, b < len → src b = src' b) : overlay dst off len src = overlay dst off len src' := by
  funext k
  by_cases hk : off ≤ k ∧ k < off + len
  · rw [overlay_of_mem hk, overlay_of_mem hk]
    exact h (k - off) (by omega)
  · rw [overlay_of_not_mem hk, overlay_of_not_mem hk]

theorem putDisk_congr {disk : Nat → Sector} {n : Nat} {data data' : Sector}
    (h : ∀ b, b < 512 → data b = data' b) : putDisk disk n data = putDisk disk n data' := by
  funext k
  unfold putDisk
  rw [overlay_congr h]

theorem putDisk_of_ne {disk : Nat → Sector} {n k : Nat} {data : Sector} (h : k ≠ n) :
    putDisk disk n data k = disk k := if_neg h

/-- An idle device moves only when there is a new entry. -/
theorem DevStep.new_entry {s s' : Shared} {d d' : Device} (hstep : DevStep lay s d s' d')
    (hphase : d.phase = .idle) : d.lastAvail ≠ s.availIdx := by
  cases hstep with
  | take _ hne => exact hne
  | readSector hp => exact DevPhase.noConfusion (hphase.symm.trans hp)
  | readFails hp => exact DevPhase.noConfusion (hphase.symm.trans hp)
  | writeSector hp => exact DevPhase.noConfusion (hphase.symm.trans hp)
  | writeFails hp => exact DevPhase.noConfusion (hphase.symm.trans hp)
  | astray hp => exact DevPhase.noConfusion (hphase.symm.trans hp)
  | report hp => exact DevPhase.noConfusion (hphase.symm.trans hp)
  | list hp => exact DevPhase.noConfusion (hphase.symm.trans hp)
  | publish hp => exact DevPhase.noConfusion (hphase.symm.trans hp)

section Device

variable {s : Shared} {d : Device} {head : Nat} {status : UInt8} {data : Sector}

/-- The sector has arrived in `g_bounce`. -/
theorem Moved.of_read (hwork : Working m₀ st st.device.log st.now)
    (hprep : Prepared lay st.driver.call st.driver.i st.shared)
    (htype : st.shared.req.type = typeIn) :
    Moved m₀ { st with
      shared := { st.shared with
        bounce := overlay st.shared.bounce 0 512 (st.device.disk st.shared.req.sector) }
      device := { st.device with phase := .moved head 0 } } st.device.log 0 st.now where
  working := hwork
  mem := rfl
  disk _ hwrite := by
    have hout := Call.type_write hwrite
    rw [hprep.req] at htype
    exact absurd (hout.symm.trans htype) (by decide)
  same _ := rfl
  bounce _ _ b hb := by
    have hin : 0 ≤ b ∧ b < 0 + 512 := ⟨Nat.zero_le b, by omega⟩
    simp only [hprep.req]
    rw [overlay_of_mem hin]
    rfl
  other _ _ := rfl

/-- A read that failed may have left anything in `g_bounce`. -/
theorem Moved.of_readFails (hwork : Working m₀ st st.device.log st.now) (hst : status ≠ 0) :
    Moved m₀ { st with
      shared := { st.shared with bounce := overlay st.shared.bounce 0 512 data }
      device := { st.device with phase := .moved head status } }
      st.device.log status st.now where
  working := hwork
  mem := rfl
  disk h0 _ := absurd h0 hst
  same _ := rfl
  bounce h0 _ := absurd h0 hst
  other _ _ := rfl

/-- The sector of the disk is what the caller has in its buffer. -/
theorem Moved.of_write (hwork : Working m₀ st st.device.log st.now) (hload : Loaded st)
    (hprep : Prepared lay st.driver.call st.driver.i st.shared)
    (htype : st.shared.req.type = typeOut) :
    Moved m₀ { st with device := { st.device with
      disk := putDisk st.device.disk st.shared.req.sector st.shared.bounce
      phase := .moved head 0 } } st.device.log 0 st.now where
  working := hwork
  mem := rfl
  disk _ hwrite := by
    change st.driver.call.write = true at hwrite
    simp only [Call.sectorOn, hprep.req]
    rw [if_pos hwrite]
    exact putDisk_congr (hload hwrite)
  same hread := by
    have hin := Call.type_read hread
    rw [hprep.req] at htype
    exact absurd (hin.symm.trans htype) (by decide)
  bounce _ hread := by
    have hin := Call.type_read hread
    rw [hprep.req] at htype
    exact absurd (hin.symm.trans htype) (by decide)
  other n hn := by
    simp only [hprep.req]
    exact putDisk_of_ne hn

/-- A write that failed may have left anything in its sector. -/
theorem Moved.of_writeFails (hwork : Working m₀ st st.device.log st.now)
    (hprep : Prepared lay st.driver.call st.driver.i st.shared)
    (htype : st.shared.req.type = typeOut) (hst : status ≠ 0) :
    Moved m₀ { st with device := { st.device with
      disk := putDisk st.device.disk st.shared.req.sector data
      phase := .moved head status } } st.device.log status st.now where
  working := hwork
  mem := rfl
  disk h0 _ := absurd h0 hst
  same hread := by
    have hin := Call.type_read hread
    rw [hprep.req] at htype
    exact absurd (hin.symm.trans htype) (by decide)
  bounce h0 _ := absurd h0 hst
  other n hn := by
    simp only [hprep.req]
    exact putDisk_of_ne hn

/-- What the device does with the request keeps it the request of the driver. -/
theorem Serving.step (hwait : Awaiting st)
    (hprep : Prepared lay st.driver.call st.driver.i st.shared)
    (hserv : Serving m₀ st st.device.phase) (hstep : DevStep lay st.shared st.device s d) :
    Pending lay m₀ { st with shared := s, device := d } := by
  cases hstep with
  | take hp hne =>
      rw [hp] at hserv
      exact Or.inl ⟨⟨hwait.avail, hwait.answered, hwait.seen, hwait.lt, hwait.ring⟩, hprep,
        hwait.ring, hserv.1, hserv.2⟩
  | readSector hp _ htype =>
      rw [hp] at hserv
      obtain ⟨rfl, hwork, -⟩ := hserv
      exact Or.inl ⟨⟨hwait.avail, hwait.answered, hwait.seen, hwait.lt, hwait.ring⟩,
        ⟨hprep.desc₀, hprep.desc₁, hprep.desc₂, hprep.req⟩, rfl, st.now,
        Moved.of_read hwork hprep htype⟩
  | readFails hp _ htype hst =>
      rw [hp] at hserv
      obtain ⟨rfl, hwork, -⟩ := hserv
      exact Or.inl ⟨⟨hwait.avail, hwait.answered, hwait.seen, hwait.lt, hwait.ring⟩,
        ⟨hprep.desc₀, hprep.desc₁, hprep.desc₂, hprep.req⟩, rfl, st.now,
        Moved.of_readFails hwork hst⟩
  | writeSector hp _ htype =>
      rw [hp] at hserv
      obtain ⟨rfl, hwork, hload⟩ := hserv
      exact Or.inl ⟨⟨hwait.avail, hwait.answered, hwait.seen, hwait.lt, hwait.ring⟩, hprep, rfl,
        st.now, Moved.of_write hwork hload hprep htype⟩
  | writeFails hp _ htype hst =>
      rw [hp] at hserv
      obtain ⟨rfl, hwork, -⟩ := hserv
      exact Or.inl ⟨⟨hwait.avail, hwait.answered, hwait.seen, hwait.lt, hwait.ring⟩, hprep, rfl,
        st.now, Moved.of_writeFails hwork hprep htype hst⟩
  | astray hp hbad =>
      rw [hp] at hserv
      obtain ⟨rfl, -⟩ := hserv
      exact absurd hprep.isRequest hbad
  | report hp =>
      rw [hp] at hserv
      obtain ⟨rfl, m, hmoved⟩ := hserv
      exact Or.inl ⟨⟨hwait.avail, hwait.answered, hwait.seen, hwait.lt, hwait.ring⟩,
        ⟨hprep.desc₀, hprep.desc₁, hprep.desc₂, hprep.req⟩, rfl, st.device.log, m, rfl,
        ⟨hmoved.working, hmoved.mem, hmoved.disk, hmoved.same, hmoved.bounce, hmoved.other⟩⟩
  | list hp =>
      rw [hp] at hserv
      obtain ⟨rfl, log, m, hlog, hmoved⟩ := hserv
      exact Or.inl ⟨⟨hwait.avail, hwait.answered, hwait.seen, hwait.lt, hwait.ring⟩,
        ⟨hprep.desc₀, hprep.desc₁, hprep.desc₂, hprep.req⟩, log, m, hlog,
        ⟨hmoved.working, hmoved.mem, hmoved.disk, hmoved.same, hmoved.bounce, hmoved.other⟩⟩
  | publish hp =>
      rw [hp] at hserv
      obtain ⟨log, m, hlog, hmoved⟩ := hserv
      have havail : u16 (st.shared.usedIdx + 1) = st.shared.availIdx := by
        rw [hwait.answered, hwait.avail]
      have hlast : st.driver.lastUsed = st.device.lastAvail :=
        hwait.seen.symm.trans hwait.answered
      exact Or.inr ⟨⟨rfl, hwait.avail.symm, havail, congrArg (fun n => u16 (n + 1)) hwait.seen,
        hlast ▸ hwait.lt⟩, log, m, hlog,
        ⟨hmoved.working, hmoved.mem, hmoved.disk, hmoved.same, hmoved.bounce, hmoved.other⟩⟩

/-- A step of the device keeps the invariant. -/
theorem Inv.device (h : Inv lay m₀ st) (hstep : DevStep lay st.shared st.device s d) :
    Inv lay m₀ { st with shared := s, device := d } := by
  have hquiet : ¬ Quiet st := fun hq => hstep.new_entry hq.phase hq.taken
  have hanswered : ¬ Answered st := fun ha => hstep.new_entry ha.phase ha.taken
  cases h with
  | idle _ hq => exact absurd hq hquiet
  | head _ hq => exact absurd hq hquiet
  | enter _ hq => exact absurd hq hquiet
  | store _ hq => exact absurd hq hquiet
  | ring _ hq => exact absurd hq hquiet
  | publish _ hq => exact absurd hq hquiet
  | pending hpc hlt hpend =>
      obtain ⟨hwait, hprep, hserv⟩ | ⟨ha, -⟩ := hpend
      · exact Inv.pending hpc hlt (Serving.step hwait hprep hserv hstep)
      · exact absurd ha hanswered
  | last _ _ ha => exact absurd ha hanswered
  | back _ _ hq => exact absurd hq hquiet

end Device

section Driver

/-- The stores of a request leave the rings and `g_bounce` alone. -/
theorem Store.run_availIdx (x : Store) (s : Shared) : (x.run s).availIdx = s.availIdx := by
  cases x <;> rfl

theorem Store.run_usedIdx (x : Store) (s : Shared) : (x.run s).usedIdx = s.usedIdx := by
  cases x <;> rfl

theorem Store.run_bounce (x : Store) (s : Shared) : (x.run s).bounce = s.bounce := by
  cases x <;> rfl

/-- The registers of the driver do not matter to what the device has done. -/
theorem Settled.frame (h : Settled m₀ st) (pc : Pc) (n : Nat) (sie : Bool) :
    Settled m₀ { st with sie := sie, driver := { st.driver with pc := pc, lastUsed := n } } := by
  obtain ⟨log, m, hlog, hmoved⟩ := h
  exact ⟨log, m, hlog,
    ⟨hmoved.working, hmoved.mem, hmoved.disk, hmoved.same, hmoved.bounce, hmoved.other⟩⟩

theorem Moved.setPc {log : List UInt8} {status : UInt8} {m : DiskMem}
    (h : Moved m₀ st log status m) (pc : Pc) : Moved m₀ (st.setPc pc) log status m :=
  ⟨h.working, h.mem, h.disk, h.same, h.bounce, h.other⟩

theorem Settled.setPc (h : Settled m₀ st) (pc : Pc) : Settled m₀ (st.setPc pc) := by
  obtain ⟨log, m, hlog, hmoved⟩ := h
  exact ⟨log, m, hlog, hmoved.setPc pc⟩

theorem Serving.setPc {phase : DevPhase} (h : Serving m₀ st phase) (pc : Pc) :
    Serving m₀ (st.setPc pc) phase := by
  cases phase with
  | idle => exact h
  | taken head => exact h
  | moved head status =>
      obtain ⟨hhead, m, hmoved⟩ := h
      exact ⟨hhead, m, hmoved.setPc pc⟩
  | reported head => exact ⟨h.1, h.2.setPc pc⟩
  | listed => exact Settled.setPc h pc

theorem Pending.setPc (h : Pending lay m₀ st) (pc : Pc) : Pending lay m₀ (st.setPc pc) := by
  obtain ⟨hwait, hprep, hserv⟩ | ⟨ha, hset⟩ := h
  · exact Or.inl ⟨⟨hwait.avail, hwait.answered, hwait.seen, hwait.lt, hwait.ring⟩, hprep,
      hserv.setPc pc⟩
  · exact Or.inr ⟨⟨ha.phase, ha.taken, ha.answered, ha.unseen, ha.lt⟩, hset.setPc pc⟩

theorem Quiet.setPc (h : Quiet st) (pc : Pc) : Quiet (st.setPc pc) :=
  ⟨h.phase, h.taken, h.answered, h.seen, h.lt⟩

/-- The offset into the buffer does not wrap. -/
theorem System.bufAddr_eq (hfit : 512 * st.driver.call.count ≤ 4294967296)
    (hlt : st.driver.i < st.driver.call.count) :
    st.bufAddr = st.driver.call.addr + st.driver.i * 512 := by
  unfold System.bufAddr
  rw [u32_of_lt]
  omega

/-- The current sector is done: the array has taken one more step. -/
theorem Settled.advance (h : Settled m₀ st) (hzero : st.shared.status = 0)
    (hbuf : st.bufAddr = st.driver.call.addr + st.driver.i * 512) :
    Working m₀ { st with
      mem := if st.driver.call.write then st.mem
        else overlay st.mem st.bufAddr 512 st.shared.bounce
      driver := { st.driver with pc := .head, i := st.driver.i + 1 } } st.device.log
      ⟨st.device.disk, if st.driver.call.write then st.mem
        else overlay st.mem st.bufAddr 512 st.shared.bounce⟩ := by
  obtain ⟨log, m, hlog, hmoved⟩ := h
  obtain ⟨m₁, log₁, hrun, rfl, hm⟩ := hmoved.working
  refine ⟨m₁, log₁, hrun, ?_, ?_⟩
  · rw [hlog, hzero, List.append_assoc, ← List.replicate_succ']
  · rw [Call.sectors, ← hm, hbuf, hmoved.mem]
    cases hwrite : st.driver.call.write with
    | true =>
        have hdisk := hmoved.disk hzero hwrite
        rw [hdisk]
        simp only [Call.sectorOn, hwrite, if_true]
    | false =>
        have hbounce := @overlay_congr m.mem _ _ (st.driver.call.addr + st.driver.i * 512) _
          (hmoved.bounce hzero hwrite)
        rw [hmoved.same hwrite]
        simp only [Call.sectorOn, hwrite, hbounce]
        rfl

/-- The device refused the current sector, and the call returns -1. -/
theorem Settled.refused (h : Settled m₀ st) (hst : st.shared.status ≠ 0)
    (hlt : st.driver.i < st.driver.call.count) :
    ArrayRun m₀ (st.done ++ [(st.driver.call, -1)]) st.device.log st.now := by
  obtain ⟨log, m, hlog, hmoved⟩ := h
  obtain ⟨m₁, log₁, hrun, rfl, rfl⟩ := hmoved.working
  rw [hlog, List.append_assoc]
  refine ArrayRun.call hrun (Call.Answer.fail hlt hst ⟨hmoved.mem, fun n hn => ?_⟩)
  exact hn.elim (fun hread => congrFun (hmoved.same hread) n) (hmoved.other n)

/-- A step of the driver keeps the invariant. -/
theorem Inv.driver (h : Inv lay m₀ st)
    (hfit : st.driver.pc ≠ .idle → 512 * st.driver.call.count ≤ 4294967296)
    (hstep : driverStep lay st = some st') : Inv lay m₀ st' := by
  cases h with
  | idle hpc hq hrun =>
      simp only [driverStep, hpc] at hstep
      cases htodo : st.todo with
      | nil =>
          rw [htodo] at hstep
          exact absurd hstep (Option.some_ne_none st').symm
      | cons c rest =>
          rw [htodo] at hstep
          cases hstep
          exact Inv.head rfl ⟨hq.phase, hq.taken, hq.answered, hq.seen, hq.lt⟩ (Nat.zero_le _)
            ⟨st.now, st.device.log, hrun, (List.append_nil _).symm, rfl⟩
  | head hpc hq hle hwork =>
      simp only [driverStep, hpc] at hstep
      by_cases hlt : st.driver.i < st.driver.call.count
      · rw [if_pos hlt] at hstep
        have hbuf := System.bufAddr_eq (hfit (by rw [hpc]; exact Pc.noConfusion)) hlt
        by_cases hwrite : st.driver.call.write = true
        · rw [if_pos hwrite] at hstep
          cases hstep
          refine Inv.enter rfl ⟨hq.phase, hq.taken, hq.answered, hq.seen, hq.lt⟩ hlt hwork ?_
          intro _ b hb
          have hin : 0 ≤ b ∧ b < 0 + 512 := ⟨Nat.zero_le b, by omega⟩
          change overlay st.shared.bounce 0 512 (fun k => st.mem (st.bufAddr + k)) b = _
          rw [overlay_of_mem hin, hbuf]
          rfl
        · rw [if_neg hwrite] at hstep
          cases hstep
          exact Inv.enter rfl (hq.setPc _) hlt hwork fun hw => absurd hw hwrite
      · rw [if_neg hlt] at hstep
        cases hstep
        have hall : st.driver.i = st.driver.call.count := Nat.le_antisymm hle (Nat.not_lt.mp hlt)
        obtain ⟨m₁, log₁, hrun, hlog, hm⟩ := hwork
        rw [hall] at hlog hm
        refine Inv.idle rfl ⟨hq.phase, hq.taken, hq.answered, hq.seen, hq.lt⟩ ?_
        change ArrayRun m₀ (st.done ++ [(st.driver.call, 0)]) st.device.log st.now
        rw [hlog, hm]
        exact ArrayRun.call hrun (Call.Answer.ok m₁)
  | enter hpc hq hlt hwork hload =>
      simp only [driverStep, hpc] at hstep
      cases hstep
      exact Inv.store rfl ⟨hq.phase, hq.taken, hq.answered, hq.seen, hq.lt⟩ hlt hwork hload
        (rwOneStores_prepare lay st.driver.call st.driver.i st.shared)
  | @store rest hpc hq hlt hwork hload hprep =>
      simp only [driverStep, hpc] at hstep
      cases rest with
      | nil =>
          cases hstep
          exact Inv.ring rfl (hq.setPc _) rfl hlt hwork hload hprep
      | cons x rest =>
          cases hstep
          refine Inv.store rfl ⟨hq.phase, ?_, ?_, ?_, ?_⟩ hlt hwork ?_ hprep
          · exact hq.taken.trans (x.run_availIdx st.shared).symm
          · exact (x.run_usedIdx st.shared).trans (hq.answered.trans (x.run_availIdx st.shared).symm)
          · exact (x.run_usedIdx st.shared).trans hq.seen
          · exact (x.run_availIdx st.shared).symm ▸ hq.lt
          · intro hwrite b hb
            exact (congrFun (x.run_bounce st.shared) b).trans (hload hwrite b hb)
  | @ring idx hpc hq hidx hlt hwork hload hprep =>
      simp only [driverStep, hpc] at hstep
      cases hstep
      exact Inv.publish rfl ⟨hq.phase, hq.taken, hq.answered, hq.seen, hq.lt⟩ hidx hlt hwork hload
        ⟨hprep.desc₀, hprep.desc₁, hprep.desc₂, hprep.req⟩ (Function.update_self _ _ _)
  | @publish idx hpc hq hidx hlt hwork hload hprep hring =>
      simp only [driverStep, hpc] at hstep
      cases hstep
      have htaken : st.device.lastAvail = idx := hq.taken.trans hidx.symm
      refine Inv.pending (Or.inl rfl) hlt (Or.inl ⟨⟨?_, ?_, hq.seen, ?_, ?_⟩,
        ⟨hprep.desc₀, hprep.desc₁, hprep.desc₂, hprep.req⟩, ?_⟩)
      · exact congrArg (fun n => u16 (n + 1)) htaken.symm
      · exact hq.answered.trans hq.taken.symm
      · exact hq.taken ▸ hq.lt
      · exact htaken ▸ hring
      · have hserv : Serving m₀ st .idle := ⟨hwork, hload⟩
        exact hq.phase ▸ hserv
  | pending hpc hlt hpend =>
      rcases hpc with hpc | hpc
      · simp only [driverStep, hpc] at hstep
        cases hstep
        exact Inv.pending (Or.inr rfl) hlt (hpend.setPc _)
      · simp only [driverStep, hpc] at hstep
        by_cases hsame : st.shared.usedIdx = st.driver.lastUsed
        · rw [if_pos hsame] at hstep
          cases hstep
          exact Inv.pending (Or.inr hpc) hlt hpend
        · rw [if_neg hsame] at hstep
          cases hstep
          obtain ⟨hwait, -⟩ | ⟨ha, hset⟩ := hpend
          · exact absurd hwait.seen hsame
          · exact Inv.last rfl hlt ⟨ha.phase, ha.taken, ha.answered, ha.unseen, ha.lt⟩
              (hset.setPc _)
  | last hpc hlt ha hset =>
      simp only [driverStep, hpc] at hstep
      cases hstep
      refine Inv.back (Or.inl rfl) hlt ⟨ha.phase, ha.taken, ha.answered, rfl, ?_⟩
        (hset.frame .restore st.shared.usedIdx st.sie)
      exact ha.answered ▸ ha.unseen ▸ Nat.mod_lt _ (by decide)
  | back hpc hlt hq hset =>
      rcases hpc with hpc | hpc
      · simp only [driverStep, hpc] at hstep
        cases hstep
        exact Inv.back (Or.inr rfl) hlt ⟨hq.phase, hq.taken, hq.answered, hq.seen, hq.lt⟩
          (hset.frame .leave st.driver.lastUsed _)
      · simp only [driverStep, hpc] at hstep
        by_cases hzero : st.shared.status = 0
        · rw [if_pos hzero] at hstep
          cases hstep
          have hbuf := System.bufAddr_eq (hfit (by rw [hpc]; exact Pc.noConfusion)) hlt
          exact Inv.head rfl ⟨hq.phase, hq.taken, hq.answered, hq.seen, hq.lt⟩ hlt
            (hset.advance hzero hbuf)
        · rw [if_neg hzero] at hstep
          cases hstep
          exact Inv.idle rfl ⟨hq.phase, hq.taken, hq.answered, hq.seen, hq.lt⟩
            (hset.refused hzero hlt)

end Driver

end Invariant

section Runs

variable {lay : Layout} {st st' : System} {calls : List Call}

/-- The call that has begun and not yet returned. -/
def System.current (st : System) : List Call :=
  match st.driver.pc with
  | .idle => []
  | _ => [st.driver.call]

/-- All calls: those that have returned, the current one, and those to come. -/
def System.asked (st : System) : List Call :=
  st.done.map Prod.fst ++ (st.current ++ st.todo)

/-- The requests that the device has not yet answered. -/
def System.inFlight (st : System) : Nat :=
  u16 (st.shared.availIdx + (65536 - st.shared.usedIdx))

theorem System.asked_return (ret : Int) (hpc : st.driver.pc ≠ .idle) :
    (st.return_ ret).asked = st.asked := by
  have hcur : st.current = [st.driver.call] := by
    unfold System.current
    split
    · next h => exact absurd h hpc
    · rfl
  unfold System.asked
  rw [hcur]
  simp [System.return_, System.current]

/-- A call is taken up once, and returns once. -/
theorem driverStep_asked (hstep : driverStep lay st = some st') : st'.asked = st.asked := by
  cases hpc : st.driver.pc with
  | idle =>
      simp only [driverStep, hpc] at hstep
      cases htodo : st.todo with
      | nil =>
          rw [htodo] at hstep
          exact absurd hstep (Option.some_ne_none st').symm
      | cons c rest =>
          rw [htodo] at hstep
          cases hstep
          simp [System.asked, System.current, hpc, htodo]
  | head =>
      simp only [driverStep, hpc] at hstep
      split_ifs at hstep
      · cases hstep
        simp [System.asked, System.current, System.setPc, hpc]
      · cases hstep
        simp [System.asked, System.current, System.setPc, hpc]
      · cases hstep
        exact System.asked_return 0 (by rw [hpc]; exact Pc.noConfusion)
  | leave =>
      simp only [driverStep, hpc] at hstep
      by_cases hzero : st.shared.status = 0
      · rw [if_pos hzero] at hstep
        cases hstep
        simp [System.asked, System.current, hpc]
      · rw [if_neg hzero] at hstep
        cases hstep
        exact System.asked_return (-1) (by rw [hpc]; exact Pc.noConfusion)
  | wait =>
      simp only [driverStep, hpc] at hstep
      split_ifs at hstep
      · cases hstep
        rfl
      · cases hstep
        simp [System.asked, System.current, System.setPc, hpc]
  | store rest =>
      cases rest with
      | nil =>
          simp only [driverStep, hpc] at hstep
          cases hstep
          simp [System.asked, System.current, System.setPc, hpc]
      | cons x rest =>
          simp only [driverStep, hpc] at hstep
          cases hstep
          simp [System.asked, System.current, System.setPc, hpc]
  | _ =>
      simp only [driverStep, hpc] at hstep
      cases hstep
      simp [System.asked, System.current, System.setPc, hpc]

/-- The invariant and the calls of a run. -/
structure Kept (lay : Layout) (m₀ : DiskMem) (calls : List Call) (st : System) : Prop where
  inv : Inv lay m₀ st
  asked : st.asked = calls

theorem Kept.fits {m₀ : DiskMem} (h : Kept lay m₀ calls st)
    (hfit : ∀ c ∈ calls, 512 * c.count ≤ 4294967296) (hpc : st.driver.pc ≠ .idle) :
    512 * st.driver.call.count ≤ 4294967296 := by
  apply hfit
  rw [← h.asked]
  unfold System.asked System.current
  split
  · next hidle => exact absurd hidle hpc
  · exact List.mem_append_right _ List.mem_cons_self

theorem Kept.step {m₀ : DiskMem} (h : Kept lay m₀ calls st)
    (hfit : ∀ c ∈ calls, 512 * c.count ≤ 4294967296) (hstep : Step lay st st') :
    Kept lay m₀ calls st' := by
  cases hstep with
  | driver hdriver =>
      exact ⟨h.inv.driver (h.fits hfit) hdriver, (driverStep_asked hdriver).trans h.asked⟩
  | device hdevice => exact ⟨h.inv.device hdevice, h.asked⟩

/-- Both indices are zero behind `virtio_blk_init`. -/
theorem virtioBlkInit_zero {regs : Mmio} {base : Nat} {s s' : Shared} {dev : VirtioBlkDev}
    (h : virtioBlkInit regs base s = some (dev, s')) :
    s'.availIdx = 0 ∧ s'.usedIdx = 0 ∧ dev.lastUsed = 0 := by
  unfold virtioBlkInit at h
  split_ifs at h
  cases h
  exact ⟨rfl, rfl, rfl⟩

/-- The invariant holds before the first call. -/
theorem boot_kept {dev : VirtioBlkDev} {s : Shared} {disk : Nat → Sector} {sie : Bool}
    {mem : Nat → UInt8} (hzero : s.availIdx = 0 ∧ s.usedIdx = 0 ∧ dev.lastUsed = 0) :
    Kept lay ⟨disk, mem⟩ calls (boot dev s disk sie mem calls) := by
  obtain ⟨havail, hused, hlast⟩ := hzero
  refine ⟨Inv.idle rfl ⟨rfl, havail.symm, ?_, ?_, ?_⟩ (ArrayRun.nil _), rfl⟩
  · exact hused.trans havail.symm
  · exact hused.trans hlast.symm
  · exact havail ▸ (by decide)

/-- The invariant holds in every state of every run. -/
theorem Reaches.kept {m₀ : DiskMem} (hreach : Reaches lay st st')
    (hfit : ∀ c ∈ calls, 512 * c.count ≤ 4294967296) (h : Kept lay m₀ calls st) :
    Kept lay m₀ calls st' := by
  induction hreach with
  | refl => exact h
  | tail _ hstep ih => exact ih.step hfit hstep

/-- Only while it waits does the driver have a request with the device. -/
theorem Inv.waiting {m₀ : DiskMem} (h : Inv lay m₀ st) :
    Quiet st ∨ Answered st ∨
      (Awaiting st ∧ (st.driver.pc = .notify ∨ st.driver.pc = .wait)) := by
  cases h with
  | idle _ hq => exact Or.inl hq
  | head _ hq => exact Or.inl hq
  | enter _ hq => exact Or.inl hq
  | store _ hq => exact Or.inl hq
  | ring _ hq => exact Or.inl hq
  | publish _ hq => exact Or.inl hq
  | pending hpc _ hpend =>
      obtain ⟨hwait, -⟩ | ⟨ha, -⟩ := hpend
      · exact Or.inr (Or.inr ⟨hwait, hpc⟩)
      · exact Or.inr (Or.inl ha)
  | last _ _ ha => exact Or.inr (Or.inl ha)
  | back _ _ hq => exact Or.inl hq

theorem System.inFlight_of_eq (hlt : st.shared.availIdx < 65536)
    (h : st.shared.usedIdx = st.shared.availIdx) : st.inFlight = 0 := by
  unfold System.inFlight u16
  omega

theorem Answered.lt_avail (h : Answered st) : st.shared.availIdx < 65536 := by
  rw [← h.answered, h.unseen]
  exact Nat.mod_lt _ (by decide)

theorem Awaiting.inFlight (h : Awaiting st) : st.inFlight = 1 := by
  have hlt := h.lt
  unfold System.inFlight
  rw [h.avail, h.answered]
  unfold u16
  omega

/-- While it notifies or waits, the driver touches no memory of the device. -/
theorem driverStep_waits (hpc : st.driver.pc = .notify ∨ st.driver.pc = .wait)
    (hstep : driverStep lay st = some st') : st'.shared = st.shared ∧ st'.done = st.done := by
  rcases hpc with hpc | hpc
  · simp only [driverStep, hpc] at hstep
    cases hstep
    exact ⟨rfl, rfl⟩
  · simp only [driverStep, hpc] at hstep
    split_ifs at hstep
    · cases hstep
      exact ⟨rfl, rfl⟩
    · cases hstep
      exact ⟨rfl, rfl⟩

/-- `n` steps of the driver. -/
def drive (lay : Layout) : Nat → System → System
  | 0, st => st
  | n + 1, st => drive lay n ((driverStep lay st).getD st)

theorem drive_reaches (n : Nat) : Reaches lay st (drive lay n st) := by
  induction n generalizing st with
  | zero => exact Relation.ReflTransGen.refl
  | succ n ih =>
      cases hstep : driverStep lay st with
      | none =>
          rw [drive, hstep]
          exact ih
      | some st' =>
          rw [drive, hstep]
          exact Relation.ReflTransGen.head (Step.driver hstep) ih

theorem Reaches.drive (h : Reaches lay st st') (n : Nat) : Reaches lay st (drive lay n st') :=
  Relation.ReflTransGen.trans h (drive_reaches n)

theorem Reaches.device {s : Shared} {d : Device} (h : Reaches lay st st')
    (hstep : DevStep lay st'.shared st'.device s d) :
    Reaches lay st { st' with shared := s, device := d } :=
  Relation.ReflTransGen.tail h (Step.device hstep)

/-- The system after the device has answered a read, with `len` bytes listed. -/
def System.served (st : System) (len : Nat) : System :=
  { st with
    shared := { st.shared with
      bounce := overlay st.shared.bounce 0 512 (st.device.disk st.shared.req.sector)
      status := 0
      usedRing := Function.update st.shared.usedRing (st.shared.usedIdx % queueSize) (0, len)
      usedIdx := u16 (st.shared.usedIdx + 1) }
    device := ⟨st.device.disk, u16 (st.device.lastAvail + 1), .idle, st.device.log ++ [0]⟩ }

/-- A device that finds a read in the ring can answer it. -/
theorem Reaches.served (hphase : st.device.phase = .idle)
    (hnew : st.device.lastAvail ≠ st.shared.availIdx)
    (hring : st.shared.availRing (st.device.lastAvail % queueSize) = 0)
    (hreq : IsRequest lay st.shared 0) (htype : st.shared.req.type = typeIn) (len : Nat) :
    Reaches lay st (st.served len) := by
  have hrefl : Reaches lay st st := Relation.ReflTransGen.refl
  have htake := hrefl.device (DevStep.take hphase hnew)
  have hread := htake.device (DevStep.readSector (congrArg DevPhase.taken hring) hreq htype)
  have hreport := hread.device (DevStep.report rfl)
  have hlist := hreport.device (@DevStep.list _ _ _ 0 len rfl)
  exact hlist.device (DevStep.publish rfl)

/-- A call that reads the sector 3 to the address 4096. -/
def readOne : Call := ⟨false, 3, 4096, 1⟩

/-- The disk whose sector `n` is filled with the byte `n`. -/
def numbered : Nat → Sector := fun n _ => UInt8.ofNat n

/-- The memory before `virtio_blk_init`. -/
def blankShared : Shared where
  desc _ := ⟨0, 0, 0, 0⟩
  availFlags := 0
  availIdx := 7
  availRing _ := 0
  usedFlags := 0
  usedIdx := 9
  usedRing _ := (0, 0)
  req := ⟨0, 0, 0⟩
  status := 0
  bounce _ := 0

def legacyRegs : Mmio := ⟨0x74726976, 1, 2, false, 1024, 131072, 0⟩

def readySystem : System :=
  boot ⟨0x10001000, 1, 0, 131072⟩ { blankShared with availIdx := 0, usedIdx := 0 } numbered true
    (fun _ => 0) [readOne]

/-- The read is put into the ring, answered, and returns. -/
theorem readOne_reaches : ∃ st : System, Reaches ⟨8192, 8208, 8224⟩ readySystem st ∧
    st.driver.pc = .idle ∧ st.done = [(readOne, 0)] ∧ st.mem 4607 = 3 := by
  have hwait : Reaches ⟨8192, 8208, 8224⟩ readySystem (drive ⟨8192, 8208, 8224⟩ 24 readySystem) :=
    drive_reaches 24
  have hrequest : IsRequest ⟨8192, 8208, 8224⟩
      (drive ⟨8192, 8208, 8224⟩ 24 readySystem).shared 0 :=
    ⟨by decide +kernel, by decide +kernel, by decide +kernel, Or.inl (by decide +kernel)⟩
  have hserved := Reaches.served (by decide +kernel) (by decide +kernel) (by decide +kernel)
    hrequest (by decide +kernel) 513
  have hback := hserved.drive 6
  exact ⟨_, hwait.trans hback, by decide +kernel, by decide +kernel,
    by decide +kernel⟩

end Runs

end OsAgentLab.Virtio
