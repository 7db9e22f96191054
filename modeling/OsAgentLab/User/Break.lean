/-
`sbrk` over `sys_brk` of the kernel, which moves the break of the process up and down, and
the allocator on top of it, with `calloc` and the anonymous `mmap`.
-/
import OsAgentLab.User.HeapRun
import OsAgentLab.Vm.PageTable

namespace OsAgentLab

namespace Brk

/-- What a process finds: the address of `base`, its break at the start, and for which new
breaks the kernel finds memory. -/
structure Env where
  base : Nat
  start : Nat
  room : Nat → Nat → Bool
  base_pos : 0 < base
  base_le : base + 16 ≤ start
  user : userBase ≤ start ∧ start ≤ userStackBase

/-- The heap of the process, `cur` of `sbrk`, and `p->sz`. -/
structure State where
  heap : UserHeap
  cur : Nat
  sz : Nat

/-- Its start is the one of the heap without breaks. -/
def Env.heapEnv (env : Env) : HeapEnv where
  base := env.base
  start := env.start
  answer := fun _ _ => none
  base_pos := env.base_pos
  base_le := env.base_le
  start_lt := Nat.lt_of_le_of_lt env.user.2 (by decide)

section Calls

/-- `sys_brk` of the kernel. -/
def sysBrk (env : Env) (addr : Nat) (s : State) : Nat × State :=
  if addr = 0 then (s.sz, s)
  else if addr < userBase ∨ userStackBase < addr then (s.sz, s)
  else if s.sz < addr then
    if env.room s.heap.calls addr then (addr, { s with sz := addr }) else (s.sz, s)
  else (addr, { s with sz := addr })

/-- The first lines of `sbrk`: `cur` is set at the first call. -/
def startSbrk (env : Env) (s : State) : State :=
  if s.cur = 0 then { s with cur := (sysBrk env 0 s).1 } else s

/-- The call that `sbrk` makes is counted, and what it returns is noted. -/
def State.called (s : State) (old next bytes : Nat) : State :=
  { s with cur := next
           heap := { s.heap with calls := s.heap.calls + 1
                                 granted := (old, bytes) :: s.heap.granted } }

/-- `sbrk((intptr_t)bytes)`; `none` is the result `-1`. -/
def sbrk (env : Env) (bytes : Nat) (s : State) : Option Nat × State :=
  let s := startSbrk env s
  let next := u64 (s.cur + bytes)
  let r := sysBrk env next s
  if r.1 ≠ next then
    (none, { r.2 with heap := { r.2.heap with calls := r.2.heap.calls + 1 } })
  else (some s.cur, r.2.called s.cur next bytes)

/-- `morecore`. -/
def morecore (env : Env) (fuel nu : Nat) (s : State) : Option (Nat × State) :=
  let nu := max nu nalloc
  match sbrk env (u64 (nu * headerSize)) s with
  | (none, s) => some (0, s)
  | (some hp, s) =>
      (heapFree env.heapEnv fuel (hp + headerSize) (s.heap.setSize hp nu)).map fun h =>
        (h.freep, { s with heap := h })

/-- The loop of `malloc`. -/
def mallocLoop (env : Env) (limit nunits : Nat) : Nat → Nat → Nat → State → Option (Nat × State)
  | 0, _, _, _ => none
  | fuel + 1, prevp, p, s =>
      if nunits ≤ s.heap.size p then
        let r := takeBlock nunits prevp p s.heap
        some (r.1, { s with heap := r.2 })
      else if p = s.heap.freep then
        match morecore env limit nunits s with
        | none => none
        | some (q, s) =>
            if q = 0 then some (0, s) else mallocLoop env limit nunits fuel q (s.heap.next q) s
      else mallocLoop env limit nunits fuel p (s.heap.next p) s

/-- `malloc`. -/
def malloc (env : Env) (fuel nbytes : Nat) (s : State) : Option (Nat × State) :=
  let s := { s with heap := heapInit env.heapEnv s.heap }
  mallocLoop env fuel (unitsFor nbytes) fuel s.heap.freep (s.heap.next s.heap.freep) s

/-- `free`. -/
def free (env : Env) (fuel ptr : Nat) (s : State) : Option State :=
  (heapFree env.heapEnv fuel ptr s.heap).map fun h => { s with heap := h }

/-- `realloc`. -/
def realloc (env : Env) (fuel ptr size : Nat) (s : State) : Option (Nat × State) :=
  if ptr = 0 then malloc env fuel size s
  else if size = 0 then (free env fuel ptr s).map fun s => (0, s)
  else
    let old := u64 (u64 (s.heap.size (ptr - headerSize) + 18446744073709551615) * headerSize)
    if size ≤ old then some (ptr, s)
    else
      match malloc env fuel size s with
      | none => none
      | some (newp, s) =>
          if newp = 0 then some (0, s)
          else
            let s := { s with
              heap := { s.heap with mem := copyBytes newp ptr (min old size) 0 s.heap.mem } }
            (free env fuel ptr s).map fun s => (newp, s)

/-- `memset(p, 0, n)`. -/
def zeroBytes (p n : Nat) (s : State) : State :=
  { s with heap := { s.heap with mem := overlay s.heap.mem p n fun _ => 0 } }

/-- `calloc`. -/
def calloc (env : Env) (fuel nmemb size : Nat) (s : State) : Option (Nat × State) :=
  let total := u64 (nmemb * size)
  (malloc env fuel total s).map fun r => if r.1 = 0 then (0, r.2) else (r.1, zeroBytes r.1 total r.2)

/-- `MAP_FAILED`. -/
def mapFailed : Nat := 18446744073709551615

/-- `mmap` with `MAP_ANON`; without this flag it fails and does nothing. -/
def mmap (env : Env) (fuel length : Nat) (s : State) : Option (Nat × State) :=
  (malloc env fuel (u64 (length + 8)) s).map fun r =>
    if r.1 = 0 then (mapFailed, r.2)
    else (r.1 + 8, { r.2 with heap := { r.2.heap with mem := put64 r.2.heap.mem r.1 length } })

/-- `munmap`; the result for a null pointer is `-1`. -/
def munmap (env : Env) (fuel addr : Nat) (s : State) : Option (Nat × State) :=
  if addr = 0 then some (18446744073709551615, s)
  else (free env fuel (addr - 8) s).map fun s => (0, s)

/-- The calls of a program without breaks, on the process. -/
def exec (env : Env) (fuel : Nat) : HeapCall → State → Option (Nat × State)
  | .malloc nbytes, s => malloc env fuel nbytes s
  | .free ptr, s => (free env fuel ptr s).map fun s => (0, s)
  | .realloc ptr size, s => realloc env fuel ptr size s
  | .store addr byte, s =>
      some (0, { s with heap := { s.heap with mem := Function.update s.heap.mem addr byte } })

end Calls

end Brk

end OsAgentLab
