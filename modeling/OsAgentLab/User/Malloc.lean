/-
The allocator of the C library, `malloc.c`: a circular list of free blocks with a
header each, in the memory of the process.
-/
import OsAgentLab.Memory

namespace OsAgentLab

/-- What the allocator finds in its surroundings: the address of `base`, where the
memory of `sbrk` begins, and how its calls are answered.  The answer to a call is
refused or lies that many bytes above everything returned before. -/
structure HeapEnv where
  base : Nat
  start : Nat
  answer : Nat → Nat → Option Nat
  base_pos : 0 < base
  base_le : base + 16 ≤ start
  start_lt : start < 18446744073709551616

/-- The memory and `freep`, with the number of the calls of `sbrk` and what they
returned, the newest first: the address and the number of bytes. -/
structure UserHeap where
  mem : Nat → UInt8
  freep : Nat
  calls : Nat
  granted : List (Nat × Nat)

namespace UserHeap

/-- `a->s.next` and `a->s.size` of the header at `a`. -/
def next (h : UserHeap) (a : Nat) : Nat := le64 h.mem a

def size (h : UserHeap) (a : Nat) : Nat := le64 h.mem (a + 8)

def setNext (h : UserHeap) (a w : Nat) : UserHeap := { h with mem := put64 h.mem a w }

def setSize (h : UserHeap) (a w : Nat) : UserHeap := { h with mem := put64 h.mem (a + 8) w }

def setFreep (h : UserHeap) (p : Nat) : UserHeap := { h with freep := p }

end UserHeap

/-- `sizeof(Header)`. -/
def headerSize : Nat := 16

/-- `p + n` for a pointer to headers. -/
def headerAdd (p n : Nat) : Nat := u64 (p + headerSize * n)

/-- The end of the memory that `sbrk` has returned. -/
def heapTop (e : HeapEnv) (h : UserHeap) : Nat :=
  h.granted.head?.elim e.start fun r => r.1 + r.2

/-- `sbrk(bytes)`; `none` is the result `-1`. -/
def sbrk (e : HeapEnv) (bytes : Nat) (h : UserHeap) : Option Nat × UserHeap :=
  let h' := { h with calls := h.calls + 1 }
  (e.answer h.calls bytes).elim (none, h') fun gap =>
    let p := heapTop e h + gap
    if p + bytes < 18446744073709551616 then
      (some p, { h' with granted := (p, bytes) :: h.granted })
    else (none, h')

/-- `if (freep == NULL) { base.s.next = freep = &base; base.s.size = 0; }`. -/
def heapInit (e : HeapEnv) (h : UserHeap) : UserHeap :=
  if h.freep = 0 then ((h.setFreep e.base).setNext e.base e.base).setSize e.base 0 else h

/-- The search of `free` for the place of `bp` in the list, from `p` on. -/
def freeFind (h : UserHeap) (bp : Nat) : Nat → Nat → Option Nat
  | 0, _ => none
  | fuel + 1, p =>
      if p < bp ∧ bp < h.next p then some p
      else if h.next p ≤ p ∧ (p < bp ∨ bp < h.next p) then some p
      else freeFind h bp fuel (h.next p)

/-- `free` joins the block at `bp` with the one behind it. -/
def joinNext (p bp : Nat) (h : UserHeap) : UserHeap :=
  if headerAdd bp (h.size bp) = h.next p then
    let h := h.setSize bp (u64 (h.size bp + h.size (h.next p)))
    h.setNext bp (h.next (h.next p))
  else h.setNext bp (h.next p)

/-- `free` joins the block at `p` with the one at `bp`. -/
def joinPrev (p bp : Nat) (h : UserHeap) : UserHeap :=
  if headerAdd p (h.size p) = bp then
    let h := h.setSize p (u64 (h.size p + h.size bp))
    h.setNext p (h.next bp)
  else h.setNext p bp

/-- `free`, with at most `fuel` passes of its loop. -/
def heapFree (e : HeapEnv) (fuel ap : Nat) (h : UserHeap) : Option UserHeap :=
  if ap = 0 then some h
  else
    let bp := ap - headerSize
    let h := heapInit e h
    (freeFind h bp fuel h.freep).map fun p =>
      (joinPrev p bp (joinNext p bp h)).setFreep p

/-- `NALLOC`. -/
def nalloc : Nat := 1024

/-- `morecore`; the result 0 is the null pointer. -/
def morecore (e : HeapEnv) (fuel nu : Nat) (h : UserHeap) : Option (Nat × UserHeap) :=
  let nu := max nu nalloc
  match sbrk e (u64 (nu * headerSize)) h with
  | (none, h) => some (0, h)
  | (some hp, h) => (heapFree e fuel (hp + headerSize) (h.setSize hp nu)).map fun h => (h.freep, h)

/-- `malloc` takes `nunits` units from the block at `p`, whose predecessor is `prevp`. -/
def takeBlock (nunits prevp p : Nat) (h : UserHeap) : Nat × UserHeap :=
  if h.size p = nunits then
    (p + headerSize, (h.setNext prevp (h.next p)).setFreep prevp)
  else
    let h := h.setSize p (h.size p - nunits)
    let q := headerAdd p (h.size p)
    (q + headerSize, (h.setSize q nunits).setFreep prevp)

/-- The loop of `malloc`. -/
def mallocLoop (e : HeapEnv) (limit nunits : Nat) : Nat → Nat → Nat → UserHeap →
    Option (Nat × UserHeap)
  | 0, _, _, _ => none
  | fuel + 1, prevp, p, h =>
      if nunits ≤ h.size p then some (takeBlock nunits prevp p h)
      else if p = h.freep then
        match morecore e limit nunits h with
        | none => none
        | some (q, h) =>
            if q = 0 then some (0, h) else mallocLoop e limit nunits fuel q (h.next q) h
      else mallocLoop e limit nunits fuel p (h.next p) h

/-- The units of a request, with the header. -/
def unitsFor (nbytes : Nat) : Nat := u64 (nbytes + 15) / headerSize + 1

/-- `malloc`, with at most `fuel` passes of each loop. -/
def heapMalloc (e : HeapEnv) (fuel nbytes : Nat) (h : UserHeap) : Option (Nat × UserHeap) :=
  let h := heapInit e h
  mallocLoop e fuel (unitsFor nbytes) fuel h.freep (h.next h.freep) h

/-- `d[i] = s[i]` for `count` bytes from `i` on. -/
def copyBytes (d s : Nat) : Nat → Nat → (Nat → UInt8) → Nat → UInt8
  | 0, _, m => m
  | count + 1, i, m => copyBytes d s count (i + 1) (Function.update m (d + i) (m (s + i)))

/-- `realloc`. -/
def heapRealloc (e : HeapEnv) (fuel ptr size : Nat) (h : UserHeap) : Option (Nat × UserHeap) :=
  if ptr = 0 then heapMalloc e fuel size h
  else if size = 0 then (heapFree e fuel ptr h).map fun h => (0, h)
  else
    let old := u64 (u64 (h.size (ptr - headerSize) + 18446744073709551615) * headerSize)
    if size ≤ old then some (ptr, h)
    else
      match heapMalloc e fuel size h with
      | none => none
      | some (newp, h) =>
          if newp = 0 then some (0, h)
          else
            let h := { h with mem := copyBytes newp ptr (min old size) 0 h.mem }
            (heapFree e fuel ptr h).map fun h => (newp, h)

end OsAgentLab
