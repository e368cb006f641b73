import Mymuduo.Memory.Carve
import Mymuduo.Memory.PageMap
import Mymuduo.Memory.RadixMap
import Mymuduo.Memory.TcPool
import Mymuduo.Memory.ThreadCache

namespace Mymuduo.Memory

open Lib PageCache

/-- How a call can end the process, or spoil its memory: an assert fails, `_freelist` is indexed
out of range, a null pointer is followed, or a thread cache is built where another one is. -/
inductive Fault where
  | assertion
  | freelistIndex
  | nullPointer
  | sharedCache
  deriving DecidableEq

/-- An assert about a pointer, which is followed next. -/
def Fault.ofAssert (asserts : Bool) : Fault := if asserts then .assertion else .nullPointer

/-- The pool behind `ConcurrentAlloc` and `ConcurrentFree`, with the thread caches that threads
have or are about to get. `request` is what the last call of each thread asked for, and `asked` what
was asked for when a block was handed out. -/
structure Heap (T : Type) where
  pool : Pool T
  caches : TcPool T
  request : T → Nat
  asked : Nat → Nat
  fault : Option Fault

/-- The calls, and a thread going through the next statement of `TcPool.New()` or its next critical
section. `base` is the page of what `sbrk` gives if it is called. -/
inductive HeapAction (T : Type) where
  | ConcurrentAlloc (t : T) (size base : Nat)
  | ConcurrentFree (t : T) (ptr : Nat)
  | next (t : T) (base : Nat)

def HeapAction.thread {T : Type} : HeapAction T → T
  | .ConcurrentAlloc t _ _ => t
  | .ConcurrentFree t _ => t
  | .next t _ => t

/-- The chain whose first block goes to the user next. -/
def Place.handed : Place → List Nat
  | .fetched _ chain => chain
  | _ => []

/-- The thread is in `Allocate`. -/
def Place.allocates : Place → Bool
  | .fetching _ _ => true
  | .needSpan _ _ => true
  | .carving _ _ _ => true
  | .linking _ _ _ => true
  | .fetched _ _ => true
  | _ => false

/-- How many critical sections the call of a thread still takes, at most. -/
def Place.rank : Place → Nat
  | .idle => 0
  | .fetched _ _ => 1
  | .linking _ _ _ => 2
  | .carving _ _ _ => 3
  | .needSpan _ _ => 4
  | .fetching _ _ => 5
  | .releasing _ chain => 2 * chain.length + 1
  | .returning _ _ chain => 2 * chain.length + 2

namespace Heap

variable {T : Type}

def init : Heap T := ⟨Pool.init, TcPool.init, fun _ => 0, fun _ => 0, none⟩

def crash (s : Heap T) (f : Fault) : Heap T := { s with fault := some f }

/-- The first block of the chain is for a user who asked for `size` bytes. -/
def noted (asked : Nat → Nat) (size : Nat) : List Nat → Nat → Nat
  | obj :: _ => Function.update asked obj size
  | [] => asked

/-- The leaf of a page is there when a refill's `Ensure` has come to it. -/
def hasLeaf (c : PageCache) (k : Nat) : Bool :=
  c.regions.any fun b => b >>> LEAF_BITS ≤ k >>> LEAF_BITS ∧
    k >>> LEAF_BITS ≤ (b + (NPAGES - 1) <<< PAGE_SHIFT - 1) >>> LEAF_BITS

/-- A request above `MAXBYTES` with the assert of `round_up` compiled out: `-1` is returned, and
`sbrk` of `2 ^ 51 - 1` pages is `sbrk(-8192)`, which gives the break, at page `base`, and lowers it.
`set` follows the entry of its leaf, which only a refill makes. -/
def allocLarge (s : Heap T) (size base : Nat) : Heap T :=
  if hasLeaf s.pool.cache base = false then s.crash .nullPointer
  else
    match PageCache.new_Span 2 s.pool.cache (round_up size >>> PAGE_SHIFT) base with
    | none => s.crash .nullPointer
    | some (r, c) =>
      let ptr := (c.span r)._pageid <<< PAGE_SHIFT
      { s with
        pool := { s.pool with
          cache := c.setSpan r { c.span r with _objsize := size }
          inUse := r :: s.pool.inUse
          held := ptr :: s.pool.held }
        asked := Function.update s.asked ptr size }

/-- `ConcurrentFree` of a block above `MAXBYTES`. -/
def freeLarge (s : Heap T) (ptr r : Nat) : Heap T :=
  match s.pool.cache.relase_to_PageCache r with
  | none => s.crash .nullPointer
  | some c =>
    { s with pool := { s.pool with
      cache := c
      inUse := s.pool.inUse.erase r
      held := s.pool.held.erase ptr } }

variable [DecidableEq T]

/-- `tls_threadcache->Allocate`, up to its first critical section. -/
def Allocate (s : Heap T) (t : T) (size : Nat) : Heap T :=
  if index (round_up size) < NFREELIST then
    { s with
      pool := s.pool.Allocate t size
      asked := noted s.asked size ((s.pool.thread t)._freelist (index (round_up size))).chain }
  else s.crash .freelistIndex

/-- Up to its first critical section, or to `TcPool.New()` on the thread's first call. -/
def ConcurrentAlloc (asserts : Bool) (s : Heap T) (t : T) (size base : Nat) : Heap T :=
  if size > MAXBYTES then if asserts then s.crash .assertion else s.allocLarge size base
  else
    let s := { s with request := Function.update s.request t size }
    match s.caches.tls_threadcache t with
    | none => { s with caches := s.caches.moveTo t .check }
    | some _ => s.Allocate t size

/-- Up to its first critical section. -/
def ConcurrentFree (asserts : Bool) (s : Heap T) (t : T) (ptr : Nat) : Heap T :=
  match s.pool.map_object_to_Span ptr with
  | none => s.crash (.ofAssert asserts)
  | some r =>
    let size := (s.pool.cache.span r)._objsize
    let l := ((s.pool.thread t)._freelist (index size)).push ptr
    if size > MAXBYTES then s.freeLarge ptr r
    else if s.caches.tls_threadcache t = none then s.crash (.ofAssert asserts)
    else if ¬ index size < NFREELIST then s.crash .freelistIndex
    else if l._maxSize < l._size ∧ (l.PopRangeBuilt asserts l._maxSize).isNone then
      s.crash (.ofAssert asserts)
    else { s with pool := s.pool.deallocateSize t ptr size }

/-- The thread is in no call. -/
def Idle (s : Heap T) (t : T) : Prop := (s.pool.thread t).place = .idle ∧ s.caches.inNew t = none

instance (s : Heap T) (t : T) : Decidable (s.Idle t) := inferInstanceAs (Decidable (_ ∧ _))

/-- Memory that `sbrk` is asked for comes from `base` on. -/
def sbrkOk (s : Heap T) (t : T) (base : Nat) : Bool :=
  match s.caches.inNew t, (s.pool.thread t).place with
  | some .sbrk, _ => decide (s.caches.SbrkFresh base)
  | none, .needSpan size _ => decide (SbrkOk s.pool.cache (num_move_page size) base)
  | _, _ => true

/-- The next statement of `TcPool.New()`; with its cache the thread goes on to `Allocate`. -/
def nextNew (s : Heap T) (t : T) (base : Nat) (p : NewStep) : Heap T :=
  match s.caches.next t base p with
  | none => s.crash .sharedCache
  | some c =>
    let s := { s with caches := c }
    if (c.inNew t).isNone then s.Allocate t (s.request t) else s

/-- The next critical section. -/
def nextSection (s : Heap T) (t : T) (base : Nat) : Heap T :=
  match s.pool.advance t base with
  | none => s.crash .nullPointer
  | some p =>
    { s with
      pool := p
      asked := noted s.asked (s.request t) (s.pool.thread t).place.handed }

def next (s : Heap T) (t : T) (base : Nat) : Heap T :=
  match s.caches.inNew t with
  | some p => s.nextNew t base p
  | none => s.nextSection t base

def step (asserts : Bool) (s : Heap T) : HeapAction T → Option (Heap T)
  | .ConcurrentAlloc t size base =>
    if s.fault = none ∧ s.Idle t ∧ size < 2 ^ 64 then some (s.ConcurrentAlloc asserts t size base)
    else none
  | .ConcurrentFree t ptr =>
    if s.fault = none ∧ s.Idle t ∧ ptr ∈ s.pool.held then some (s.ConcurrentFree asserts t ptr)
    else none
  | .next t base =>
    if s.fault = none ∧ ¬ s.Idle t ∧ s.sbrkOk t base then some (s.next t base) else none

/-- How many steps the call of a thread still takes, at most. -/
def rank (s : Heap T) (t : T) : Nat :=
  match s.caches.inNew t with
  | some p => p.rank + 5
  | none => (s.pool.thread t).place.rank

/-- The block at `ptr` has the bytes that were asked for, in a span in use. -/
structure Serves (s : Heap T) (ptr r : Nat) : Prop where
  found : s.pool.map_object_to_Span ptr = some r
  used : (s.pool.cache.span r)._isUse = true
  start : (s.pool.cache.span r)._pageid <<< PAGE_SHIFT ≤ ptr
  stop : ptr + s.asked ptr ≤
    ((s.pool.cache.span r)._pageid + (s.pool.cache.span r)._npage) <<< PAGE_SHIFT
  large : s.asked ptr > MAXBYTES →
    (s.pool.cache.span r)._npage = (s.asked ptr + 2 ^ PAGE_SHIFT - 1) / 2 ^ PAGE_SHIFT

/-- The thread is in `ConcurrentAlloc`. -/
def Allocates (s : Heap T) (t : T) : Prop :=
  s.caches.inNew t ≠ none ∨ (s.pool.thread t).place.allocates = true

/-- A step of a `ConcurrentAlloc` that asks for `size` bytes: it is still asking for them, or the
user gets a block for so many. -/
def Answers (s s' : Heap T) (t : T) (size : Nat) : Prop :=
  s'.Allocates t ∧ s'.request t = size ∧ s'.pool.held = s.pool.held ∨
    s'.Idle t ∧ ∃ ptr, s'.pool.held = ptr :: s.pool.held ∧ s'.asked ptr = size

/-- The call of a thread is where it was. -/
structure Leaves (s s' : Heap T) (t : T) : Prop where
  request : s'.request t = s.request t
  thread : s'.pool.thread t = s.pool.thread t
  inNew : s'.caches.inNew t = s.caches.inNew t

/-- No call has ended the process, each thread has a thread cache of its own, every block handed
out is as it should be, and a thread in a call comes closer to its end with each of its steps and
stays where it is in the steps of others. A `ConcurrentAlloc` that does not end the process ends with
a block, and a `ConcurrentFree` takes it back. -/
structure Safe (asserts : Bool) (s : Heap T) : Prop where
  alive : s.fault = none
  own : ∀ t u a b, s.caches.tls_threadcache t = some a → s.caches.tls_threadcache u = some b →
    t ≠ u → a + sizeofThreadCache ≤ b ∨ b + sizeofThreadCache ≤ a
  blocks : ∀ ptr ∈ s.pool.held, ∃ r, s.Serves ptr r
  completes : ∀ t base, ¬ s.Idle t → s.sbrkOk t base → ∃ s',
    s.step asserts (.next t base) = some s' ∧ s'.fault = none ∧ s'.rank t < s.rank t
  others : ∀ a s' t, s.step asserts a = some s' → t ≠ a.thread → s.Leaves s' t
  begins : ∀ t size base s', s.step asserts (.ConcurrentAlloc t size base) = some s' →
    s'.fault = none → s.Answers s' t size
  answers : ∀ t base s', s.Allocates t → s.step asserts (.next t base) = some s' →
    s'.fault = none → s.Answers s' t (s.request t)
  frees : ∀ t ptr s', s.step asserts (.ConcurrentFree t ptr) = some s' →
    s'.fault = none → s'.pool.held = s.pool.held.erase ptr

end Heap

end Mymuduo.Memory
