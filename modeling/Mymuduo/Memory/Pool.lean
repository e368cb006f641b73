import Mymuduo.Lib.Run
import Mymuduo.Memory.PageRun
import Mymuduo.Memory.SizeClass

namespace Mymuduo.Memory

open PageCache

/-- `class FreeList`; its chain of blocks is a list. -/
structure FreeList where
  chain : List Nat
  _maxSize : Nat
  _size : Nat

namespace FreeList

def empty : FreeList := ⟨[], 1, 0⟩

def push (l : FreeList) (obj : Nat) : FreeList :=
  { l with chain := obj :: l.chain, _size := l._size + 1 }

def PushRange (l : FreeList) (objs : List Nat) : FreeList :=
  { l with chain := objs ++ l.chain, _size := l._size + objs.length }

/-- `PopRange` with its assert compiled out. -/
def PopRange (l : FreeList) (n : Nat) : List Nat × FreeList :=
  (l.chain.take n, { l with chain := l.chain.drop n, _size := l._size - n })

end FreeList

/-- The addresses that `get_one_Span`'s loop chains after the first one. -/
def carveLoop : Nat → Nat → Nat → Nat → List Nat
  | 0, _, _, _ => []
  | fuel + 1, start, stop, size =>
    if start < stop then start :: carveLoop fuel (start + size) stop size else []

/-- The block addresses that `get_one_Span` carves from a span. The loop runs at most once
for each byte. -/
def Span.blocks (s : Span) : List Nat :=
  let start := s._pageid <<< PAGE_SHIFT
  let bytes := s._npage <<< PAGE_SHIFT
  start :: carveLoop bytes (start + s._objsize) (start + bytes) s._objsize

/-- Where a thread is between two critical sections: before the bucket lock of
`fetch_range_obj`; in `get_one_Span`, before the page cache's lock, with a span nobody else
sees, or before the bucket lock is taken again; back from `fetch_range_obj` with a chain; in
the loop of `release_list_to_Spans`, and there before the page cache's lock, with a span
whose blocks are all back. `size` is the size class of the call and `num` the number of
blocks to bring. -/
inductive Place where
  | idle
  | fetching (size num : Nat)
  | needSpan (size num : Nat)
  | carving (size num r : Nat)
  | linking (size num r : Nat)
  | fetched (size : Nat) (chain : List Nat)
  | releasing (size : Nat) (chain : List Nat)
  | returning (size r : Nat) (chain : List Nat)
  deriving DecidableEq

namespace Place

/-- The blocks of a thread that are on none of its free lists. -/
def chain : Place → List Nat
  | fetched _ chain => chain
  | releasing _ chain => chain
  | returning _ _ chain => chain
  | _ => []

/-- A span that the thread has, and that has no blocks. -/
def bare : Place → List Nat
  | carving _ _ r => [r]
  | returning _ r _ => [r]
  | _ => []

/-- A span with blocks that the thread has not linked yet. -/
def unlinked : Place → List Nat
  | linking _ _ r => [r]
  | _ => []

end Place

/-- `class ThreadCache`, with the place of its thread. -/
structure ThreadCache where
  _freelist : Nat → FreeList
  place : Place

/-- All the blocks that a thread has. -/
def ThreadCache.blocks (c : ThreadCache) : List Nat :=
  ((List.range NFREELIST).flatMap fun i => (c._freelist i).chain) ++ c.place.chain

/-- The three caches and the threads `T`. `inUse` are the spans that `new_Span` has given and
`relase_to_PageCache` has not got back, `carved` those of them that have blocks, and `held`
the blocks that users have. -/
structure Pool (T : Type) where
  cache : PageCache
  _spanlist : Nat → List Nat
  thread : T → ThreadCache
  inUse : List Nat
  carved : List Nat
  held : List Nat

/-- The steps: the calls of users, and a thread going through its next critical section.
`base` is what `sbrk` gives if it is called. -/
inductive PoolAction (T : Type) where
  | Allocate (t : T) (size : Nat)
  | deallocate (t : T) (ptr : Nat)
  | next (t : T) (base : Nat)

namespace Pool

variable {T : Type}

def init : Pool T where
  cache := PageCache.init
  _spanlist := fun _ => []
  thread := fun _ => ⟨fun _ => FreeList.empty, .idle⟩
  inUse := []
  carved := []
  held := []

/-- `map_object_to_Span`. -/
def map_object_to_Span (s : Pool T) (obj : Nat) : Option Nat := s.cache.get (obj >>> PAGE_SHIFT)

variable [DecidableEq T]

def setThread (s : Pool T) (t : T) (c : ThreadCache) : Pool T :=
  { s with thread := Function.update s.thread t c }

def setPlace (s : Pool T) (t : T) (p : Place) : Pool T :=
  s.setThread t { s.thread t with place := p }

def setFreeList (s : Pool T) (t : T) (i : Nat) (l : FreeList) : Pool T :=
  s.setThread t { s.thread t with _freelist := Function.update (s.thread t)._freelist i l }

def setSpan (s : Pool T) (r : Nat) (x : Span) : Pool T := { s with cache := s.cache.setSpan r x }

/-- `fetch_from_CentralCache`, up to the call of `fetch_range_obj`. -/
def startFetch (s : Pool T) (t : T) (i size : Nat) : Pool T :=
  let l := (s.thread t)._freelist i
  let num := min (num_move_size size) l._maxSize
  (s.setFreeList t i { l with
    _maxSize := if num = l._maxSize then l._maxSize + 1 else l._maxSize }).setPlace t
      (.fetching size num)

def Allocate (s : Pool T) (t : T) (size : Nat) : Pool T :=
  let i := index (round_up size)
  let l := (s.thread t)._freelist i
  match l.chain with
  | obj :: rest =>
    { s.setFreeList t i { l with chain := rest, _size := l._size - 1 } with held := obj :: s.held }
  | [] => s.startFetch t i (round_up size)

/-- `deallocate` on the size class of `size`: too long a list gives up `maxSize` blocks. -/
def deallocateSize (s : Pool T) (t : T) (ptr size : Nat) : Pool T :=
  let i := index size
  let l := ((s.thread t)._freelist i).push ptr
  let s := { s with held := s.held.erase ptr }
  if l._maxSize < l._size then
    (s.setFreeList t i (l.PopRange l._maxSize).2).setPlace t
      (.releasing size (l.PopRange l._maxSize).1)
  else s.setFreeList t i l

/-- `ConcurrentFree`: the size class comes from the span that the page map gives. -/
def deallocate (s : Pool T) (t : T) (ptr : Nat) : Option (Pool T) :=
  (s.map_object_to_Span ptr).map fun r => s.deallocateSize t ptr (s.cache.span r)._objsize

/-- The rest of `fetch_range_obj` once it has a span. -/
def takeRange (s : Pool T) (t : T) (size num r : Nat) : Pool T :=
  let x := s.cache.span r
  let chain := x._objlist.take num
  (s.setSpan r { x with
    _objlist := x._objlist.drop num
    _usecount := x._usecount + chain.length }).setPlace t (.fetched size chain)

/-- `get_one_Span`'s search of the bucket. -/
def findSpan (s : Pool T) (i : Nat) : Option Nat :=
  (s._spanlist i).find? fun r => (s.cache.span r)._objlist != []

def fetch_range_obj (s : Pool T) (t : T) (size num : Nat) : Pool T :=
  match s.findSpan (index size) with
  | some r => s.takeRange t size num r
  | none => s.setPlace t (.needSpan size num)

/-- `get_one_Span`'s critical section of the page cache. -/
def newSpan (s : Pool T) (t : T) (size num base : Nat) : Option (Pool T) :=
  (PageCache.new_Span 2 s.cache (num_move_page size) base).map fun (r, c) =>
    { s with
      cache := c.setSpan r { c.span r with _isUse := true, _objsize := size }
      inUse := r :: s.inUse }.setPlace t (.carving size num r)

def carve (s : Pool T) (t : T) (size num r : Nat) : Pool T :=
  let x := s.cache.span r
  { s.setSpan r { x with _objlist := x.blocks } with carved := r :: s.carved }.setPlace t
    (.linking size num r)

def linkSpan (s : Pool T) (t : T) (size num r : Nat) : Pool T :=
  let i := index size
  { s with _spanlist := Function.update s._spanlist i (r :: s._spanlist i) }.takeRange t size num r

/-- The end of `fetch_from_CentralCache`: the first block is for the user. -/
def finishFetch (s : Pool T) (t : T) (size : Nat) : List Nat → Option (Pool T)
  | [] => none
  | obj :: rest =>
    let i := index size
    let s := { s with held := obj :: s.held }
    let s := if rest = [] then s else s.setFreeList t i (((s.thread t)._freelist i).PushRange rest)
    some (s.setPlace t .idle)

/-- The last block of a span has come back: the span leaves its bucket without blocks. -/
def retire (s : Pool T) (t : T) (size r : Nat) (rest : List Nat) : Pool T :=
  let i := index size
  { s.setSpan r { s.cache.span r with _objlist := [] } with
    _spanlist := Function.update s._spanlist i ((s._spanlist i).erase r)
    carved := s.carved.erase r }.setPlace t (.returning size r rest)

/-- `_usecount--`, which wraps around at 0. -/
def decrement : Nat → Nat
  | 0 => 2 ^ 64 - 1
  | n + 1 => n

/-- One round of `release_list_to_Spans`' loop. -/
def releaseBlock (s : Pool T) (t : T) (size obj : Nat) (rest : List Nat) : Option (Pool T) :=
  (s.map_object_to_Span obj).map fun r =>
    let x := s.cache.span r
    let s := s.setSpan r { x with
      _objlist := obj :: x._objlist
      _usecount := decrement x._usecount }
    if decrement x._usecount = 0 then s.retire t size r rest
    else s.setPlace t (.releasing size rest)

def returnSpan (s : Pool T) (t : T) (size r : Nat) (rest : List Nat) : Option (Pool T) :=
  (s.cache.relase_to_PageCache r).map fun c =>
    { s with cache := c, inUse := s.inUse.erase r }.setPlace t (.releasing size rest)

/-- The next critical section of a thread. -/
def advance (s : Pool T) (t : T) (base : Nat) : Option (Pool T) :=
  match (s.thread t).place with
  | .idle => none
  | .fetching size num => some (s.fetch_range_obj t size num)
  | .needSpan size num =>
    if SbrkOk s.cache (num_move_page size) base then s.newSpan t size num base else none
  | .carving size num r => some (s.carve t size num r)
  | .linking size num r => some (s.linkSpan t size num r)
  | .fetched size chain => s.finishFetch t size chain
  | .releasing _ [] => some (s.setPlace t .idle)
  | .releasing size (obj :: rest) => s.releaseBlock t size obj rest
  | .returning size r rest => s.returnSpan t size r rest

def step (s : Pool T) : PoolAction T → Option (Pool T)
  | .Allocate t size =>
    if (s.thread t).place = .idle ∧ 1 ≤ size ∧ size ≤ MAXBYTES then some (s.Allocate t size)
    else none
  | .deallocate t ptr =>
    if (s.thread t).place = .idle ∧ ptr ∈ s.held then s.deallocate t ptr else none
  | .next t base => s.advance t base

end Pool

end Mymuduo.Memory
