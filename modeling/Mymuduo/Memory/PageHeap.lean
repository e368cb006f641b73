import Mymuduo.Memory.PageRun
import Mymuduo.Memory.RadixEnsure

namespace Mymuduo.Memory

open Lib

/-- `sizeof(Span)`. -/
def sizeofSpan : Nat := 64

/-- The page cache with the memory it works in. `cache` has the spans, the buckets and the free
objects of `_spanPool`; `_id_span_map` is the radix tree of `mem` and not the field of `cache`.
`built` records the first page and the size of every span built from an answer of `sbrk`. -/
structure PageHeap where
  cache : PageCache
  remainBytes : Nat
  mem : MapHeap
  built : List (Nat × Nat)

namespace PageHeap

/-- The page cache of a process that has the data segment `seg`. -/
def init (seg : Segment) : PageHeap := ⟨PageCache.init, 0, ⟨TCMalloc_PageMap3.init, seg⟩, []⟩

/-- The pointer to a span object. -/
def toPtr (r : Nat) : Nat := r + 1

/-- What `_id_span_map.get` finds. -/
def lookup (h : PageHeap) (k : Nat) : Option Nat :=
  match h.mem.map.get k with
  | 0 => none
  | r + 1 => some r

/-- The page cache as those see it who read its page map. -/
def view (h : PageHeap) : PageCache := { h.cache with _id_span_map := h.lookup }

abbrev Exec (α : Type) := EStateM Crash PageHeap α

def onMem {α : Type} (x : EStateM Crash MapHeap α) : Exec α :=
  within PageHeap.mem (fun h m => { h with mem := m }) x

def change (f : PageCache → PageCache) : Exec Unit := fun h => .ok () { h with cache := f h.cache }

/-- `_id_span_map.set`. -/
def set (k r : Nat) : Exec Unit := fun h =>
  match h.mem.map.set k (toPtr r) with
  | .ok m => .ok () { h with mem := { h.mem with map := m } }
  | .error e => .error e h

def setEach (r : Nat) : List Nat → Exec Unit
  | [] => pure ()
  | k :: ks => do
    set k r
    setEach r ks

def setEnds (r : Nat) : Exec Unit := fun h =>
  setEach r [(h.cache.span r)._pageid, (h.cache.span r).last] h

def setAll (r : Nat) : Exec Unit := fun h =>
  setEach r ((List.range (h.cache.span r)._npage).map fun i => (h.cache.span r)._pageid + i) h

section Calls

variable (os : Sbrk)

/-- The bytes that `_spanPool` asks for at once. -/
def chunkBytes : Nat := 128 * 1024

/-- A new chunk for `_spanPool`; the constructor of its first object writes to it. -/
def newChunk : Exec Unit := do
  (fun h => .ok () { h with remainBytes := chunkBytes } : Exec Unit)
  let _memory ← onMem (MapHeap.alloc os .chunk (chunkBytes >>> 13))
  onMem (MapHeap.touch _memory)

def needChunk : Exec Unit := fun h =>
  if h.cache._freeList = [] ∧ h.remainBytes < sizeofSpan then newChunk os h else .ok () h

def takeObject : Exec Nat := fun h =>
  .ok h.cache.newRef { h with
    cache := h.cache.New
    remainBytes := if h.cache._freeList = [] then h.remainBytes - sizeofSpan else h.remainBytes }

/-- `_spanPool.New()`. -/
def New : Exec Nat := do
  needChunk os
  takeObject

/-- The span at `b` describes `n` pages from the address `ptr` on. -/
def build (b ptr n : Nat) : Exec Unit := fun h =>
  .ok () { h with
    cache := h.cache.setSpan b { h.cache.span b with
      _pageid := ptr >>> PAGE_SHIFT
      _npage := n
      _objsize := (n <<< PAGE_SHIFT) % 2 ^ 64 }
    built := (ptr >>> PAGE_SHIFT, n) :: h.built }

def takeExact (n r : Nat) : Exec Nat := fun h => (do
  change (·.erase n r)
  setEach r ((List.range (h.cache.span r)._npage).map fun _ => (h.cache.span r)._pageid)
  return r : Exec Nat) h

def takeCut (n i r : Nat) : Exec Nat := do
  let b ← New os
  change fun c => (c.erase i r).cutSpan n r b
  change fun c => c.push_front (c.span r)._npage r
  setEnds r
  setAll b
  return b

/-- The refill branch of `new_Span`, up to its recursive call. It passes the bytes of the new
span to `Ensure`, and does not look at the answer. -/
def refill : Exec Unit := do
  let b ← New os
  let ptr ← onMem (MapHeap.alloc os .span (NPAGES - 1))
  build b ptr (NPAGES - 1)
  let _ ← onMem (MapHeap.Ensure os (ptr >>> PAGE_SHIFT) ((NPAGES - 1) <<< PAGE_SHIFT))
  change fun c => { c.push_front (NPAGES - 1) b with regions := ptr >>> PAGE_SHIFT :: c.regions }

/-- The branch of `new_Span` for a request that no bucket is meant for. -/
def takeLarge (n : Nat) : Exec Nat := do
  let ptr ← onMem (MapHeap.alloc os .span n)
  let b ← New os
  build b ptr n
  set (ptr >>> PAGE_SHIFT) b
  return b

/-- `new_Span`. The first argument bounds the recursion. -/
def new_Span : Nat → Nat → Exec Nat
  | 0, _ => throw .endless
  | depth + 1, n => fun h =>
    if n ≥ NPAGES then takeLarge os n h
    else
      match h.cache.firstBucket n with
      | some (i, r) => if i = n then takeExact n r h else takeCut os n i r h
      | none => (do
        refill os
        new_Span depth n : Exec Nat) h

/-- The end of `relase_to_PageCache`: the merged span goes to its bucket. -/
def link (r : Nat) : Exec Unit := do
  change fun c => c.push_front (c.span r)._npage r
  change fun c => c.setSpan r { c.span r with _isUse := false }
  setEnds r

def releaseLarge (r : Nat) : Exec Unit := fun h =>
  .ok () { h with
    cache := h.cache.releaseLarge r
    mem := { h.mem with
      seg := h.mem.seg.SystemFree_brk ((h.cache.span r)._pageid <<< PAGE_SHIFT) } }

def relase_to_PageCache (r : Nat) : Exec Unit := fun h =>
  if (h.cache.span r)._npage ≥ NPAGES then releaseLarge r h
  else
    match (PageCache.mergeBack NPAGES h.view r).bind (PageCache.mergeForward NPAGES · r) with
    | none => .error .endless h
    | some c => link r { h with cache := c }

end Calls

end PageHeap

end Mymuduo.Memory
