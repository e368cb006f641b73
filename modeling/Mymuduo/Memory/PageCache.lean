import Mymuduo.Lib.Partition

namespace Mymuduo.Memory

def NPAGES : Nat := 129
def PAGE_SHIFT : Nat := 13

/-- The `BITS` of the page map: 48 address bits without those of a page. -/
def BITS : Nat := 48 - PAGE_SHIFT

/-- `struct Span`. Its links are the order of the list it is in, and `_objlist` is the chain
of block addresses that starts there. -/
structure Span where
  _pageid : Nat
  _npage : Nat
  _objlist : List Nat
  _objsize : Nat
  _usecount : Nat
  _isUse : Bool

/-- The pages a span covers. -/
def Span.pages (s : Span) : List Nat := List.range' s._pageid s._npage

/-- The last page of a span that is not empty. -/
def Span.last (s : Span) : Nat := s._pageid + s._npage - 1

/-- `class PageCache`. Span objects are named by their addresses; `_freeList` and `_memory`
are those of `_spanPool`, which takes the object at `_memory` when `_freeList` is empty.
`regions` records the first page of every region that a refill got from `sbrk`, and
`breaks` the addresses handed to `brk`. -/
structure PageCache where
  span : Nat → Span
  _pagelist : Nat → List Nat
  _freeList : List Nat
  _memory : Nat
  _id_span_map : Nat → Option Nat
  regions : List Nat
  breaks : List Nat

namespace PageCache

def init : PageCache where
  span := fun _ => ⟨0, 0, [], 0, 0, false⟩
  _pagelist := fun _ => []
  _freeList := []
  _memory := 1
  _id_span_map := fun _ => none
  regions := []
  breaks := []

def setSpan (c : PageCache) (r : Nat) (s : Span) : PageCache :=
  { c with span := Function.update c.span r s }

/-- `_id_span_map.set`, for a page whose leaf exists. -/
def set (c : PageCache) (k r : Nat) : PageCache :=
  { c with _id_span_map := Function.update c._id_span_map k (some r) }

/-- `_id_span_map.get`. -/
def get (c : PageCache) (k : Nat) : Option Nat :=
  if k >>> BITS > 0 then none else c._id_span_map k

def push_front (c : PageCache) (k r : Nat) : PageCache :=
  { c with _pagelist := Function.update c._pagelist k (r :: c._pagelist k) }

def erase (c : PageCache) (k r : Nat) : PageCache :=
  { c with _pagelist := Function.update c._pagelist k ((c._pagelist k).erase r) }

/-- The object that `_spanPool.New()` returns next. -/
def newRef (c : PageCache) : Nat := c._freeList.headD c._memory

/-- `new(obj) Span` runs the initialisers of the members that have one. -/
def construct (s : Span) : Span :=
  { s with _objlist := [], _objsize := 0, _usecount := 0, _isUse := false }

/-- `_spanPool.New()`. -/
def New (c : PageCache) : PageCache :=
  { c with
    span := Function.update c.span c.newRef (construct (c.span c.newRef))
    _freeList := c._freeList.tail
    _memory := if c._freeList = [] then c._memory + 1 else c._memory }

/-- `_spanPool.Delete(r)`, which keeps its link in the first word of the object. -/
def Delete (c : PageCache) (r : Nat) : PageCache :=
  { c with
    span := Function.update c.span r { c.span r with _pageid := c._freeList.headD 0 }
    _freeList := r :: c._freeList }

/-- The branch of `new_Span` for a bucket that holds a span of the wanted size: its loop
sets the entry of the first page, once for every page. -/
def takeExact (c : PageCache) (n r : Nat) : PageCache :=
  (List.range (c.span r)._npage).foldl (fun c _ => c.set (c.span r)._pageid r) (c.erase n r)

/-- The two spans of the branch of `new_Span` that cuts one: `r` keeps the rear pages and
`b` gets the `n` front ones. -/
def cutSpan (c : PageCache) (n r b : Nat) : PageCache :=
  (c.setSpan b { c.span b with _pageid := (c.span r)._pageid, _npage := n }).setSpan r
    { c.span r with
      _pageid := (c.span r)._pageid + n
      _npage := (c.span r)._npage - n }

/-- Entries for both ends of a span. -/
def setEnds (c : PageCache) (r : Nat) : PageCache :=
  (c.set (c.span r)._pageid r).set (c.span r).last r

/-- An entry for every page of a span. -/
def setAll (c : PageCache) (r : Nat) : PageCache :=
  (List.range (c.span r)._npage).foldl (fun c i => c.set ((c.span r)._pageid + i) r) c

/-- The branch of `new_Span` that cuts the front span `r` of bucket `i`. -/
def takeCut (c : PageCache) (n i r : Nat) : PageCache :=
  let b := c.newRef
  let c := (c.New.erase i r).cutSpan n r b
  let c := c.push_front (c.span r)._npage r
  (c.setEnds r).setAll b

/-- The refill branch of `new_Span`, up to its recursive call; `sbrk` gave the region
whose first page is `base`. -/
def refill (c : PageCache) (base : Nat) : PageCache :=
  let b := c.newRef
  let c := c.New
  let c := c.setSpan b { c.span b with
    _pageid := base
    _npage := NPAGES - 1
    _objsize := (NPAGES - 1) <<< PAGE_SHIFT }
  { c.push_front (NPAGES - 1) b with regions := base :: c.regions }

/-- The first bucket from `n` on that holds a span, with its front span. -/
def firstBucket (c : PageCache) (n : Nat) : Option (Nat × Nat) :=
  (List.range' n (NPAGES - n)).findSome? fun i => (c._pagelist i).head?.map fun r => (i, r)

/-- The branch of `new_Span` for a request that no bucket is meant for. -/
def takeLarge (c : PageCache) (n base : Nat) : PageCache :=
  let b := c.newRef
  let c := c.New
  (c.setSpan b { c.span b with
    _pageid := base
    _npage := n
    _objsize := n <<< PAGE_SHIFT }).set base b

/-- `new_Span`, where `sbrk` gives memory from page `base` on if it is called. The first
argument bounds the recursion, which the code takes once at most. -/
def new_Span : Nat → PageCache → Nat → Nat → Option (Nat × PageCache)
  | 0, _, _, _ => none
  | depth + 1, c, n, base =>
    if n ≥ NPAGES then some (c.newRef, c.takeLarge n base)
    else
      match c.firstBucket n with
      | some (i, r) =>
        if i = n then some (r, c.takeExact n r) else some (c.newRef, c.takeCut n i r)
      | none => new_Span depth (c.refill base) n base

/-- One merge of `relase_to_PageCache`: the span at `r` becomes `s`, which takes over the
pages of `ret`. -/
def absorb (c : PageCache) (r ret : Nat) (s : Span) : PageCache :=
  let c := c.setSpan r s
  (c.erase (c.span ret)._npage ret).Delete ret

/-- The `prevId` of `relase_to_PageCache`; 0 - 1 wraps around in 64 bits. -/
def prevId (c : PageCache) (r : Nat) : Nat :=
  match (c.span r)._pageid with
  | 0 => 2 ^ 64 - 1
  | p + 1 => p

def nextId (c : PageCache) (r : Nat) : Nat := (c.span r)._pageid + (c.span r)._npage

/-- `relase_to_PageCache`'s first loop, one round for each unit of `fuel`: `none` if the
fuel does not last. -/
def mergeBack : Nat → PageCache → Nat → Option PageCache
  | 0, _, _ => none
  | fuel + 1, c, r =>
    match c.get (c.prevId r) with
    | none => some c
    | some ret =>
      if (c.span ret)._isUse then some c
      else if (c.span ret)._npage + (c.span r)._npage ≥ NPAGES then some c
      else
        mergeBack fuel (c.absorb r ret { c.span r with
          _pageid := (c.span ret)._pageid
          _npage := (c.span r)._npage + (c.span ret)._npage }) r

/-- `relase_to_PageCache`'s second loop. -/
def mergeForward : Nat → PageCache → Nat → Option PageCache
  | 0, _, _ => none
  | fuel + 1, c, r =>
    match c.get (c.nextId r) with
    | none => some c
    | some ret =>
      if (c.span ret)._isUse then some c
      else if (c.span ret)._npage + (c.span r)._npage ≥ NPAGES then some c
      else
        mergeForward fuel (c.absorb r ret { c.span r with
          _npage := (c.span r)._npage + (c.span ret)._npage }) r

/-- The end of `relase_to_PageCache`: the merged span goes to its bucket. -/
def link (c : PageCache) (r : Nat) : PageCache :=
  let c := c.push_front (c.span r)._npage r
  (c.setSpan r { c.span r with _isUse := false }).setEnds r

/-- `SystemFree_brk` of the span's memory. -/
def releaseLarge (c : PageCache) (r : Nat) : PageCache :=
  { c with breaks := (c.span r)._pageid <<< PAGE_SHIFT :: c.breaks }.Delete r

def relase_to_PageCache (c : PageCache) (r : Nat) : Option PageCache :=
  if (c.span r)._npage ≥ NPAGES then some (c.releaseLarge r)
  else ((mergeBack NPAGES c r).bind (mergeForward NPAGES · r)).map (link · r)

/-- The pages of all regions got from `sbrk`. -/
def regionPages (c : PageCache) : List Nat :=
  c.regions.flatMap fun base => List.range' base (NPAGES - 1)

/-- All spans linked in `_pagelist`. -/
def linked (c : PageCache) : List Nat := (List.range NPAGES).flatMap c._pagelist

def pages (c : PageCache) (r : Nat) : List Nat := (c.span r).pages

end PageCache

end Mymuduo.Memory
