import Mymuduo.Lib.Chains
import Mymuduo.Memory.ObjectPool
import Mymuduo.Memory.PageMap
import Mymuduo.Memory.PoolGrid

namespace Mymuduo.Memory

open Lib PageCache

/-! The free lists as the code has them: `_head`, `_objlist` and `start` are pointers, and the
links between the blocks are the first words of the blocks. `Pool` has the same lists as lists of
addresses; here it keeps the counters, the buckets and the page map. -/

/-- `NEXT_OBJ(obj) = next`. -/
def setNEXT_OBJ (mem : ByteMem) (obj next : Nat) : ByteMem := mem.store sizeofPtr obj next

/-- The loop of `fetch_range_obj`. -/
def fetchLoop (mem : ByteMem) : Nat → Nat → Nat → Nat × Nat
  | 0, end_, actualNum => (end_, actualNum)
  | n + 1, end_, actualNum =>
    if NEXT_OBJ mem end_ = 0 then (end_, actualNum)
    else fetchLoop mem n (NEXT_OBJ mem end_) (actualNum + 1)

/-- The loop of `get_one_Span`, with the null link behind it. -/
def carveLinks : Nat → ByteMem → Nat → Nat → Nat → Nat → ByteMem
  | 0, mem, tail, _, _, _ => setNEXT_OBJ mem tail 0
  | fuel + 1, mem, tail, start, stop, size =>
    if start < stop then
      let mem := setNEXT_OBJ mem tail start
      carveLinks fuel mem (NEXT_OBJ mem tail) (start + size) stop size
    else setNEXT_OBJ mem tail 0

/-- The variables that point to chains: `_head` of a thread's free list, `_objlist` of a span,
and `start` of the call a thread is in. -/
inductive Var (T : Type) where
  | _head (t : T) (i : Nat)
  | _objlist (r : Nat)
  | start (t : T)
  deriving DecidableEq

/-- Memory and the pointers into it. `end_` and `actualNum` are those of `fetch_range_obj`. -/
structure Pointers (T : Type) where
  mem : ByteMem
  var : Var T → Nat
  end_ : T → Nat
  actualNum : T → Nat

namespace Pointers

variable {T : Type} [DecidableEq T]

def push (p : Pointers T) (v : Var T) (obj : Nat) : Pointers T :=
  { p with
    mem := setNEXT_OBJ p.mem obj (p.var v)
    var := Function.update p.var v obj }

def pop (p : Pointers T) (v : Var T) : Pointers T :=
  { p with var := Function.update p.var v (NEXT_OBJ p.mem (p.var v)) }

/-- The chain from `v` up to `end_` goes to `start`. -/
def cut (p : Pointers T) (v : Var T) (t : T) (end_ : Nat) : Pointers T :=
  { p with
    mem := setNEXT_OBJ p.mem end_ 0
    var := Function.update (Function.update p.var v (NEXT_OBJ p.mem end_)) (.start t) (p.var v) }

def PopRange (p : Pointers T) (t : T) (i n : Nat) : Pointers T :=
  p.cut (._head t i) t ((NEXT_OBJ p.mem)^[Pool.decrement n] (p.var (._head t i)))

/-- `PushRange` from `start` on, after which the call returns. -/
def PushRange (p : Pointers T) (t : T) (i end_ : Nat) : Pointers T :=
  { p with
    mem := setNEXT_OBJ p.mem end_ (p.var (._head t i))
    var := Function.update (Function.update p.var (._head t i) (p.var (.start t))) (.start t) 0 }

/-- The rest of `fetch_range_obj` once it has a span. -/
def takeRange (p : Pointers T) (t : T) (num r : Nat) : Pointers T :=
  let e := fetchLoop p.mem (Pool.decrement num) (p.var (._objlist r)) 1
  { p.cut (._objlist r) t e.1 with
    end_ := Function.update p.end_ t e.1
    actualNum := Function.update p.actualNum t e.2 }

/-- The end of `fetch_from_CentralCache`. -/
def finishFetch (p : Pointers T) (t : T) (i : Nat) : Pointers T :=
  if p.actualNum t = 1 then { p with var := Function.update p.var (.start t) 0 }
  else (p.pop (.start t)).PushRange t i (p.end_ t)

def carve (p : Pointers T) (r : Nat) (x : Span) : Pointers T :=
  let start := x._pageid <<< PAGE_SHIFT
  let bytes := x._npage <<< PAGE_SHIFT
  { p with
    mem := carveLinks bytes p.mem start (start + x._objsize) (start + bytes) x._objsize
    var := Function.update p.var (._objlist r) start }

/-- One round of `release_list_to_Spans`' loop. -/
def releaseBlock (p : Pointers T) (t : T) (r : Nat) (last : Bool) : Pointers T :=
  let q := (p.pop (.start t)).push (._objlist r) (p.var (.start t))
  if last then { q with var := Function.update q.var (._objlist r) 0 } else q

end Pointers

/-- The pool with its memory. -/
structure LinkedPool (T : Type) where
  pool : Pool T
  ptrs : Pointers T

/-- A step of the pool, or a user who writes to a block. -/
inductive LinkedAction (T : Type) where
  | call (a : PoolAction T)
  | write (b x : Nat) (v : UInt8)

/-- The bytes of a block that are inside its span. -/
def Pool.Usable {T : Type} (s : Pool T) (b x : Nat) : Prop :=
  ∃ r ∈ s.carved, b ∈ s.own r ∧ b ≤ x ∧ x < b + (s.cache.span r)._objsize ∧
    x < (s.cache.span r).stop

instance {T : Type} (s : Pool T) (b x : Nat) : Decidable (s.Usable b x) :=
  inferInstanceAs (Decidable (∃ r ∈ s.carved, _ ∧ _))

namespace LinkedPool

variable {T : Type}

def init (mem : ByteMem) : LinkedPool T where
  pool := Pool.init
  ptrs := ⟨mem, fun _ => 0, fun _ => 0, fun _ => 0⟩

/-- `get_one_Span`'s search of the bucket. -/
def findSpan (s : LinkedPool T) (i : Nat) : Option Nat :=
  (s.pool._spanlist i).find? fun r => s.ptrs.var (._objlist r) != 0

variable [DecidableEq T]

/-- What the next critical section of a thread does to the pointers. -/
def advance (s : LinkedPool T) (t : T) : Option (Pointers T) :=
  match (s.pool.thread t).place with
  | .idle => none
  | .fetching size num =>
    match s.findSpan (index size) with
    | some r => some (s.ptrs.takeRange t num r)
    | none => some s.ptrs
  | .needSpan _ _ => some s.ptrs
  | .carving _ _ r => some (s.ptrs.carve r (s.pool.cache.span r))
  | .linking _ num r => some (s.ptrs.takeRange t num r)
  | .fetched size _ => some (s.ptrs.finishFetch t (index size))
  | .releasing _ _ =>
    if s.ptrs.var (.start t) = 0 then some s.ptrs
    else (s.pool.map_object_to_Span (s.ptrs.var (.start t))).map fun r =>
      s.ptrs.releaseBlock t r (Pool.decrement (s.pool.cache.span r)._usecount = 0)
  | .returning _ _ _ => some s.ptrs

/-- What a step does to the pointers. -/
def move (s : LinkedPool T) : PoolAction T → Option (Pointers T)
  | .Allocate t size =>
    let i := index (round_up size)
    if s.ptrs.var (._head t i) = 0 then some s.ptrs else some (s.ptrs.pop (._head t i))
  | .deallocate t ptr =>
    (s.pool.map_object_to_Span ptr).map fun r =>
      let i := index (s.pool.cache.span r)._objsize
      let l := (s.pool.thread t)._freelist i
      let p := s.ptrs.push (._head t i) ptr
      if l._maxSize < l._size + 1 then p.PopRange t i l._maxSize else p
  | .next t _ => s.advance t

/-- Users write to blocks they have. -/
def step (s : LinkedPool T) : LinkedAction T → Option (LinkedPool T)
  | .call a =>
    if a.NotNull then
      (s.pool.step a).bind fun pool => (s.move a).map fun ptrs => ⟨pool, ptrs⟩
    else none
  | .write b x v =>
    if b ∈ s.pool.held ∧ s.pool.Usable b x then
      some { s with ptrs := { s.ptrs with mem := Function.update s.ptrs.mem x v } }
    else none

end LinkedPool

end Mymuduo.Memory
