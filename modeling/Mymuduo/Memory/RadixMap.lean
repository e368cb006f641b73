import Mymuduo.Lib.Run
import Mymuduo.Memory.PageCache
import Mymuduo.Memory.Sbrk

namespace Mymuduo.Memory

open Lib

def HUGEPAGESHIIFT : Nat := 21
def HUGEPAGESIZE : Nat := 1 <<< HUGEPAGESHIIFT

def INTERIOR_BITS : Nat := (BITS + 2) / 3
def INTERIOR_LENGTH : Nat := 1 <<< INTERIOR_BITS
def LEAF_BITS : Nat := BITS - 2 * INTERIOR_BITS
def LEAF_LENGTH : Nat := 1 <<< LEAF_BITS
def LEAFCOVEREDBYTES : Nat := 1 <<< (INTERIOR_BITS + PAGE_SHIFT)
def LEAFHUGEPAGES : Nat := LEAFCOVEREDBYTES / HUGEPAGESIZE

/-- `sizeof(Node)`: one array of pointers. -/
def sizeofNode : Nat := 8 * INTERIOR_LENGTH

/-- `sizeof(Leaf)`: the arrays `sizeclass`, `span` and `value`. -/
def sizeofLeaf : Nat := INTERIOR_LENGTH + 8 * INTERIOR_LENGTH + 8 * LEAFHUGEPAGES

def i1 (k : Nat) : Nat := k >>> (LEAF_BITS + INTERIOR_BITS)
def i2 (k : Nat) : Nat := (k >>> LEAF_BITS) &&& (INTERIOR_LENGTH - 1)
def i3 (k : Nat) : Nat := k &&& (LEAF_LENGTH - 1)

/-- `TCMalloc_PageMap3<BITS>` with the memory of its nodes and leaves: `leafs` is that array
of the node at an address, and `span` that of the leaf at an address. The null pointer is 0. -/
structure TCMalloc_PageMap3 where
  root_ : Nat → Nat
  leafs : Nat → Nat → Nat
  span : Nat → Nat → Nat
  bytes_used_ : Nat

namespace TCMalloc_PageMap3

def init : TCMalloc_PageMap3 := ⟨fun _ => 0, fun _ _ => 0, fun _ _ => 0, 0⟩

/-- The leaf that a key leads to, behind a node that exists. -/
def leaf (m : TCMalloc_PageMap3) (k : Nat) : Nat := m.leafs (m.root_ (i1 k)) (i2 k)

/-- The node and the leaf of a key exist. -/
def HasLeaf (m : TCMalloc_PageMap3) (k : Nat) : Prop := m.root_ (i1 k) ≠ 0 ∧ m.leaf k ≠ 0

instance (m : TCMalloc_PageMap3) (k : Nat) : Decidable (m.HasLeaf k) :=
  inferInstanceAs (Decidable (_ ∧ _))

def set (m : TCMalloc_PageMap3) (k s : Nat) : Except Crash TCMalloc_PageMap3 :=
  if k >>> BITS ≠ 0 then .error .badKey
  else if m.HasLeaf k then
    .ok { m with
      span := Function.update m.span (m.leaf k) (Function.update (m.span (m.leaf k)) (i3 k) s) }
  else .error .nullNode

def get (m : TCMalloc_PageMap3) (k : Nat) : Nat :=
  if k >>> BITS > 0 ∨ m.root_ (i1 k) = 0 ∨ m.leaf k = 0 then 0 else m.span (m.leaf k) (i3 k)

end TCMalloc_PageMap3

/-- The page map and the data segment that its nodes and leaves come from. -/
structure MapHeap where
  map : TCMalloc_PageMap3
  seg : Segment

namespace MapHeap

section Ensure

variable (os : Sbrk)

def alloc (p : Purpose) (kpage : Nat) : EStateM Crash MapHeap Nat :=
  within MapHeap.seg (fun m s => { m with seg := s }) (Segment.SystemAlloc_sbrk os p kpage)

def count (bytes : Nat) : EStateM Crash MapHeap Unit := fun m =>
  .ok () { m with map := { m.map with bytes_used_ := m.map.bytes_used_ + bytes } }

/-- The first write of `memset` at `ptr`. -/
def touch (ptr : Nat) : EStateM Crash MapHeap Unit := fun m =>
  if ptr = SBRK_FAILED then .error .wildWrite m else .ok () m

/-- The entry `i` of `root_` gets a node with null pointers. -/
def putNode (i node : Nat) : EStateM Crash MapHeap Unit := fun m =>
  .ok () { m with map := { m.map with
    root_ := Function.update m.map.root_ i node
    leafs := Function.update m.map.leafs node fun _ => 0 } }

/-- The node of `key` gets a leaf with null pointers. -/
def putLeaf (key leaf : Nat) : EStateM Crash MapHeap Unit := fun m =>
  let node := m.map.root_ (i1 key)
  .ok () { m with map := { m.map with
    leafs := Function.update m.map.leafs node (Function.update (m.map.leafs node) (i2 key) leaf)
    span := Function.update m.map.span leaf fun _ => 0 } }

def newNode (key : Nat) : EStateM Crash MapHeap Unit := do
  let node ← alloc os .node sizeofNode
  count sizeofNode
  touch node
  putNode (i1 key) node

def newLeaf (key : Nat) : EStateM Crash MapHeap Unit := do
  let leaf ← alloc os .leaf sizeofLeaf
  count sizeofLeaf
  touch leaf
  putLeaf key leaf

def needNode (key : Nat) : EStateM Crash MapHeap Unit := fun m =>
  if m.map.root_ (i1 key) = 0 then newNode os key m else .ok () m

def needLeaf (key : Nat) : EStateM Crash MapHeap Unit := fun m =>
  if m.map.leaf key = 0 then newLeaf os key m else .ok () m

/-- The body of `Ensure`'s loop, for a key inside the range of the map. -/
def visit (key : Nat) : EStateM Crash MapHeap Unit := do
  needNode os key
  needLeaf os key

/-- The first key of the next leaf. -/
def nextKey (key : Nat) : Nat := ((key >>> LEAF_BITS) + 1) <<< LEAF_BITS

/-- `Ensure`'s loop, one round for each unit of fuel. -/
def ensureLoop : Nat → Nat → Nat → EStateM Crash MapHeap Bool
  | 0, _, _ => throw .endless
  | fuel + 1, key, last =>
    if key ≤ last then
      if i1 key ≥ INTERIOR_LENGTH ∨ i2 key ≥ INTERIOR_LENGTH then pure false
      else do
        visit os key
        ensureLoop fuel (nextKey key) last
    else pure true

/-- `start + n - 1`, in 64 bits. -/
def lastKey (start n : Nat) : Nat := (start + n + (2 ^ 64 - 1)) % 2 ^ 64

/-- `Ensure`. The fuel is one more than the number of leaves that the map can have. -/
def Ensure (start n : Nat) : EStateM Crash MapHeap Bool :=
  ensureLoop os (INTERIOR_LENGTH * INTERIOR_LENGTH + 1) start (lastKey start n)

end Ensure

end MapHeap

/-! The split of a key: each leaf has 2048 keys of its own, and each node 4096 leaves. -/

theorem shift_leaf (k : Nat) : k >>> LEAF_BITS = k / 2048 := Nat.shiftRight_eq_div_pow k 11

theorem i1_eq (k : Nat) : i1 k = k / 2048 / 4096 := by
  have h : i1 k = k / 2 ^ 23 := Nat.shiftRight_eq_div_pow k 23
  rw [h]
  omega

theorem i2_eq (k : Nat) : i2 k = k / 2048 % 4096 := by
  have h : i2 k = k >>> LEAF_BITS &&& (2 ^ 12 - 1) := rfl
  rw [h, Nat.and_two_pow_sub_one_eq_mod, shift_leaf]

theorem i3_eq (k : Nat) : i3 k = k % 2048 := Nat.and_two_pow_sub_one_eq_mod k 11

theorem shift_bits_pos {k : Nat} : k >>> BITS > 0 ↔ 2 ^ 35 ≤ k := by
  have h : k >>> BITS = k / 2 ^ 35 := Nat.shiftRight_eq_div_pow k 35
  rw [h]
  omega

/-- Two keys with the same node and leaf entries have the same leaf. -/
theorem same_leaf {k k' : Nat} (h1 : i1 k = i1 k') (h2 : i2 k = i2 k') : k / 2048 = k' / 2048 := by
  rw [i1_eq, i1_eq] at h1
  rw [i2_eq, i2_eq] at h2
  omega

theorem eq_of_split {k k' : Nat} (h : k / 2048 = k' / 2048) (h3 : i3 k = i3 k') : k = k' := by
  rw [i3_eq, i3_eq] at h3
  omega

theorem split_of_eq {k k' : Nat} (h : k / 2048 = k' / 2048) : i1 k = i1 k' ∧ i2 k = i2 k' := by
  rw [i1_eq, i1_eq, i2_eq, i2_eq, h]
  exact ⟨rfl, rfl⟩

theorem sizeofNode_eq : sizeofNode = 32768 := rfl

theorem sizeofLeaf_eq : sizeofLeaf = 36992 := by decide

end Mymuduo.Memory
