import Mymuduo.Lib.Run
import Mymuduo.Lib.Words
import Mymuduo.Memory.Sbrk

namespace Mymuduo.Memory

open Lib

/-- `sizeof(void*)`. -/
def sizeofPtr : Nat := 8

/-- The word at `obj`, as a pointer. -/
def NEXT_OBJ (mem : ByteMem) (obj : Nat) : Nat := mem.load sizeofPtr obj

/-- A class `T` that fits in a chunk. -/
structure PoolClass where
  sizeof : Nat
  pos : 0 < sizeof
  fits : max sizeof sizeofPtr ≤ 128 * 1024

def PoolClass.objSize (T : PoolClass) : Nat :=
  if T.sizeof < sizeofPtr then sizeofPtr else T.sizeof

/-- `class objectPool`, with the memory and the data segment of the process. -/
structure ObjectPool where
  _memory : Nat
  remainBytes : Nat
  _freeList : Nat
  mem : ByteMem
  seg : Segment

namespace ObjectPool

/-- A new pool of a process that holds anything in its memory, with its break at `brk`. -/
def init (mem : ByteMem) (brk : Nat) : ObjectPool := ⟨0, 0, 0, mem, ⟨brk, 0, 0, []⟩⟩

section Calls

variable (os : Sbrk) (T : PoolClass)

/-- The object at the front of `_freeList` is taken off. -/
def popFree (p : ObjectPool) : ObjectPool := { p with _freeList := NEXT_OBJ p.mem p._freeList }

def newChunk : EStateM Crash ObjectPool Unit := fun p =>
  let p := { p with remainBytes := 128 * 1024 }
  match Segment.SystemAlloc_sbrk os .chunk (p.remainBytes >>> 13) p.seg with
  | .ok ptr seg => .ok () { p with _memory := ptr, seg := seg }
  | .error e seg => .error e { p with seg := seg }

/-- The object at `_memory` is cut off; the subtraction and the addition are those of 64 bits. -/
def cut (p : ObjectPool) : ObjectPool :=
  { p with
    remainBytes := (p.remainBytes + (2 ^ 64 - T.objSize)) % 2 ^ 64
    _memory := (p._memory + T.objSize) % 2 ^ 64 }

/-- What `New` does before the constructor runs. -/
def take : EStateM Crash ObjectPool Nat := fun p =>
  if p._freeList ≠ 0 then .ok p._freeList p.popFree
  else
    match (if p.remainBytes < T.objSize then newChunk os p else .ok () p) with
    | .ok _ p => .ok p._memory (p.cut T)
    | .error e p => .error e p

/-- Someone writes to an object. -/
def write (obj : Nat) (bytes : Nat → UInt8) (p : ObjectPool) : ObjectPool :=
  { p with mem := p.mem.fill obj T.sizeof bytes }

/-- `New`, with what the constructor writes. -/
def New (bytes : Nat → UInt8) : EStateM Crash ObjectPool Nat := do
  let obj ← take os T
  modify (write T obj bytes)
  return obj

/-- `Delete`, with what the destructor writes. -/
def Delete (obj : Nat) (bytes : Nat → UInt8) (p : ObjectPool) : ObjectPool :=
  let p := p.write T obj bytes
  { p with mem := p.mem.store sizeofPtr obj p._freeList, _freeList := obj }

end Calls

/-- `remainBytes` are the bytes from `_memory` to the end of the current chunk, the last one that
was obtained. -/
def Counted (p : ObjectPool) : Prop :=
  match p.seg.blocks with
  | [] => p._memory = 0 ∧ p.remainBytes = 0
  | b :: _ => b.addr ≤ p._memory ∧ p._memory ≤ b.stop ∧ p.remainBytes = b.stop - p._memory

end ObjectPool

/-- A pool with the objects its users have, and those they have deleted and not got again. -/
structure PoolUse where
  pool : ObjectPool
  live : List Nat
  deleted : List Nat

inductive PoolOp where
  | New (bytes : Nat → UInt8)
  | Delete (obj : Nat) (bytes : Nat → UInt8)
  | write (obj : Nat) (bytes : Nat → UInt8)

namespace PoolUse

variable (os : Sbrk) (T : PoolClass)

def init (mem : ByteMem) (brk : Nat) : PoolUse := ⟨ObjectPool.init mem brk, [], []⟩

/-- A run ends where `sbrk` gives no memory, or none in the address space. Only live objects are
deleted or written to. -/
def step (s : PoolUse) : PoolOp → Option PoolUse
  | .New bytes =>
    match ObjectPool.New os T bytes s.pool with
    | .ok obj p =>
      if p.seg.refused = 0 ∧ p.seg.brk < 2 ^ 64 then some ⟨p, obj :: s.live, s.deleted.erase obj⟩
      else none
    | .error _ _ => none
  | .Delete obj bytes =>
    if obj ∈ s.live then some ⟨s.pool.Delete T obj bytes, s.live.erase obj, obj :: s.deleted⟩
    else none
  | .write obj bytes =>
    if obj ∈ s.live then some { s with pool := s.pool.write T obj bytes } else none

/-- Two objects have no byte in common. -/
def Apart (T : PoolClass) (a b : Nat) : Prop := a + T.objSize ≤ b ∨ b + T.objSize ≤ a

/-- What the pool is to keep. -/
structure Sound (T : PoolClass) (s : PoolUse) : Prop where
  disjoint : s.live.Pairwise (Apart T)
  inside : ∀ obj ∈ s.live, ∃ b ∈ s.pool.seg.blocks, b.addr ≤ obj ∧ obj + T.objSize ≤ b.stop
  chain : NullChain (NEXT_OBJ s.pool.mem) s.pool._freeList s.deleted
  once : s.deleted.Nodup
  counted : s.pool.Counted

/-- The invariant for the objects there are: none shares bytes with another one or with what is
left of the current chunk. -/
structure Placed (T : PoolClass) (p : ObjectPool) (objs : List Nat) : Prop where
  apart : objs.Pairwise (Apart T)
  inside : ∀ obj ∈ objs, ∃ b ∈ p.seg.blocks, b.addr ≤ obj ∧ obj + T.objSize ≤ b.stop
  below : ∀ obj ∈ objs, obj + T.objSize ≤ p._memory

/-- The invariant for the memory the pool has. -/
structure Obtained (p : ObjectPool) : Prop where
  counted : p.Counted
  proper : ∀ b ∈ p.seg.blocks, b.addr ≠ 0 ∧ b.stop < 2 ^ 64
  below : p.seg.Below

structure Inv (T : PoolClass) (s : PoolUse) : Prop where
  obtained : Obtained s.pool
  placed : Placed T s.pool (s.live ++ s.deleted)
  chain : NullChain (NEXT_OBJ s.pool.mem) s.pool._freeList s.deleted

variable {os T} {p q : ObjectPool} {s t : PoolUse} {a b : Nat} {l objs objs' : List Nat}

theorem ptr_le_objSize (T : PoolClass) : sizeofPtr ≤ T.objSize ∧ T.sizeof ≤ T.objSize := by
  rw [PoolClass.objSize]
  split_ifs with h <;> omega

theorem objSize_le (T : PoolClass) : T.objSize ≤ 128 * 1024 := by
  have hfits := T.fits
  rw [PoolClass.objSize]
  split_ifs <;> omega

theorem objSize_pos (T : PoolClass) : 0 < T.objSize := by
  have hptr := (ptr_le_objSize T).1
  rw [sizeofPtr] at hptr
  omega

theorem Apart.symm (h : Apart T a b) : Apart T b a := Or.symm h

theorem Apart.ne (h : Apart T a b) : a ≠ b := by
  have hpos := objSize_pos T
  rw [Apart] at h
  omega

namespace Placed

theorem perm (h : Placed T p objs) (hp : objs.Perm objs') : Placed T p objs' := by
  refine ⟨?_, ?_, ?_⟩
  · exact hp.pairwise h.apart (fun {_ _} => Apart.symm)
  · intro obj hobj
    exact h.inside obj (hp.mem_iff.mpr hobj)
  · intro obj hobj
    exact h.below obj (hp.mem_iff.mpr hobj)

/-- The objects are where they are whatever is written. -/
theorem of_fields (h : Placed T p objs) (hseg : q.seg = p.seg) (hmem : q._memory = p._memory) :
    Placed T q objs := by
  refine ⟨h.apart, ?_, ?_⟩
  · rw [hseg]
    exact h.inside
  · rw [hmem]
    exact h.below

theorem live_apart (h : Placed T p (objs ++ l)) (ha : a ∈ objs) : ∀ x ∈ l, Apart T a x := by
  intro x hx
  exact (List.pairwise_append.mp h.apart).2.2 a ha x hx

end Placed

/-- Writing to an object leaves a chain of others as it is. -/
theorem chain_outside {m m' : ByteMem} (h : NullChain (NEXT_OBJ m) b l)
    (hm : m.SameOutside a T.objSize m') (hapart : ∀ x ∈ l, Apart T a x) :
    NullChain (NEXT_OBJ m') b l := by
  apply h.congr
  intro x hx
  have hptr := (ptr_le_objSize T).1
  have hax := hapart x hx
  rw [Apart] at hax
  exact hm.load (by omega)

theorem Obtained.of_fields (h : Obtained p) (hseg : q.seg = p.seg) (hmem : q._memory = p._memory)
    (hremain : q.remainBytes = p.remainBytes) : Obtained q := by
  obtain ⟨hcounted, hproper, hbelow⟩ := h
  refine ⟨?_, ?_, ?_⟩
  · rw [ObjectPool.Counted, hseg, hmem, hremain]
    exact hcounted
  · rw [hseg]
    exact hproper
  · rw [hseg]
    exact hbelow

/-- An object is cut off the current chunk, and nothing wraps around. -/
theorem Obtained.cut_spec (h : Obtained p) (hroom : T.objSize ≤ p.remainBytes) :
    ∃ b bs, p.seg.blocks = b :: bs ∧ b.addr ≤ p._memory ∧ p._memory + T.objSize ≤ b.stop ∧
      (p.cut T)._memory = p._memory + T.objSize ∧
      (p.cut T).remainBytes = b.stop - (p._memory + T.objSize) := by
  have hpos := objSize_pos T
  have hsize := objSize_le T
  have hcounted := h.counted
  rw [ObjectPool.Counted] at hcounted
  cases hblocks : p.seg.blocks with
  | nil =>
    rw [hblocks] at hcounted
    have hnone : p.remainBytes = 0 := hcounted.2
    omega
  | cons b bs =>
    rw [hblocks] at hcounted
    obtain ⟨hstart, hend, hremain⟩ := hcounted
    have hstop : b.stop < 2 ^ 64 := (h.proper b (hblocks ▸ List.mem_cons_self)).2
    refine ⟨b, bs, rfl, hstart, by omega, ?_, ?_⟩
    · exact Nat.mod_eq_of_lt (by omega)
    · have hwrap : p.remainBytes + (2 ^ 64 - T.objSize) =
          b.stop - (p._memory + T.objSize) + 2 ^ 64 := by omega
      rw [ObjectPool.cut, hwrap, Nat.add_mod_right]
      exact Nat.mod_eq_of_lt (by omega)

theorem Obtained.cut (h : Obtained p) (hroom : T.objSize ≤ p.remainBytes) :
    Obtained (p.cut T) := by
  obtain ⟨b, bs, hblocks, hstart, hend, hmem, hremain⟩ := h.cut_spec hroom
  refine ⟨?_, h.proper, h.below⟩
  have hblocks' : (p.cut T).seg.blocks = b :: bs := hblocks
  rw [ObjectPool.Counted, hblocks']
  refine ⟨?_, ?_, ?_⟩
  · omega
  · omega
  · rw [hmem, hremain]

theorem Placed.cut (h : Placed T p objs) (ho : Obtained p) (hroom : T.objSize ≤ p.remainBytes) :
    Placed T (p.cut T) (p._memory :: objs) := by
  obtain ⟨b, bs, hblocks, hstart, hend, hmem, -⟩ := ho.cut_spec hroom
  refine ⟨List.pairwise_cons.mpr ⟨?_, h.apart⟩, ?_, ?_⟩
  · intro x hx
    exact Or.inr (h.below x hx)
  · intro obj hobj
    rcases List.mem_cons.mp hobj with rfl | hobj
    · exact ⟨b, hblocks ▸ List.mem_cons_self, hstart, hend⟩
    · exact h.inside obj hobj
  · intro obj hobj
    rw [hmem]
    rcases List.mem_cons.mp hobj with rfl | hobj
    · exact le_rfl
    · have hbelow := h.below obj hobj
      omega

/-- The pool with a new chunk at `ptr`; what was left of the last one is given up. -/
def withChunk (p : ObjectPool) (ptr : Nat) : ObjectPool :=
  { p with
    remainBytes := 128 * 1024
    _memory := ptr
    seg := p.seg.give .chunk ptr (16 * 8192 : Nat) }

theorem withChunk_blocks (p : ObjectPool) (ptr : Nat) :
    (withChunk p ptr).seg.blocks = ⟨.chunk, ptr, 128 * 1024⟩ :: p.seg.blocks := by
  simp [withChunk, Segment.give]

theorem Obtained.withChunk (h : Obtained p) {ptr : Nat} (hptr : p.seg.brk ≤ ptr) (hnull : ptr ≠ 0)
    (hbrk : (withChunk p ptr).seg.brk < 2 ^ 64) : Obtained (withChunk p ptr) := by
  have hbelow : (PoolUse.withChunk p ptr).seg.Below := h.below.give .chunk hptr (16 * 8192)
  refine ⟨?_, ?_, hbelow⟩
  · rw [ObjectPool.Counted, withChunk_blocks]
    simp [PoolUse.withChunk, Block.stop]
  · intro b hb
    have hstop := hbelow b hb
    refine ⟨?_, by omega⟩
    rw [withChunk_blocks, List.mem_cons] at hb
    rcases hb with rfl | hb
    · exact hnull
    · exact (h.proper b hb).1

/-- A new chunk lies above all objects. -/
theorem Placed.withChunk (h : Placed T p objs) (ho : Obtained p) {ptr : Nat}
    (hptr : p.seg.brk ≤ ptr) : Placed T (withChunk p ptr) objs := by
  refine ⟨h.apart, ?_, ?_⟩
  · intro obj hobj
    obtain ⟨b, hb, hinside⟩ := h.inside obj hobj
    refine ⟨b, ?_, hinside⟩
    rw [withChunk_blocks]
    exact List.mem_cons_of_mem _ hb
  · intro obj hobj
    obtain ⟨b, hb, -, hstop⟩ := h.inside obj hobj
    have hbrk := ho.below b hb
    change obj + T.objSize ≤ ptr
    omega

section New

variable {bytes : Nat → UInt8}

theorem New_of_free (hf : p._freeList ≠ 0) :
    ObjectPool.New os T bytes p = .ok p._freeList (p.popFree.write T p._freeList bytes) := by
  have htake : ObjectPool.take os T p = .ok p._freeList p.popFree := by
    rw [ObjectPool.take, if_pos hf]
  rw [ObjectPool.New, bind_ok htake]
  rfl

theorem New_of_room (hf : p._freeList = 0) (hroom : T.objSize ≤ p.remainBytes) :
    ObjectPool.New os T bytes p = .ok p._memory ((p.cut T).write T p._memory bytes) := by
  have htake : ObjectPool.take os T p = .ok p._memory (p.cut T) := by
    rw [ObjectPool.take, if_neg (not_not.mpr hf), if_neg (not_lt.mpr hroom)]
  rw [ObjectPool.New, bind_ok htake]
  rfl

/-- Where the chunk has no room left, another one is asked for. If there is none, the pool goes on
with `(void*)-1`. -/
theorem New_of_full (os : Sbrk) (bytes : Nat → UInt8) (hf : p._freeList = 0)
    (hfull : p.remainBytes < T.objSize) :
    (∃ ptr q, ObjectPool.New os T bytes p = .ok ptr q ∧ q.seg = p.seg.refuse) ∨
    ∃ ptr, p.seg.brk ≤ ptr ∧ ptr ≠ 0 ∧ ObjectPool.New os T bytes p =
      .ok ptr (((withChunk p ptr).cut T).write T ptr bytes) := by
  have hpages : (128 * 1024) >>> 13 = 16 := by decide
  have hsize := @Segment.toSigned_pages 16 (by decide)
  rcases Segment.SystemAlloc_sbrk_cases os .chunk 16 p.seg with ⟨-, hcall⟩ | hgiven
  · have hchunk : ObjectPool.newChunk os p = .ok () { p with
        remainBytes := 128 * 1024, _memory := SBRK_FAILED, seg := p.seg.refuse } := by
      simp only [ObjectPool.newChunk, hpages, hcall]
    have htake : ∃ ptr q, ObjectPool.take os T p = .ok ptr q ∧ q.seg = p.seg.refuse := by
      rw [ObjectPool.take, if_neg (not_not.mpr hf), if_pos hfull, hchunk]
      exact ⟨_, _, rfl, rfl⟩
    obtain ⟨ptr, q, htake, hseg⟩ := htake
    refine Or.inl ⟨ptr, q.write T ptr bytes, ?_, hseg⟩
    rw [ObjectPool.New, bind_ok htake]
    rfl
  · obtain ⟨ptr, -, hptr, hnull, -, hcall⟩ := hgiven
    rw [hsize] at hcall
    have hchunk : ObjectPool.newChunk os p = .ok () (withChunk p ptr) := by
      simp only [ObjectPool.newChunk, hpages, hcall]
      rfl
    have htake : ObjectPool.take os T p = .ok ptr ((withChunk p ptr).cut T) := by
      rw [ObjectPool.take, if_neg (not_not.mpr hf), if_pos hfull, hchunk]
      rfl
    refine Or.inr ⟨ptr, hptr, hnull, ?_⟩
    rw [ObjectPool.New, bind_ok htake]
    rfl

/-- `New` never throws. -/
theorem New_returns (os : Sbrk) (T : PoolClass) (bytes : Nat → UInt8) (p : ObjectPool) :
    ∃ obj q, ObjectPool.New os T bytes p = .ok obj q := by
  by_cases hf : p._freeList = 0
  · rcases Nat.lt_or_ge p.remainBytes T.objSize with hfull | hroom
    · rcases New_of_full os bytes hf hfull with ⟨ptr, q, hq, -⟩ | ⟨ptr, -, -, hq⟩
      · exact ⟨ptr, q, hq⟩
      · exact ⟨ptr, _, hq⟩
    · exact ⟨_, _, New_of_room hf hroom⟩
  · exact ⟨_, _, New_of_free hf⟩

end New

/-- The addresses that a chain starts with fit in a word. -/
theorem Inv.freeList_lt (h : s.Inv T) : s.pool._freeList < 256 ^ sizeofPtr := by
  by_cases hf : s.pool._freeList = 0
  · rw [hf]
    decide
  · obtain ⟨l, hl, -⟩ := h.chain.uncons hf
    have hmem : s.pool._freeList ∈ s.live ++ s.deleted := by
      rw [hl]
      exact List.mem_append_right _ List.mem_cons_self
    obtain ⟨b, hb, -, hstop⟩ := h.placed.inside _ hmem
    have hlast := (h.obtained.proper b hb).2
    have hword : 256 ^ sizeofPtr = 2 ^ 64 := by decide
    omega

theorem Inv.live_ne (h : s.Inv T) (ha : a ∈ s.live) : a ≠ 0 := by
  obtain ⟨b, hb, hstart, -⟩ := h.placed.inside a (List.mem_append_left _ ha)
  have hnull := (h.obtained.proper b hb).1
  omega

/-- What an object's owner writes to it. -/
theorem Inv.write (h : s.Inv T) (ha : a ∈ s.live) (bytes : Nat → UInt8) :
    Inv T { s with pool := s.pool.write T a bytes } := by
  refine ⟨h.obtained.of_fields rfl rfl rfl, h.placed.of_fields rfl rfl, ?_⟩
  have hsame : s.pool.mem.SameOutside a T.objSize (s.pool.write T a bytes).mem :=
    (s.pool.mem.fill_same a T.sizeof bytes).mono (ptr_le_objSize T).2
  exact chain_outside h.chain hsame (h.placed.live_apart ha)

theorem Inv.delete (h : s.Inv T) (ha : a ∈ s.live) (bytes : Nat → UInt8) :
    Inv T ⟨s.pool.Delete T a bytes, s.live.erase a, a :: s.deleted⟩ := by
  have hw := h.write ha bytes
  have hperm : (s.live ++ s.deleted).Perm (s.live.erase a ++ a :: s.deleted) :=
    ((List.perm_cons_erase ha).append_right s.deleted).trans List.perm_middle.symm
  refine ⟨h.obtained.of_fields rfl rfl rfl, (h.placed.perm hperm).of_fields rfl rfl, rfl,
    h.live_ne ha, ?_⟩
  have hnext : NEXT_OBJ (s.pool.Delete T a bytes).mem a = s.pool._freeList :=
    ByteMem.load_store _ a h.freeList_lt
  rw [hnext]
  have hsame : (s.pool.write T a bytes).mem.SameOutside a T.objSize (s.pool.Delete T a bytes).mem :=
    (ByteMem.store_same _ sizeofPtr a s.pool._freeList).mono (ptr_le_objSize T).1
  exact chain_outside hw.chain hsame (h.placed.live_apart ha)

theorem popFree_fields (p : ObjectPool) : p.popFree.seg = p.seg ∧ p.popFree._memory = p._memory ∧
    p.popFree.remainBytes = p.remainBytes := by
  simp only [ObjectPool.popFree, and_self]

/-- The last object that was deleted is handed out again. -/
theorem Inv.reuse (h : s.Inv T) (hf : s.pool._freeList ≠ 0) (bytes : Nat → UInt8) :
    Inv T ⟨s.pool.popFree.write T s.pool._freeList bytes, s.pool._freeList :: s.live,
      s.deleted.erase s.pool._freeList⟩ := by
  obtain ⟨l, hl, hchain⟩ := h.chain.uncons hf
  have herase : s.deleted.erase s.pool._freeList = l := by rw [hl, List.erase_cons_head]
  have hplaced := h.placed
  rw [hl] at hplaced
  obtain ⟨hseg, hmem, hremain⟩ := popFree_fields s.pool
  have hpop : Inv T ⟨s.pool.popFree, s.pool._freeList :: s.live, l⟩ :=
    ⟨h.obtained.of_fields hseg hmem hremain,
      (hplaced.perm List.perm_middle).of_fields hseg hmem, hchain⟩
  rw [herase]
  exact hpop.write List.mem_cons_self bytes

/-- An object is cut off a chunk that has room for it. -/
theorem inv_cut (ho : Obtained p) (hp : Placed T p l) (hf : p._freeList = 0)
    (hroom : T.objSize ≤ p.remainBytes) (bytes : Nat → UInt8) :
    Inv T ⟨(p.cut T).write T p._memory bytes, p._memory :: l, []⟩ := by
  have hplaced : Placed T (p.cut T) (p._memory :: l ++ []) := by
    rw [List.append_nil]
    exact hp.cut ho hroom
  have hcut : Inv T ⟨p.cut T, p._memory :: l, []⟩ := ⟨ho.cut hroom, hplaced, hf⟩
  exact hcut.write List.mem_cons_self bytes

theorem Inv.new (h : s.Inv T) {bytes : Nat → UInt8}
    (hq : ObjectPool.New os T bytes s.pool = .ok a q) (hrefused : q.seg.refused = 0)
    (hbrk : q.seg.brk < 2 ^ 64) : Inv T ⟨q, a :: s.live, s.deleted.erase a⟩ := by
  by_cases hf : s.pool._freeList = 0
  · have hnone : s.deleted = [] := by
      have hchain := h.chain
      rw [hf] at hchain
      exact hchain.eq_nil
    have hplaced := h.placed
    rw [hnone, List.append_nil] at hplaced
    rw [hnone, List.erase_nil]
    rcases Nat.lt_or_ge s.pool.remainBytes T.objSize with hfull | hroom
    · rcases New_of_full os bytes hf hfull with ⟨ptr, r, hr, hseg⟩ | hgiven
      · rw [hr] at hq
        obtain ⟨rfl, rfl⟩ := EStateM.Result.ok.inj hq
        rw [hseg] at hrefused
        exact absurd hrefused (Nat.succ_ne_zero _)
      · obtain ⟨ptr, hptr, hnull, hr⟩ := hgiven
        rw [hr] at hq
        obtain ⟨rfl, rfl⟩ := EStateM.Result.ok.inj hq
        exact inv_cut (h.obtained.withChunk hptr hnull hbrk) (hplaced.withChunk h.obtained hptr) hf
          (objSize_le T) bytes
    · rw [New_of_room hf hroom] at hq
      obtain ⟨rfl, rfl⟩ := EStateM.Result.ok.inj hq
      exact inv_cut h.obtained hplaced hf hroom bytes
  · rw [New_of_free hf] at hq
    obtain ⟨rfl, rfl⟩ := EStateM.Result.ok.inj hq
    exact h.reuse hf bytes

theorem inv_step (op : PoolOp) (h : s.Inv T) (ht : step os T s op = some t) : t.Inv T := by
  cases op with
  | New bytes =>
    obtain ⟨obj, q, hq⟩ := New_returns os T bytes s.pool
    rw [step, hq] at ht
    simp only at ht
    split_ifs at ht with hgiven
    obtain rfl := Option.some.inj ht
    exact h.new hq hgiven.1 hgiven.2
  | Delete obj bytes =>
    rw [step] at ht
    split_ifs at ht with hlive
    obtain rfl := Option.some.inj ht
    exact h.delete hlive bytes
  | write obj bytes =>
    rw [step] at ht
    split_ifs at ht with hlive
    obtain rfl := Option.some.inj ht
    exact h.write hlive bytes

theorem inv_init (T : PoolClass) (mem : ByteMem) (brk : Nat) : (init mem brk).Inv T := by
  refine ⟨⟨⟨rfl, rfl⟩, ?_, ?_⟩, ⟨List.Pairwise.nil, ?_, ?_⟩, rfl⟩
  all_goals
    intro x hx
    exact absurd hx List.not_mem_nil

theorem Inv.sound (h : s.Inv T) : s.Sound T := by
  obtain ⟨hlive, hdeleted, -⟩ := List.pairwise_append.mp h.placed.apart
  refine ⟨hlive, ?_, h.chain, hdeleted.imp Apart.ne, h.obtained.counted⟩
  intro obj hobj
  exact h.placed.inside obj (List.mem_append_left _ hobj)

/-- Objects are disjoint and inside what `sbrk` gave, `_freeList` leads through those that were
deleted and not handed out again, and `remainBytes` counts what is left of the chunk, in whatever
order objects are made, written to and deleted. -/
theorem objects_sound (os : Sbrk) (T : PoolClass) (mem : ByteMem) (brk : Nat) (ops : List PoolOp) :
    Always (step os T) (Sound T) (init mem brk) ops := by
  have hinv : Always (step os T) (Inv T) (init mem brk) ops :=
    always_of_step (fun _ op _ h ht => inv_step op h ht) (inv_init T mem brk) ops
  exact hinv.mono (fun _ h => h.sound)

end PoolUse

end Mymuduo.Memory
