import Mymuduo.Memory.Pool

namespace Mymuduo.Memory

open Lib

namespace FreeList

def pop (l : FreeList) : FreeList := { l with chain := l.chain.tail, _size := l._size - 1 }

/-- Slow start: a fetch of as many blocks as allowed lets the next one have one more. -/
def grow (l : FreeList) (Num : Nat) : FreeList :=
  { l with _maxSize := if Num = l._maxSize then l._maxSize + 1 else l._maxSize }

/-- `PopRange` in a build with asserts or without. Its walk over `n` blocks must stay on the
chain. -/
def PopRangeBuilt (asserts : Bool) (l : FreeList) (n : Nat) : Option (List Nat × FreeList) :=
  if (asserts → n ≥ l._size) ∧ 1 ≤ n ∧ n ≤ l.chain.length then some (l.PopRange n) else none

structure Counted (l : FreeList) : Prop where
  size : l._size = l.chain.length
  grown : 1 ≤ l._maxSize

namespace Counted

variable {l : FreeList}

theorem empty : Counted empty := ⟨rfl, le_rfl⟩

theorem push (h : l.Counted) (obj : Nat) : (l.push obj).Counted :=
  ⟨congrArg (· + 1) h.size, h.grown⟩

theorem pop (h : l.Counted) : l.pop.Counted := by
  refine ⟨?_, h.grown⟩
  simp only [FreeList.pop, h.size, List.length_tail]

theorem grow (h : l.Counted) (Num : Nat) : (l.grow Num).Counted := by
  refine ⟨h.size, ?_⟩
  have hone := h.grown
  simp only [FreeList.grow]
  split_ifs
  · omega
  · exact hone

theorem PushRange (h : l.Counted) (objs : List Nat) : (l.PushRange objs).Counted := by
  refine ⟨?_, h.grown⟩
  simp only [FreeList.PushRange, h.size, List.length_append]
  omega

theorem PopRange (h : l.Counted) (n : Nat) : (l.PopRange n).2.Counted := by
  refine ⟨?_, h.grown⟩
  simp only [FreeList.PopRange, h.size, List.length_drop]

/-- Without its assert, `PopRange` returns on a list that has grown longer than `_maxSize`. -/
theorem popRangeBuilt (h : l.Counted) (hlong : l._maxSize < l._size) :
    l.PopRangeBuilt false l._maxSize = some (l.PopRange l._maxSize) := by
  apply if_pos
  refine ⟨by simp, h.grown, ?_⟩
  rw [← h.size]
  exact Nat.le_of_lt hlong

/-- A list with room for one more block, and in a build without asserts every list, takes a
block. -/
theorem not_refused (h : l.Counted) {asserts : Bool} (obj : Nat)
    (hroom : asserts = true → l._size < l._maxSize) :
    ¬ ((l.push obj)._maxSize < (l.push obj)._size ∧
      ((l.push obj).PopRangeBuilt asserts (l.push obj)._maxSize).isNone) := by
  intro hlong
  cases asserts with
  | false =>
    rw [(h.push obj).popRangeBuilt hlong.1] at hlong
    simp at hlong
  | true =>
    have hspace := hroom rfl
    have hover := hlong.1
    simp only [FreeList.push] at hover
    omega

theorem length_popRange (h : l.Counted) (hlong : l._maxSize < l._size) :
    (l.PopRange l._maxSize).1.length = l._maxSize ∧
      (l.PopRange l._maxSize).2.chain.length = l._size - l._maxSize := by
  simp only [FreeList.PopRange, List.length_take, List.length_drop, ← h.size, and_true]
  exact Nat.min_eq_left (Nat.le_of_lt hlong)

end Counted

theorem popRangeBuilt_asserts {l : FreeList} (hlong : l._maxSize < l._size) :
    l.PopRangeBuilt true l._maxSize = none := by
  apply if_neg
  intro h
  have hassert := h.1 rfl
  omega

theorem popRangeBuilt_eq {asserts : Bool} {l : FreeList} {n : Nat} {p : List Nat × FreeList}
    (h : l.PopRangeBuilt asserts n = some p) : p = l.PopRange n := by
  rw [PopRangeBuilt] at h
  split_ifs at h
  exact (Option.some.inj h).symm

end FreeList

/-- `class ThreadCache` alone: what the central cache gives is part of a call. -/
structure FreeLists where
  _freelist : Nat → FreeList

inductive ThreadOp where
  | Allocate (size : Nat) (fetched : List Nat)
  | deallocate (ptr size : Nat)

namespace FreeLists

def init : FreeLists := ⟨fun _ => FreeList.empty⟩

def setList (s : FreeLists) (i : Nat) (l : FreeList) : FreeLists :=
  ⟨Function.update s._freelist i l⟩

def cached (s : FreeLists) : List Nat :=
  (List.range NFREELIST).flatMap fun i => (s._freelist i).chain

/-- The number of blocks that `fetch_from_CentralCache` asks for. -/
def Num (s : FreeLists) (i size : Nat) : Nat := min (num_move_size size) (s._freelist i)._maxSize

def fetch_from_CentralCache (s : FreeLists) (i size : Nat) (fetched : List Nat) : FreeLists :=
  let l := (s._freelist i).grow (s.Num i size)
  if fetched.length = 1 then s.setList i l else s.setList i (l.PushRange fetched.tail)

def Allocate (s : FreeLists) (size : Nat) (fetched : List Nat) : FreeLists :=
  let AligSize := round_up size
  let i := index AligSize
  match (s._freelist i).chain with
  | _ :: _ => s.setList i (s._freelist i).pop
  | [] => s.fetch_from_CentralCache i AligSize fetched

/-- `deallocate`, with the blocks that `list_to_long` hands to `release_list_to_Spans`. -/
def deallocate (asserts : Bool) (s : FreeLists) (ptr size : Nat) :
    Option (List Nat × FreeLists) :=
  let i := index size
  let l := (s._freelist i).push ptr
  if l._maxSize < l._size then
    (l.PopRangeBuilt asserts l._maxSize).map fun (objs, l) => (objs, s.setList i l)
  else some ([], s.setList i l)

/-- The central cache, if it is asked, gives at least one block and at most as many as asked
for. -/
def Gives (s : FreeLists) (size : Nat) (fetched : List Nat) : Prop :=
  (s._freelist (index (round_up size))).chain = [] →
  1 ≤ fetched.length ∧ fetched.length ≤ s.Num (index (round_up size)) (round_up size) ∧
    fetched.Nodup ∧ ∀ b ∈ fetched, b ∉ s.cached

/-- A block that the cache does not have may be freed. -/
def Frees (s : FreeLists) (ptr size : Nat) : Prop :=
  ptr ≠ 0 ∧ 1 ≤ size ∧ size ≤ MAXBYTES ∧ ptr ∉ s.cached

instance (s : FreeLists) (size : Nat) (fetched : List Nat) : Decidable (s.Gives size fetched) :=
  inferInstanceAs (Decidable (_ → _))

instance (s : FreeLists) (ptr size : Nat) : Decidable (s.Frees ptr size) :=
  inferInstanceAs (Decidable (_ ∧ _))

def step (asserts : Bool) (s : FreeLists) : ThreadOp → Option FreeLists
  | .Allocate size fetched =>
    if 1 ≤ size ∧ size ≤ MAXBYTES ∧ s.Gives size fetched then some (s.Allocate size fetched)
    else none
  | .deallocate ptr size =>
    if s.Frees ptr size then (s.deallocate asserts ptr size).map Prod.snd else none

def Counted (s : FreeLists) : Prop := ∀ i, (s._freelist i).Counted

theorem Counted.setList {s : FreeLists} (h : s.Counted) {l : FreeList} (hl : l.Counted) (i : Nat) :
    (s.setList i l).Counted := by
  intro j
  simp only [FreeLists.setList, Function.update_apply]
  split_ifs
  · exact hl
  · exact h j

theorem Counted.fetch {s : FreeLists} (h : s.Counted) (i size : Nat) (fetched : List Nat) :
    (s.fetch_from_CentralCache i size fetched).Counted := by
  have hgrow := (h i).grow (s.Num i size)
  simp only [fetch_from_CentralCache]
  split_ifs
  · exact h.setList hgrow i
  · exact h.setList (hgrow.PushRange _) i

theorem Counted.deallocate {asserts : Bool} {s s' : FreeLists} {ptr size : Nat} {objs : List Nat}
    (h : s.Counted) (hs' : s.deallocate asserts ptr size = some (objs, s')) : s'.Counted := by
  simp only [FreeLists.deallocate] at hs'
  have hpush := (h (index size)).push ptr
  split_ifs at hs' with hlong
  · obtain ⟨p, hp, heq⟩ := Option.map_eq_some_iff.mp hs'
    obtain ⟨-, rfl⟩ := Prod.mk.inj heq
    rw [FreeList.popRangeBuilt_eq hp]
    exact h.setList (hpush.PopRange _) _
  · obtain ⟨-, rfl⟩ := Prod.mk.inj (Option.some.inj hs')
    exact h.setList hpush _

theorem counted_step {asserts : Bool} {s s' : FreeLists} {a : ThreadOp} (h : s.Counted)
    (hs' : s.step asserts a = some s') : s'.Counted := by
  cases a with
  | Allocate size fetched =>
    simp only [step] at hs'
    split_ifs at hs'
    obtain rfl := Option.some.inj hs'
    simp only [Allocate]
    split
    · exact h.setList (h _).pop _
    · exact h.fetch _ _ _
  | deallocate ptr size =>
    simp only [step] at hs'
    split_ifs at hs'
    obtain ⟨⟨objs, s''⟩, hd, rfl⟩ := Option.map_eq_some_iff.mp hs'
    exact h.deallocate hd

/-- The call returns; from a list that is too long now, it hands on `_maxSize` blocks and
leaves the others. -/
def Completes (asserts : Bool) (s : FreeLists) (ptr size : Nat) : Prop :=
  let l := (s._freelist (index size)).push ptr
  ∃ objs s', s.deallocate asserts ptr size = some (objs, s') ∧
    (l._maxSize < l._size → objs.length = l._maxSize ∧
      (s'._freelist (index size)).chain.length = l._size - l._maxSize)

theorem completes_short {asserts : Bool} {s : FreeLists} {ptr size : Nat}
    (h : (s._freelist (index size))._size < (s._freelist (index size))._maxSize) :
    s.Completes asserts ptr size := by
  have hshort : ¬ ((s._freelist (index size)).push ptr)._maxSize <
      ((s._freelist (index size)).push ptr)._size := by
    simp only [FreeList.push]
    omega
  exact ⟨_, _, if_neg hshort, fun hlong => absurd hlong hshort⟩

/-- The assert says the opposite of the test that leads to it. -/
theorem completes_asserts_iff {s : FreeLists} {ptr size : Nat} : s.Completes true ptr size ↔
    (s._freelist (index size))._size < (s._freelist (index size))._maxSize := by
  refine ⟨?_, completes_short⟩
  intro h
  obtain ⟨objs, s', hs', -⟩ := h
  simp only [deallocate] at hs'
  split_ifs at hs' with hlong
  · rw [FreeList.popRangeBuilt_asserts hlong] at hs'
    simp at hs'
  · simp only [FreeList.push] at hlong
    omega

theorem Counted.completes {s : FreeLists} (h : s.Counted) (ptr size : Nat) :
    s.Completes false ptr size := by
  by_cases hshort : (s._freelist (index size))._size < (s._freelist (index size))._maxSize
  · exact completes_short hshort
  · have hpush := (h (index size)).push ptr
    have hlong : ((s._freelist (index size)).push ptr)._maxSize <
        ((s._freelist (index size)).push ptr)._size := by
      simp only [FreeList.push]
      omega
    have hd : s.deallocate false ptr size =
        some ((((s._freelist (index size)).push ptr).PopRange
          ((s._freelist (index size)).push ptr)._maxSize).1,
          s.setList (index size) (((s._freelist (index size)).push ptr).PopRange
            ((s._freelist (index size)).push ptr)._maxSize).2) := by
      simp only [FreeLists.deallocate]
      rw [if_pos hlong, hpush.popRangeBuilt hlong]
      rfl
    refine ⟨_, _, hd, ?_⟩
    intro _
    simp only [FreeLists.setList, Function.update_self]
    exact hpush.length_popRange hlong

/-- In every state that calls of `Allocate` and `deallocate` lead to: `deallocate` gets past
the assert of `PopRange` exactly when the list has room for one more block, so that
`list_to_long` is not called. But for the assert it would always complete. -/
theorem deallocate_completes_iff (asserts : Bool) (as : List ThreadOp) :
    Always (step asserts) (fun s => ∀ ptr size, s.Frees ptr size →
      (s.Completes true ptr size ↔
        (s._freelist (index size))._size < (s._freelist (index size))._maxSize) ∧
      s.Completes false ptr size) init as := by
  have hinv : Always (step asserts) Counted init as := by
    apply always_of_step
    · intro s a t hs ht
      exact counted_step hs ht
    · exact fun _ => FreeList.Counted.empty
  apply hinv.mono
  intro s hs ptr size _
  exact ⟨completes_asserts_iff, hs.completes ptr size⟩

/-- Four blocks of 128 KiB are fetched, with `_maxSize` at 3 then, and freed again: the
fourth does not fit. -/
theorem fourth_free_aborts : ∃ s, run (step true) init
      [.Allocate 131072 [8192], .Allocate 131072 [139264], .Allocate 131072 [270336, 401408],
        .Allocate 131072 [], .deallocate 8192 131072, .deallocate 139264 131072,
        .deallocate 270336 131072] = some s ∧
    s.Frees 401408 131072 ∧ s.deallocate true 401408 131072 = none ∧
    ¬ s.Completes true 401408 131072 := by
  have hrun : ((run (step true) init
      [.Allocate 131072 [8192], .Allocate 131072 [139264], .Allocate 131072 [270336, 401408],
        .Allocate 131072 [], .deallocate 8192 131072, .deallocate 139264 131072,
        .deallocate 270336 131072]).any fun s => decide (s.Frees 401408 131072) &&
      (s.deallocate true 401408 131072).isNone) = true := by
    decide +kernel
  simp only [Option.any_eq_true, Bool.and_eq_true, decide_eq_true_eq, Option.isNone_iff_eq_none]
    at hrun
  obtain ⟨s, hs, hfrees, hnone⟩ := hrun
  refine ⟨s, hs, hfrees, hnone, ?_⟩
  intro h
  obtain ⟨objs, s', hs', -⟩ := h
  rw [hnone] at hs'
  cases hs'

end FreeLists

end Mymuduo.Memory
