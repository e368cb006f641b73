import Mymuduo.Memory.ThreadCache

namespace Mymuduo.Memory

open Lib

theorem num_move_size_pos (size : Nat) : 1 ≤ num_move_size size := by
  rw [num_move_size]
  omega

namespace FreeList

/-- The counters of a list against its chain, in a class whose fetches bring `limit` blocks
at most. -/
structure Limited (l : FreeList) (limit : Nat) : Prop where
  counted : l.Counted
  within : l._size ≤ l._maxSize
  limited : l._maxSize ≤ limit + 1

namespace Limited

variable {l : FreeList} {limit : Nat}

theorem empty (limit : Nat) : Limited empty limit :=
  ⟨Counted.empty, Nat.zero_le _, Nat.le_add_left 1 limit⟩

theorem pop (h : l.Limited limit) : l.pop.Limited limit := by
  refine ⟨h.counted.pop, ?_, h.limited⟩
  have hwithin := h.within
  simp only [FreeList.pop]
  omega

/-- `_maxSize` grows only by a fetch of `_maxSize` blocks, so never beyond `limit + 1`. -/
theorem grow (h : l.Limited limit) : (l.grow (min limit l._maxSize)).Limited limit := by
  have hwithin := h.within
  have hlimited := h.limited
  refine ⟨h.counted.grow _, ?_, ?_⟩
  · simp only [FreeList.grow]
    split_ifs <;> omega
  · simp only [FreeList.grow]
    split_ifs <;> omega

/-- The blocks that a fetch leaves fit: the list was empty, and one block is handed out. -/
theorem fetch (h : l.Limited limit) (hnil : l.chain = []) {fetched : List Nat}
    (hle : fetched.length ≤ min limit l._maxSize) :
    ((l.grow (min limit l._maxSize)).PushRange fetched.tail).Limited limit := by
  have hgrow := h.grow
  have hsize : l._size = 0 := by
    rw [h.counted.size, hnil]
    rfl
  refine ⟨hgrow.counted.PushRange _, ?_, hgrow.limited⟩
  have hmax : l._maxSize ≤ (l.grow (min limit l._maxSize))._maxSize := by
    simp only [FreeList.grow]
    split_ifs <;> omega
  change l._size + fetched.tail.length ≤ (l.grow (min limit l._maxSize))._maxSize
  rw [hsize, List.length_tail]
  omega

/-- A block that fits is kept. -/
theorem push (h : l.Limited limit) (obj : Nat) (hfits : ¬ (l.push obj)._maxSize < (l.push obj)._size) :
    (l.push obj).Limited limit :=
  ⟨h.counted.push obj, not_lt.mp hfits, h.limited⟩

/-- A full list keeps one block of those it has with the new one. -/
theorem giveBack (h : l.Limited limit) (obj : Nat) :
    ((l.push obj).PopRange (l.push obj)._maxSize).2.Limited limit := by
  refine ⟨(h.counted.push obj).PopRange _, ?_, h.limited⟩
  have hwithin := h.within
  have hgrown := h.counted.grown
  simp only [FreeList.PopRange, FreeList.push]
  omega

end Limited

end FreeList

namespace FreeLists

/-- Every list of a thread within the limits of its class. -/
def Limited (s : FreeLists) : Prop :=
  ∀ i, (s._freelist i).Limited (num_move_size (classOf i))

theorem Limited.setList {s : FreeLists} (h : s.Limited) {i : Nat} {l : FreeList}
    (hl : l.Limited (num_move_size (classOf i))) : (s.setList i l).Limited := by
  intro j
  simp only [FreeLists.setList, Function.update_apply]
  split_ifs with hj
  · rw [hj]
    exact hl
  · exact h j

theorem Limited.allocate {s : FreeLists} (h : s.Limited) {size : Nat} {fetched : List Nat}
    (hpos : 1 ≤ size) (hmax : size ≤ MAXBYTES) (hgives : s.Gives size fetched) :
    (s.Allocate size fetched).Limited := by
  have hclass := classOf_index (isClass_round_up hpos hmax)
  have hlist := h (index (round_up size))
  simp only [Allocate]
  cases hchain : (s._freelist (index (round_up size))).chain with
  | cons obj rest => exact h.setList hlist.pop
  | nil =>
    obtain ⟨-, hle, -⟩ := hgives hchain
    have hnum : s.Num (index (round_up size)) (round_up size) =
        min (num_move_size (classOf (index (round_up size))))
          (s._freelist (index (round_up size)))._maxSize := by
      rw [Num, hclass]
    rw [hnum] at hle
    simp only [fetch_from_CentralCache, hnum]
    split_ifs
    · exact h.setList hlist.grow
    · exact h.setList (hlist.fetch hchain hle)

theorem Limited.deallocate {s s' : FreeLists} {ptr size : Nat} {objs : List Nat} (h : s.Limited)
    (hs' : s.deallocate false ptr size = some (objs, s')) : s'.Limited := by
  have hlist := h (index size)
  simp only [FreeLists.deallocate] at hs'
  split_ifs at hs' with hlong
  · rw [(hlist.counted.push ptr).popRangeBuilt hlong] at hs'
    obtain ⟨-, rfl⟩ := Prod.mk.inj (Option.some.inj hs')
    exact h.setList (hlist.giveBack ptr)
  · obtain ⟨-, rfl⟩ := Prod.mk.inj (Option.some.inj hs')
    exact h.setList (hlist.push ptr hlong)

theorem limited_step {s s' : FreeLists} {a : ThreadOp} (h : s.Limited)
    (hs' : s.step false a = some s') : s'.Limited := by
  cases a with
  | Allocate size fetched =>
    simp only [step] at hs'
    split_ifs at hs' with hcall
    obtain rfl := Option.some.inj hs'
    exact h.allocate hcall.1 hcall.2.1 hcall.2.2
  | deallocate ptr size =>
    simp only [step] at hs'
    split_ifs at hs'
    obtain ⟨⟨objs, s''⟩, hd, rfl⟩ := Option.map_eq_some_iff.mp hs'
    exact h.deallocate hd

/-- In every state that calls of `Allocate` and `deallocate` lead to, with the assert of
`PopRange` compiled out: the counters of each size class agree with its chain and stay
within the limits of slow start, the next fetch asks for an allowed number of blocks, and
the next `pop` or `PopRange` takes no more blocks than are counted. -/
theorem slow_start_limits (as : List ThreadOp) :
    Always (step false) (fun s => ∀ size, IsClass size →
      ((s._freelist (index size))._size = (s._freelist (index size)).chain.length ∧
        (s._freelist (index size))._size ≤ (s._freelist (index size))._maxSize ∧
        1 ≤ (s._freelist (index size))._maxSize ∧
        (s._freelist (index size))._maxSize ≤ num_move_size size + 1) ∧
      (1 ≤ s.Num (index size) size ∧ s.Num (index size) size ≤ num_move_size size) ∧
      (s._freelist (index size)).chain.length ≤ num_move_size size + 1 ∧
      ((s._freelist (index size)).chain ≠ [] → 1 ≤ (s._freelist (index size))._size) ∧
      ∀ ptr, ((s._freelist (index size)).push ptr)._maxSize <
          ((s._freelist (index size)).push ptr)._size →
        ((s._freelist (index size)).push ptr)._maxSize ≤
          ((s._freelist (index size)).push ptr).chain.length ∧
        ((s._freelist (index size)).push ptr)._maxSize ≤
          ((s._freelist (index size)).push ptr)._size) init as := by
  have hinv : Always (step false) Limited init as := by
    apply always_of_step
    · intro s a t hs ht
      exact limited_step hs ht
    · exact fun i => FreeList.Limited.empty _
  apply hinv.mono
  intro s hs size hsize
  have hlist := hs (index size)
  rw [classOf_index hsize] at hlist
  have hpos := num_move_size_pos size
  have hcount := hlist.counted.size
  have hwithin := hlist.within
  have hgrown := hlist.counted.grown
  have hlimited := hlist.limited
  refine ⟨⟨hcount, hwithin, hgrown, hlimited⟩, ?_, ?_, ?_, ?_⟩
  · rw [Num]
    omega
  · rw [← hcount]
    omega
  · intro hne
    rw [hcount]
    exact List.length_pos_iff.mpr hne
  · intro ptr hlong
    refine ⟨?_, Nat.le_of_lt hlong⟩
    rw [← (hlist.counted.push ptr).size]
    exact Nat.le_of_lt hlong

end FreeLists

end Mymuduo.Memory
