import Mymuduo.Lib.Exec

namespace Mymuduo.Memory

open Lib

/-- What memory is obtained for: the pages of spans, the objects of `_spanPool`, the nodes
and the leaves of the page map. -/
inductive Purpose where
  | span
  | chunk
  | node
  | leaf
  deriving DecidableEq

/-- A piece of memory that `sbrk` has given. -/
structure Block where
  purpose : Purpose
  addr : Nat
  bytes : Nat
  deriving DecidableEq

/-- The first address behind a block. -/
def Block.stop (b : Block) : Nat := b.addr + b.bytes

/-- How a call ends that does not return: `std::bad_alloc` is thrown; the assert of `set`
fails; `set` goes through a null pointer; something is written at `(void*)-1`; a loop does
not end within its fuel. -/
inductive Crash where
  | bad_alloc
  | badKey
  | nullNode
  | wildWrite
  | endless
  deriving DecidableEq

/-- The data segment of the process. `calls` counts the calls of `sbrk`, `refused` those that
the system refused, and `blocks` records what the others gave, the latest first. -/
structure Segment where
  brk : Nat
  calls : Nat
  refused : Nat
  blocks : List Block

/-- `(void*)-1`. -/
def SBRK_FAILED : Nat := 2 ^ 64 - 1

/-- The system's answers: to the call of `sbrk` with a number, the break and the increment it
refuses, or gives an address. Other users of the break may have raised it before. -/
structure Sbrk where
  reply : Nat → Nat → Int → Option Nat
  raises : ∀ call brk increment ptr, reply call brk increment = some ptr → brk ≤ ptr
  proper : ∀ call brk increment ptr, reply call brk increment = some ptr →
    ptr ≠ 0 ∧ ptr ≠ SBRK_FAILED

/-- The `intptr_t` of a `size_t`. -/
def toSigned (n : Nat) : Int := if n < 2 ^ 63 then n else n - 2 ^ 64

namespace Segment

/-- What was obtained for one purpose. -/
def obtained (s : Segment) (p : Purpose) : List Block := s.blocks.filter (·.purpose = p)

def Below (s : Segment) : Prop := ∀ b ∈ s.blocks, b.stop ≤ s.brk

/-- A call that the system refuses. -/
def refuse (s : Segment) : Segment := { s with calls := s.calls + 1, refused := s.refused + 1 }

/-- A call that gives memory at `ptr`. -/
def give (s : Segment) (p : Purpose) (ptr : Nat) (increment : Int) : Segment where
  brk := (ptr + increment).toNat
  calls := s.calls + 1
  refused := s.refused
  blocks := ⟨p, ptr, increment.toNat⟩ :: s.blocks

def sbrk (os : Sbrk) (p : Purpose) (increment : Int) (s : Segment) : Nat × Segment :=
  match os.reply s.calls s.brk increment with
  | none => (SBRK_FAILED, s.refuse)
  | some ptr => (ptr, s.give p ptr increment)

/-- `SystemAlloc_sbrk`, which looks for a null pointer and not for `(void*)-1`. -/
def SystemAlloc_sbrk (os : Sbrk) (p : Purpose) (kpage : Nat) : EStateM Crash Segment Nat := fun s =>
  let (ptr, s) := s.sbrk os p (toSigned ((kpage <<< 13) % 2 ^ 64))
  if ptr = 0 then .error .bad_alloc s else .ok ptr s

/-- `SystemFree_brk`. -/
def SystemFree_brk (s : Segment) (ptr : Nat) : Segment := { s with brk := ptr }

theorem toSigned_pages {kpage : Nat} (h : kpage < 2 ^ 50) :
    toSigned ((kpage <<< 13) % 2 ^ 64) = (kpage * 8192 : Nat) := by
  have hpow : kpage <<< 13 = kpage * 8192 := by rw [Nat.shiftLeft_eq]
  rw [hpow, toSigned, Nat.mod_eq_of_lt (by omega), if_pos (by omega)]

/-- What `SystemAlloc_sbrk` returns: `(void*)-1` if the system refuses, and else the address
of memory at or above the break. It never throws. -/
theorem SystemAlloc_sbrk_cases (os : Sbrk) (p : Purpose) (kpage : Nat) (s : Segment) :
    (os.reply s.calls s.brk (toSigned ((kpage <<< 13) % 2 ^ 64)) = none ∧
      SystemAlloc_sbrk os p kpage s = .ok SBRK_FAILED s.refuse) ∨
    ∃ ptr, os.reply s.calls s.brk (toSigned ((kpage <<< 13) % 2 ^ 64)) = some ptr ∧
      s.brk ≤ ptr ∧ ptr ≠ 0 ∧ ptr ≠ SBRK_FAILED ∧ SystemAlloc_sbrk os p kpage s =
        .ok ptr (s.give p ptr (toSigned ((kpage <<< 13) % 2 ^ 64))) := by
  generalize hinc : toSigned ((kpage <<< 13) % 2 ^ 64) = increment
  have hcall : SystemAlloc_sbrk os p kpage s =
      if (s.sbrk os p increment).1 = 0 then .error .bad_alloc (s.sbrk os p increment).2
      else .ok (s.sbrk os p increment).1 (s.sbrk os p increment).2 := by
    rw [← hinc]
    rfl
  rw [hcall, sbrk]
  cases hreply : os.reply s.calls s.brk increment with
  | none =>
    have hfailed : SBRK_FAILED ≠ 0 := by decide
    exact Or.inl ⟨rfl, if_neg hfailed⟩
  | some ptr =>
    obtain ⟨hzero, hfailed⟩ := os.proper _ _ _ _ hreply
    exact Or.inr ⟨ptr, rfl, os.raises _ _ _ _ hreply, hzero, hfailed, if_neg hzero⟩

/-- Memory given at or above the break keeps all blocks below it. -/
theorem Below.give {s : Segment} (h : s.Below) (p : Purpose) {ptr : Nat} (hptr : s.brk ≤ ptr)
    (bytes : Nat) : (s.give p ptr bytes).Below := by
  intro b hb
  have hbrk : (s.give p ptr bytes).brk = ptr + bytes := by
    simp only [Segment.give]
    omega
  rw [hbrk]
  rcases List.mem_cons.mp hb with rfl | hb
  · simp [Block.stop]
  · have := h b hb
    omega

theorem obtained_give_ne (s : Segment) {p q : Purpose} (h : q ≠ p) (ptr : Nat) (increment : Int) :
    (s.give q ptr increment).obtained p = s.obtained p := by
  simp [obtained, give, h]

end Segment

end Mymuduo.Memory
