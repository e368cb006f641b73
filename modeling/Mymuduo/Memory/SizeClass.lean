import Mymuduo.Memory.PageCache

namespace Mymuduo.Memory

def MAXBYTES : Nat := 256 * 1024
def NFREELIST : Nat := 208

/-! `class classSize`. Beyond `MAXBYTES` there is an `assert(false)`, and with asserts
compiled out -1 is returned as a `size_t`. -/

/-- The complement of `alignNum - 1` in 64 bits is `2 ^ 64 - alignNum`. -/
def _round_up (bytes alignNum : Nat) : Nat := (bytes + alignNum - 1) &&& (2 ^ 64 - alignNum)

def round_up (size : Nat) : Nat :=
  if size ≤ 128 then _round_up size 8
  else if size ≤ 1024 then _round_up size 16
  else if size ≤ 8 * 1024 then _round_up size 128
  else if size ≤ 64 * 1024 then _round_up size 1024
  else if size ≤ 256 * 1024 then _round_up size (8 * 1024)
  else 2 ^ 64 - 1

/-- The subtraction at the end is one of 64-bit numbers. -/
def _index (bytes align_shift : Nat) : Nat :=
  (((bytes + (1 <<< align_shift) - 1) >>> align_shift) + (2 ^ 64 - 1)) % 2 ^ 64

def index (bytes : Nat) : Nat :=
  if bytes ≤ 128 then _index bytes 3
  else if bytes ≤ 1024 then _index (bytes - 128) 4 + 16
  else if bytes ≤ 8 * 1024 then _index (bytes - 1024) 7 + 16 + 56
  else if bytes ≤ 64 * 1024 then _index (bytes - 8 * 1024) 10 + 16 + 56 + 56
  else if bytes ≤ 256 * 1024 then _index (bytes - 64 * 1024) 13 + 16 + 56 + 56 + 56
  else 2 ^ 64 - 1

/-- How many objects move between the caches at once, at most. -/
def num_move_size (size : Nat) : Nat := min (max (MAXBYTES / size) 2) 512

/-- How many pages the central cache asks for. -/
def num_move_page (size : Nat) : Nat :=
  if (num_move_size size * size) >>> PAGE_SHIFT = 0 then 1
  else (num_move_size size * size) >>> PAGE_SHIFT

/-- Clearing the low bits of a 64-bit number. -/
theorem and_mask (x : Nat) {k : Nat} (hk : k ≤ 64) (hx : x < 2 ^ 64) :
    x &&& (2 ^ 64 - 2 ^ k) = x / 2 ^ k * 2 ^ k := by
  have hmask : 2 ^ 64 - 2 ^ k = (2 ^ (64 - k) - 1) <<< k := by
    rw [Nat.shiftLeft_eq, Nat.sub_mul, Nat.one_mul, ← Nat.pow_add, Nat.sub_add_cancel hk]
  rw [hmask, ← Nat.shiftRight_eq_div_pow, ← Nat.shiftLeft_eq]
  apply Nat.eq_of_testBit_eq
  intro j
  rw [Nat.testBit_and, Nat.testBit_shiftLeft, Nat.testBit_shiftLeft, Nat.testBit_shiftRight,
    Nat.testBit_two_pow_sub_one]
  by_cases hjk : j ≥ k
  · simp only [hjk, decide_true, Bool.true_and, Nat.add_sub_cancel' hjk]
    by_cases hj : j < 64
    · have hlt : j - k < 64 - k := by omega
      simp [hlt]
    · have hbig : x < 2 ^ j := lt_of_lt_of_le hx (Nat.pow_le_pow_right (by decide) (by omega))
      simp [Nat.testBit_lt_two_pow hbig]
  · simp [hjk]

theorem _round_up_eq {bytes k : Nat} (hk : k ≤ 13) (hb : bytes ≤ MAXBYTES) :
    _round_up bytes (2 ^ k) = (bytes + 2 ^ k - 1) / 2 ^ k * 2 ^ k := by
  have hpow : 2 ^ k ≤ 2 ^ 13 := Nat.pow_le_pow_right (by decide) hk
  rw [_round_up]
  apply and_mask _ (by omega)
  rw [MAXBYTES] at hb
  omega

theorem round_up_eq {size : Nat} (hmax : size ≤ MAXBYTES) : round_up size =
    if size ≤ 128 then (size + 8 - 1) / 8 * 8
    else if size ≤ 1024 then (size + 16 - 1) / 16 * 16
    else if size ≤ 8 * 1024 then (size + 128 - 1) / 128 * 128
    else if size ≤ 64 * 1024 then (size + 1024 - 1) / 1024 * 1024
    else (size + 8 * 1024 - 1) / (8 * 1024) * (8 * 1024) := by
  have h8 : _round_up size 8 = _ := _round_up_eq (k := 3) (by decide) hmax
  have h16 : _round_up size 16 = _ := _round_up_eq (k := 4) (by decide) hmax
  have h128 : _round_up size 128 = _ := _round_up_eq (k := 7) (by decide) hmax
  have h1024 : _round_up size 1024 = _ := _round_up_eq (k := 10) (by decide) hmax
  have h8192 : _round_up size (8 * 1024) = _ := _round_up_eq (k := 13) (by decide) hmax
  rw [round_up]
  rw [h8, h16, h128, h1024, h8192]
  rw [MAXBYTES] at hmax
  split_ifs <;> rfl

/-- A size class holds what is asked for, and is no larger than the largest. -/
theorem round_up_spec {size : Nat} (hpos : 1 ≤ size) (hmax : size ≤ MAXBYTES) :
    size ≤ round_up size ∧ round_up size ≤ MAXBYTES := by
  rw [round_up_eq hmax]
  rw [MAXBYTES] at *
  split_ifs <;> omega

/-- No bytes at all have no free list. -/
theorem index_zero : index (round_up 0) = 2 ^ 64 - 1 := by decide

/-- A size that blocks of the pool have. -/
structure IsClass (size : Nat) : Prop where
  pos : 1 ≤ size
  le : size ≤ MAXBYTES
  rounded : round_up size = size

theorem isClass_round_up {size : Nat} (hpos : 1 ≤ size) (hmax : size ≤ MAXBYTES) :
    IsClass (round_up size) := by
  have hspec := round_up_spec hpos hmax
  refine ⟨hpos.trans hspec.1, hspec.2, ?_⟩
  rw [round_up_eq hspec.2, round_up_eq hmax]
  rw [MAXBYTES] at hmax
  split_ifs <;> omega

/-- The size of the blocks on a free list. -/
def classOf (i : Nat) : Nat :=
  if i < 16 then 8 * (i + 1)
  else if i < 72 then 128 + 16 * (i - 15)
  else if i < 128 then 1024 + 128 * (i - 71)
  else if i < 184 then 8192 + 1024 * (i - 127)
  else 65536 + 8192 * (i - 183)

theorem _index_eq {bytes k : Nat} (hpos : 1 ≤ bytes) (hmax : bytes ≤ MAXBYTES) :
    _index bytes k = (bytes - 1) / 2 ^ k := by
  have hpow : 0 < 2 ^ k := Nat.two_pow_pos k
  have hshift : bytes + 2 ^ k - 1 = bytes - 1 + 2 ^ k := by omega
  have hsmall : (bytes - 1) / 2 ^ k ≤ bytes - 1 := Nat.div_le_self _ _
  rw [_index]
  rw [Nat.shiftLeft_eq, Nat.one_mul, Nat.shiftRight_eq_div_pow, hshift, Nat.add_div_right _ hpow]
  rw [MAXBYTES] at hmax
  generalize (bytes - 1) / 2 ^ k = q at *
  omega

theorem index_eq {bytes : Nat} (hpos : 1 ≤ bytes) (hmax : bytes ≤ MAXBYTES) : index bytes =
    if bytes ≤ 128 then (bytes - 1) / 8
    else if bytes ≤ 1024 then (bytes - 128 - 1) / 16 + 16
    else if bytes ≤ 8 * 1024 then (bytes - 1024 - 1) / 128 + 16 + 56
    else if bytes ≤ 64 * 1024 then (bytes - 8 * 1024 - 1) / 1024 + 16 + 56 + 56
    else (bytes - 64 * 1024 - 1) / (8 * 1024) + 16 + 56 + 56 + 56 := by
  rw [index]
  split_ifs with h128 h1024 h8192 h65536 hlast
  · exact _index_eq hpos hmax
  · rw [_index_eq (by omega) (by omega)]
    rfl
  · rw [_index_eq (by omega) (by omega)]
    rfl
  · rw [_index_eq (by omega) (by omega)]
    rfl
  · rw [_index_eq (by omega) (by omega)]
    rfl
  · exact absurd hmax hlast

theorem index_lt {bytes : Nat} (hpos : 1 ≤ bytes) (hmax : bytes ≤ MAXBYTES) :
    index bytes < NFREELIST := by
  rw [index_eq hpos hmax]
  rw [NFREELIST]
  rw [MAXBYTES] at hmax
  split_ifs <;> omega

/-- The blocks of a request come from the free list of its class. -/
theorem classOf_index_eq {size : Nat} (hpos : 1 ≤ size) (hmax : size ≤ MAXBYTES) :
    classOf (index size) = round_up size := by
  have hindex := index_eq hpos hmax
  have hrounded := round_up_eq hmax
  generalize index size = i at *
  generalize round_up size = rounded at *
  rw [classOf]
  rw [MAXBYTES] at hmax
  by_cases h128 : size ≤ 128
  · rw [if_pos h128] at hrounded hindex
    rw [if_pos (by omega)]
    omega
  rw [if_neg h128] at hrounded hindex
  by_cases h1024 : size ≤ 1024
  · rw [if_pos h1024] at hrounded hindex
    rw [if_neg (by omega), if_pos (by omega)]
    omega
  rw [if_neg h1024] at hrounded hindex
  by_cases h8192 : size ≤ 8 * 1024
  · rw [if_pos h8192] at hrounded hindex
    rw [if_neg (by omega), if_neg (by omega), if_pos (by omega)]
    omega
  rw [if_neg h8192] at hrounded hindex
  by_cases h65536 : size ≤ 64 * 1024
  · rw [if_pos h65536] at hrounded hindex
    rw [if_neg (by omega), if_neg (by omega), if_neg (by omega), if_pos (by omega)]
    omega
  rw [if_neg h65536] at hrounded hindex
  rw [if_neg (by omega), if_neg (by omega), if_neg (by omega), if_neg (by omega)]
  omega

theorem classOf_index {size : Nat} (h : IsClass size) : classOf (index size) = size :=
  (classOf_index_eq h.pos h.le).trans h.rounded

/-- Each size class has a free list of its own. -/
theorem index_inj {size size' : Nat} (h : IsClass size) (h' : IsClass size')
    (heq : index size = index size') : size = size' := by
  rw [← classOf_index h, ← classOf_index h', heq]

/-! A free list serves a request exactly when its blocks are large enough, and `index` finds the
first such list. So the two functions belong together as the halves of a Galois connection, and
rounding up is its closure. -/

/-- A size that the pool serves. -/
abbrev Size := Set.Icc 1 MAXBYTES

theorem index_le_iff {size i : Nat} (hpos : 1 ≤ size) (hmax : size ≤ MAXBYTES)
    (hi : i < NFREELIST) : index size ≤ i ↔ size ≤ classOf i := by
  rw [index_eq hpos hmax, classOf]
  rw [MAXBYTES] at hmax
  rw [NFREELIST] at hi
  split_ifs <;> omega

theorem classOf_bounds {i : Nat} (hi : i < NFREELIST) : 1 ≤ classOf i ∧ classOf i ≤ MAXBYTES := by
  rw [classOf, MAXBYTES]
  rw [NFREELIST] at hi
  split_ifs <;> omega

/-- The free list of a request. -/
def listOf (a : Size) : Fin NFREELIST := ⟨index a, index_lt a.2.1 a.2.2⟩

/-- The blocks of a free list. -/
def blockOf (i : Fin NFREELIST) : Size := ⟨classOf i, classOf_bounds i.2⟩

theorem listOf_blockOf : GaloisConnection listOf blockOf := by
  intro a i
  exact index_le_iff a.2.1 a.2.2 i.2

theorem blockOf_listOf (a : Size) : (blockOf (listOf a) : Nat) = round_up a :=
  classOf_index_eq a.2.1 a.2.2

theorem index_round_up (a : Size) : index (round_up a) = index a := by
  rw [← blockOf_listOf]
  exact congrArg Fin.val (listOf_blockOf.l_u_l_eq_l a)

theorem index_eq_iff (a b : Size) : index a = index b ↔ round_up a = round_up b := by
  constructor
  · intro h
    rw [← classOf_index_eq a.2.1 a.2.2, h, classOf_index_eq b.2.1 b.2.2]
  · intro h
    rw [← index_round_up a, h, index_round_up b]

/-- Beyond 128 bytes a block wastes less than a ninth of itself. -/
theorem waste_lt {size : Nat} (hlow : 128 < size) (hmax : size ≤ MAXBYTES) :
    9 * (round_up size - size) < round_up size := by
  rw [round_up_eq hmax]
  rw [MAXBYTES] at hmax
  split_ifs <;> omega

theorem eight_dvd_round_up {size : Nat} (hmax : size ≤ MAXBYTES) : 8 ∣ round_up size := by
  rw [round_up_eq hmax]
  split_ifs <;> omega

/-- `round_up` and `index` cut the sizes into the same classes. -/
theorem size_classes (a b : Size) :
    (a ≤ round_up a ∧ 8 ∣ round_up a ∧ round_up (round_up a) = round_up a) ∧
    (index a < NFREELIST ∧ index (round_up a) = index a) ∧
    (a ≤ b → index a ≤ index b ∧ round_up a ≤ round_up b) ∧
    (index a = index b ↔ round_up a = round_up b) ∧
    (128 < (a : Nat) → 9 * (round_up a - a) < round_up a) := by
  refine ⟨⟨?_, eight_dvd_round_up a.2.2, ?_⟩, ⟨index_lt a.2.1 a.2.2, index_round_up a⟩, ?_,
    index_eq_iff a b, fun hlow => waste_lt hlow a.2.2⟩
  · exact (round_up_spec a.2.1 a.2.2).1
  · exact (isClass_round_up a.2.1 a.2.2).rounded
  · intro hab
    refine ⟨listOf_blockOf.monotone_l hab, ?_⟩
    rw [← blockOf_listOf, ← blockOf_listOf]
    exact listOf_blockOf.monotone_u (listOf_blockOf.monotone_l hab)

/-- The central cache asks for 1 to 64 pages. -/
theorem num_move_page_bounds {size : Nat} (hpos : 1 ≤ size) (hmax : size ≤ MAXBYTES) :
    1 ≤ num_move_page size ∧ num_move_page size ≤ 64 := by
  have hbytes : num_move_size size * size ≤ 2 * MAXBYTES := by
    rw [num_move_size]
    have hdiv : MAXBYTES / size * size ≤ MAXBYTES := Nat.div_mul_le_self _ _
    rcases Nat.le_total (MAXBYTES / size) 2 with hle | hle
    · rw [Nat.max_eq_right hle, Nat.min_eq_left (by decide)]
      omega
    · rw [Nat.max_eq_left hle]
      have hmin : min (MAXBYTES / size) 512 ≤ MAXBYTES / size := Nat.min_le_left _ _
      have := Nat.mul_le_mul_right size hmin
      omega
  rw [num_move_page]
  rw [Nat.shiftRight_eq_div_pow]
  generalize num_move_size size * size = bytes at *
  rw [MAXBYTES] at hbytes
  rw [PAGE_SHIFT]
  split_ifs <;> omega

end Mymuduo.Memory
