import Mathlib.Tactic

namespace Mymuduo.Lib

/-! Byte memory with little-endian words, and chains of pointers that end in a null pointer. -/

abbrev ByteMem := Nat → UInt8

namespace ByteMem

/-- The word of `w` bytes at an address. -/
def load (m : ByteMem) : Nat → Nat → Nat
  | 0, _ => 0
  | w + 1, a => (m a).toNat + 256 * m.load w (a + 1)

def store (m : ByteMem) : Nat → Nat → Nat → ByteMem
  | 0, _, _ => m
  | w + 1, a, v => Function.update (m.store w (a + 1) (v / 256)) a (UInt8.ofNat v)

/-- `n` bytes at an address are overwritten. -/
def fill (m : ByteMem) (a n : Nat) (bytes : Nat → UInt8) : ByteMem := fun x =>
  if a ≤ x ∧ x < a + n then bytes x else m x

/-- Nothing changes outside `n` bytes at `a`. -/
def SameOutside (a n : Nat) (m m' : ByteMem) : Prop := ∀ x, x < a ∨ a + n ≤ x → m' x = m x

variable {m m' : ByteMem} {a b n w v : Nat}

theorem SameOutside.mono (h : SameOutside a w m m') (hw : w ≤ n) : SameOutside a n m m' := by
  intro x hx
  apply h
  omega

theorem fill_same (m : ByteMem) (a n : Nat) (bytes : Nat → UInt8) :
    SameOutside a n m (m.fill a n bytes) := by
  intro x hx
  rw [fill, if_neg (by omega)]

theorem store_same (m : ByteMem) (w a v : Nat) : SameOutside a w m (m.store w a v) := by
  induction w generalizing a v with
  | zero => exact fun _ _ => rfl
  | succ w ih =>
    intro x hx
    have hne : x ≠ a := by omega
    rw [store, Function.update_of_ne hne]
    exact ih (a + 1) (v / 256) x (by omega)

theorem load_congr (h : ∀ x, a ≤ x → x < a + w → m' x = m x) : m'.load w a = m.load w a := by
  induction w generalizing a with
  | zero => rfl
  | succ w ih =>
    have hrest : m'.load w (a + 1) = m.load w (a + 1) := by
      apply ih
      intro x hax hxw
      exact h x (by omega) (by omega)
    rw [load, load, hrest, h a le_rfl (by omega)]

/-- A word is not touched by what happens elsewhere. -/
theorem SameOutside.load (h : SameOutside a n m m') (hb : b + w ≤ a ∨ a + n ≤ b) :
    m'.load w b = m.load w b := by
  apply load_congr
  intro x hbx hxw
  apply h
  omega

theorem load_store (m : ByteMem) (a : Nat) (hv : v < 256 ^ w) : (m.store w a v).load w a = v := by
  induction w generalizing a v with
  | zero =>
    rw [pow_zero, Nat.lt_one_iff] at hv
    rw [hv]
    rfl
  | succ w ih =>
    have hv' : v / 256 < 256 ^ w := by
      rw [pow_succ] at hv
      exact Nat.div_lt_of_lt_mul (by omega)
    have hrest : (m.store (w + 1) a v).load w (a + 1) = v / 256 := by
      rw [← ih (a + 1) hv']
      apply load_congr
      intro x hx _
      have hne : x ≠ a := by omega
      rw [store, Function.update_of_ne hne]
    have hbyte : (m.store (w + 1) a v a).toNat = v % 256 := by
      rw [store, Function.update_self]
      exact UInt8.toNat_ofNat'
    rw [load, hrest, hbyte]
    omega

end ByteMem

/-- The nodes of `l`, each pointing to the one behind it, and the last to null. -/
def NullChain (next : Nat → Nat) : Nat → List Nat → Prop
  | p, [] => p = 0
  | p, a :: l => p = a ∧ a ≠ 0 ∧ NullChain next (next a) l

namespace NullChain

variable {next next' : Nat → Nat} {p : Nat} {l : List Nat}

theorem congr (h : NullChain next p l) (hnext : ∀ a ∈ l, next' a = next a) :
    NullChain next' p l := by
  induction l generalizing p with
  | nil => exact h
  | cons a l ih =>
    obtain ⟨hp, ha, hl⟩ := h
    refine ⟨hp, ha, ?_⟩
    rw [hnext a List.mem_cons_self]
    exact ih hl (fun b hb => hnext b (List.mem_cons_of_mem a hb))

theorem eq_nil (h : NullChain next 0 l) : l = [] := by
  cases l with
  | nil => rfl
  | cons a l =>
    obtain ⟨hp, ha, -⟩ := h
    exact absurd hp.symm ha

/-- A chain that does not start with null has a first node. -/
theorem uncons (h : NullChain next p l) (hp : p ≠ 0) :
    ∃ rest, l = p :: rest ∧ NullChain next (next p) rest := by
  cases l with
  | nil => exact absurd h hp
  | cons a rest =>
    obtain ⟨rfl, -, hrest⟩ := h
    exact ⟨rest, rfl, hrest⟩

end NullChain

end Mymuduo.Lib
