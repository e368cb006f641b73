import Mathlib.Tactic

namespace Mymuduo.Lib

/-! Decimal numbers as bytes. -/

/-- The digits of a number. -/
def decimal (n : Nat) : List UInt8 := (Nat.toDigits 10 n).map fun c => UInt8.ofNat c.toNat

/-- The number that digits stand for, and only digits. -/
def readDecimal (bytes : List UInt8) : Option Nat :=
  if bytes ≠ [] ∧ bytes.all (fun b => 48 ≤ b ∧ b ≤ 57) = true then
    some (bytes.foldl (fun n b => 10 * n + (b.toNat - 48)) 0)
  else none

theorem toNat_digit {n : Nat} {c : Char} (h : c ∈ Nat.toDigits 10 n) :
    (UInt8.ofNat c.toNat).toNat = c.toNat ∧ 48 ≤ c.toNat ∧ c.toNat ≤ 57 := by
  have hdigit := Nat.isDigit_of_mem_toDigits (by decide) (by decide) h
  have hrange : 48 ≤ c.toNat ∧ c.toNat ≤ 57 := by
    simpa [Char.isDigit, UInt32.le_iff_toNat_le] using hdigit
  refine ⟨?_, hrange⟩
  rw [UInt8.toNat_ofNat']
  omega

theorem digit_of_mem_decimal {n : Nat} {b : UInt8} (h : b ∈ decimal n) : 48 ≤ b ∧ b ≤ 57 := by
  obtain ⟨c, hc, rfl⟩ := List.mem_map.mp h
  obtain ⟨hsame, hlow, hhigh⟩ := toNat_digit hc
  rw [UInt8.le_iff_toNat_le, UInt8.le_iff_toNat_le, hsame]
  exact ⟨hlow, hhigh⟩

theorem decimal_ne_nil (n : Nat) : decimal n ≠ [] := by
  intro h
  exact Nat.toDigits_ne_nil (List.map_eq_nil_iff.mp h)

theorem length_decimal_le {n k : Nat} (hk : 0 < k) (h : n < 10 ^ k) : (decimal n).length ≤ k := by
  rw [decimal, List.length_map]
  exact (Nat.length_toDigits_le_iff (by decide) hk).mpr h

/-- A number is read back from its digits. -/
theorem readDecimal_decimal (n : Nat) : readDecimal (decimal n) = some n := by
  have hfold : ∀ (l : List Char) (m : Nat), (∀ c ∈ l, (UInt8.ofNat c.toNat).toNat = c.toNat) →
      (l.map fun c => UInt8.ofNat c.toNat).foldl (fun n b => 10 * n + (b.toNat - 48)) m =
        Nat.ofDigitChars 10 l m := by
    intro l
    induction l with
    | nil =>
      intro m _
      rfl
    | cons c l ih =>
      intro m hl
      rw [List.map_cons, List.foldl_cons, hl c List.mem_cons_self,
        ih _ fun x hx => hl x (List.mem_cons_of_mem _ hx)]
      rfl
  have hdigits : (decimal n).all (fun b => 48 ≤ b ∧ b ≤ 57) = true := by
    rw [List.all_eq_true]
    intro b hb
    exact decide_eq_true (digit_of_mem_decimal hb)
  rw [readDecimal, if_pos ⟨decimal_ne_nil n, hdigits⟩, decimal,
    hfold _ _ fun c hc => (toNat_digit hc).1, Nat.ofDigitChars_ten_toDigits]

theorem decimal_inj {m n : Nat} (h : decimal m = decimal n) : m = n := by
  have hread := congrArg readDecimal h
  rw [readDecimal_decimal, readDecimal_decimal] at hread
  exact Option.some.inj hread

end Mymuduo.Lib
