import Mathlib.Tactic

namespace Mymuduo.Lib

/-! Searching a list from the front, and cutting it into lines. -/

variable {α : Type*} [DecidableEq α]

/-- The first occurrence of `pat`: what stands before it, and what behind. -/
def search (pat : List α) : List α → Option (List α × List α)
  | [] => if pat = [] then some ([], []) else none
  | x :: xs =>
    match (x :: xs).dropPrefix? pat with
    | some rest => some ([], rest)
    | none => (search pat xs).map fun r => (x :: r.1, r.2)

theorem dropPrefix?_append (pat rest : List α) : (pat ++ rest).dropPrefix? pat = some rest :=
  List.dropPrefix?_eq_some_iff.mpr ⟨pat, rfl, beq_self_eq_true pat⟩

theorem eq_append_of_dropPrefix? {pat l rest : List α} (h : l.dropPrefix? pat = some rest) :
    l = pat ++ rest := by
  obtain ⟨p, hl, hp⟩ := List.dropPrefix?_eq_some_iff.mp h
  rw [hl, eq_of_beq hp]

theorem search_append {pat l a b : List α} (h : search pat l = some (a, b)) :
    l = a ++ pat ++ b := by
  induction l generalizing a with
  | nil =>
    simp only [search] at h
    split_ifs at h with hp
    obtain ⟨rfl, rfl⟩ := Prod.mk.inj (Option.some.inj h)
    simp [hp]
  | cons x xs ih =>
    simp only [search] at h
    split at h
    case h_1 rest hd =>
      obtain ⟨rfl, rfl⟩ := Prod.mk.inj (Option.some.inj h)
      simpa using eq_append_of_dropPrefix? hd
    case h_2 hd =>
      obtain ⟨⟨c, d⟩, hs, hpair⟩ := Option.map_eq_some_iff.mp h
      obtain ⟨rfl, rfl⟩ := Prod.mk.inj hpair
      rw [ih hs]
      rfl

/-- A search goes past whatever the pattern does not start with. -/
theorem search_cons {pat xs : List α} {x : α} (h : (x :: xs).dropPrefix? pat = none) :
    search pat (x :: xs) = (search pat xs).map fun r => (x :: r.1, r.2) := by
  simp only [search, h]

theorem search_here {x : α} (pat b : List α) :
    search (x :: pat) (x :: (pat ++ b)) = some ([], b) := by
  have h := dropPrefix?_append (x :: pat) b
  rw [List.cons_append] at h
  simp only [search, h]

theorem search_eq_none_of_not_mem {pat l : List α} {y : α} (hy : y ∈ pat) (hl : y ∉ l) :
    search pat l = none := by
  cases h : search pat l with
  | none => rfl
  | some r =>
    refine absurd ?_ hl
    rw [search_append h]
    simp [hy]

section One

variable {x : α} {l a b : List α}

theorem search_one (ha : x ∉ a) (b : List α) : search [x] (a ++ x :: b) = some (a, b) := by
  induction a with
  | nil => exact search_here [] b
  | cons y a ih =>
    have hy : y ≠ x := fun he => ha (he ▸ List.mem_cons_self)
    have hnone : (y :: (a ++ x :: b)).dropPrefix? [x] = none := by
      cases h : (y :: (a ++ x :: b)).dropPrefix? [x] with
      | none => rfl
      | some rest => exact absurd (List.cons.inj (eq_append_of_dropPrefix? h)).1 hy
    rw [List.cons_append, search_cons hnone, ih fun hm => ha (List.mem_cons_of_mem _ hm)]
    rfl

theorem search_one_eq_some : search [x] l = some (a, b) ↔ l = a ++ x :: b ∧ x ∉ a := by
  constructor
  · intro h
    have hl : l = a ++ x :: b := by simpa using search_append h
    have hmem : x ∈ l := by simp [hl]
    obtain ⟨c, d, hcd, hc⟩ := List.eq_append_cons_of_mem hmem
    rw [hcd, search_one hc d] at h
    obtain ⟨rfl, -⟩ := Prod.mk.inj (Option.some.inj h)
    exact ⟨hl, hc⟩
  · intro hx
    obtain ⟨rfl, ha⟩ := hx
    exact search_one ha b

end One

section Line

variable {x y : α} {l tail u t : List α}

/-- A line without `y` ends at the first `x`, `y`. -/
theorem search_line (hxy : x ≠ y) (hl : y ∉ l) (tail : List α) :
    search [x, y] (l ++ x :: y :: tail) = some (l, tail) := by
  induction l with
  | nil => exact search_here [y] tail
  | cons z l ih =>
    have hl' : y ∉ l := fun hm => hl (List.mem_cons_of_mem _ hm)
    have hnone : (z :: (l ++ x :: y :: tail)).dropPrefix? [x, y] = none := by
      cases h : (z :: (l ++ x :: y :: tail)).dropPrefix? [x, y] with
      | none => rfl
      | some rest =>
        have hcons := (List.cons.inj (eq_append_of_dropPrefix? h)).2
        cases l with
        | nil => exact absurd (List.cons.inj hcons).1 hxy
        | cons w l => exact absurd ((List.cons.inj hcons).1 ▸ List.mem_cons_self) hl'
    rw [List.cons_append, search_cons hnone, ih hl']
    rfl

omit [DecidableEq α] in
/-- What may have come of a text whose first line is `l`: part of that line, perhaps with
half of its end, or the line with its end and part of the rest. -/
theorem line_cases (hxy : x ≠ y) (hl : y ∉ l) (h : u ++ t = l ++ x :: y :: tail) :
    (u <+: l ++ [x] ∧ y ∉ u) ∨ ∃ v, u = l ++ x :: y :: v ∧ v ++ t = tail := by
  have hline : y ∉ l ++ [x] := by
    simp only [List.mem_append, List.mem_singleton, not_or]
    exact ⟨hl, hxy.symm⟩
  have hpart (hu : u <+: l ++ [x]) : u <+: l ++ [x] ∧ y ∉ u :=
    ⟨hu, fun hm => hline (hu.subset hm)⟩
  have h' : u ++ t = (l ++ [x]) ++ y :: tail := by simpa using h
  rcases List.append_eq_append_iff.mp h' with ⟨a, ha, -⟩ | ⟨c, hc, hct⟩
  · exact Or.inl (hpart ⟨a, ha.symm⟩)
  · cases c with
    | nil =>
      rw [List.append_nil] at hc
      exact Or.inl (hpart (hc ▸ List.prefix_rfl))
    | cons z v =>
      obtain ⟨rfl, rfl⟩ := List.cons.inj hct
      exact Or.inr ⟨v, by simpa using hc, rfl⟩

end Line

section Fuel

variable {β γ : Type*}

/-- A function that goes through a list with a bound on its rounds: once there is a round for
every element, more of them make no difference. -/
theorem eq_of_length_le {f : Nat → List β → γ} (hnil : ∀ m, f m [] = f 0 [])
    (hstep : ∀ k m l, (∀ rest : List β, rest.length < l.length → f k rest = f m rest) →
      f (k + 1) l = f (m + 1) l) {l : List β} {k m : Nat} (hk : l.length ≤ k) (hm : l.length ≤ m) :
    f k l = f m l := by
  induction k generalizing l m with
  | zero =>
    rw [List.length_eq_zero_iff.mp (Nat.le_zero.mp hk)]
    exact (hnil m).symm
  | succ k ih =>
    cases m with
    | zero =>
      rw [List.length_eq_zero_iff.mp (Nat.le_zero.mp hm)]
      exact hnil (k + 1)
    | succ m =>
      apply hstep
      intro rest hrest
      exact ih (by omega) (by omega)

end Fuel

end Mymuduo.Lib
