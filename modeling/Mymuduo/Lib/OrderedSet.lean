import Mathlib.Data.List.Sort
import Mathlib.Data.Prod.Lex
import Mathlib.Tactic

namespace Mymuduo.Lib

/-! Ordered sets without repetitions, as the sorted lists that an iteration over them gives. -/

/-- A set with the list of its elements in order. -/
@[ext] structure OrderedSet (α : Type*) [LinearOrder α] where
  elems : List α
  sorted : elems.Pairwise (· < ·)

namespace OrderedSet

variable {α : Type*} [LinearOrder α]

instance : Membership α (OrderedSet α) := ⟨fun s a => a ∈ s.elems⟩

theorem mem_def {s : OrderedSet α} {a : α} : a ∈ s ↔ a ∈ s.elems := Iff.rfl

def empty : OrderedSet α := ⟨[], List.Pairwise.nil⟩

/-- The least element. -/
def first (s : OrderedSet α) : Option α := s.elems.head?

theorem pairwise_orderedInsert {l : List α} {a : α} (h : l.Pairwise (· < ·)) (ha : a ∉ l) :
    (l.orderedInsert (· ≤ ·) a).Pairwise (· < ·) := by
  have hle : (l.orderedInsert (· ≤ ·) a).Pairwise (· ≤ ·) :=
    List.Pairwise.orderedInsert a l (h.imp le_of_lt)
  have hnodup : (l.orderedInsert (· ≤ ·) a).Nodup := by
    rw [(List.perm_orderedInsert (· ≤ ·) a l).nodup_iff, List.nodup_cons]
    exact ⟨ha, h.imp ne_of_lt⟩
  exact (hle.and hnodup).imp fun hx => lt_of_le_of_ne hx.1 hx.2

/-- Adding an element that is there already changes nothing. -/
def insert (s : OrderedSet α) (a : α) : OrderedSet α :=
  if h : a ∈ s.elems then s else ⟨s.elems.orderedInsert (· ≤ ·) a, pairwise_orderedInsert s.sorted h⟩

/-- The elements below `x`, in order. -/
def below (s : OrderedSet α) (x : α) : List α := s.elems.takeWhile (· < x)

/-- The set without the elements below `x`. -/
def above (s : OrderedSet α) (x : α) : OrderedSet α :=
  ⟨s.elems.dropWhile (· < x), s.sorted.sublist (List.dropWhile_sublist _)⟩

theorem mem_insert {s : OrderedSet α} {a b : α} : b ∈ s.insert a ↔ b = a ∨ b ∈ s := by
  unfold insert
  split_ifs with h
  · constructor
    · exact Or.inr
    · intro hb
      rcases hb with rfl | hb
      · exact h
      · exact hb
  · exact List.mem_orderedInsert (· ≤ ·)

theorem first_eq_some {s : OrderedSet α} {a : α} :
    s.first = some a ↔ a ∈ s ∧ ∀ b ∈ s, a ≤ b := by
  obtain ⟨l, hl⟩ := s
  cases l with
  | nil => simp [first, mem_def]
  | cons c l =>
    have hc : ∀ b ∈ l, c < b := (List.pairwise_cons.mp hl).1
    simp only [first, mem_def, List.head?_cons, Option.some.injEq, List.mem_cons]
    constructor
    · intro hca
      subst hca
      refine ⟨Or.inl rfl, ?_⟩
      intro b hb
      rcases hb with rfl | hb
      · exact le_rfl
      · exact (hc b hb).le
    · intro ha
      rcases ha.1 with rfl | hmem
      · rfl
      · exact absurd (hc a hmem) (ha.2 c (Or.inl rfl)).not_gt

/-- In a sorted list the elements below `x` come first. -/
theorem takeWhile_eq_filter {l : List α} (h : l.Pairwise (· < ·)) (x : α) :
    l.takeWhile (· < x) = l.filter (· < x) := by
  induction l with
  | nil => rfl
  | cons a l ih =>
    by_cases ha : a < x
    · simp [ha, ih h.of_cons]
    · have hnone : l.filter (fun b => decide (b < x)) = [] := by
        rw [List.filter_eq_nil_iff]
        intro b hb
        have hab := List.rel_of_pairwise_cons h hb
        simpa using (not_lt.mp ha).trans hab.le
      simp [ha, hnone]

theorem below_eq_filter (s : OrderedSet α) (x : α) : s.below x = s.elems.filter (· < x) :=
  takeWhile_eq_filter s.sorted x

theorem mem_below {s : OrderedSet α} {x a : α} : a ∈ s.below x ↔ a ∈ s ∧ a < x := by
  rw [below_eq_filter, List.mem_filter, decide_eq_true_eq]
  rfl

theorem mem_above {s : OrderedSet α} {x a : α} : a ∈ s.above x ↔ a ∈ s ∧ x ≤ a := by
  have hsplit : s.below x ++ (s.above x).elems = s.elems := List.takeWhile_append_dropWhile
  have hsorted := s.sorted
  rw [← hsplit, List.pairwise_append] at hsorted
  constructor
  · intro ha
    have hmem : a ∈ s := by
      rw [mem_def, ← hsplit]
      exact List.mem_append_right _ ha
    refine ⟨hmem, ?_⟩
    by_contra hx
    exact lt_irrefl a (hsorted.2.2 a (mem_below.mpr ⟨hmem, not_le.mp hx⟩) a ha)
  · intro ha
    have hmem : a ∈ s.below x ++ (s.above x).elems := by
      rw [hsplit]
      exact ha.1
    rcases List.mem_append.mp hmem with hbelow | habove
    · exact absurd (mem_below.mp hbelow).2 ha.2.not_gt
    · exact habove

end OrderedSet

end Mymuduo.Lib
