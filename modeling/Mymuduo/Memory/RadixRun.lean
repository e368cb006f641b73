import Mymuduo.Memory.RadixEnsure

namespace Mymuduo.Memory

open Lib

/-- A system that refuses no memory. -/
structure Generous extends Sbrk where
  grants : ∀ call brk increment, reply call brk increment ≠ none

/-- The system that gives memory at the break, or behind it where that is no proper pointer. -/
instance : Inhabited Generous where
  default := {
    reply := fun _ brk _ => some (if brk = 0 ∨ brk = SBRK_FAILED then brk + 1 else brk)
    raises := by
      intro call brk increment ptr h
      obtain rfl := Option.some.inj h
      split_ifs <;> omega
    proper := by
      intro call brk increment ptr h
      obtain rfl := Option.some.inj h
      have hfailed : SBRK_FAILED = 2 ^ 64 - 1 := rfl
      split_ifs with hbrk <;> omega
    grants := fun _ _ _ => Option.some_ne_none _ }

inductive MapCall where
  | Ensure (start n : Nat)
  | set (k s : Nat)

/-- A page map with the history of its calls: the ranges for which `Ensure` returned `true`,
and the span that each key was set to last, null before. -/
structure MapState where
  heap : MapHeap
  ensured : List (Nat × Nat)
  written : Nat → Nat

namespace MapState

def init (seg : Segment) : MapState := ⟨⟨TCMalloc_PageMap3.init, seg⟩, [], fun _ => 0⟩

/-- The calls that are made: the last key of a range does not wrap around, and only keys of
ensured ranges are set. -/
def Allowed (s : MapState) : MapCall → Prop
  | .Ensure start n => 1 ≤ n ∧ start + n ≤ 2 ^ 64
  | .set k _ => k < 2 ^ 35 ∧ ∃ range ∈ s.ensured, range.1 ≤ k ∧ k < range.1 + range.2

instance (s : MapState) : (a : MapCall) → Decidable (s.Allowed a)
  | .Ensure _ _ => inferInstanceAs (Decidable (_ ∧ _))
  | .set _ _ => inferInstanceAs (Decidable (_ ∧ _))

variable (os : Generous)

/-- What a call does; there is no next state if the call is not made or does not return. -/
def step (s : MapState) (a : MapCall) : Option MapState :=
  if s.Allowed a then
    match a with
    | .Ensure start n =>
      match MapHeap.Ensure os.toSbrk start n s.heap with
      | .ok b m => some { s with
          heap := m
          ensured := if b then (start, n) :: s.ensured else s.ensured }
      | .error _ _ => none
    | .set k x =>
      match s.heap.map.set k x with
      | .ok m => some { s with
          heap := { s.heap with map := m }
          written := Function.update s.written k x }
      | .error _ => none
  else none

/-- What the calls and lookups that may follow do: the radix tree is a map from page numbers to
spans. -/
structure Refined (s : MapState) : Prop where
  lookup : ∀ k, s.heap.map.get k = s.written k
  outside : ∀ k, 2 ^ 35 ≤ k → s.heap.map.get k = 0
  ensure : ∀ start n, s.Allowed (.Ensure start n) → ∃ m,
    MapHeap.Ensure os.toSbrk start n s.heap = .ok (decide (start + n ≤ 2 ^ 35)) m ∧
      ∀ k, m.map.get k = s.heap.map.get k
  set : ∀ k x, s.Allowed (.set k x) → ∃ m, s.heap.map.set k x = .ok m ∧
    ∀ k', m.get k' = if k' = k then x else s.heap.map.get k'

/-- The state of the page map in a run: the leaves of all ensured keys exist. -/
structure Inv (s : MapState) : Prop where
  grown : s.heap.Grown
  covered : ∀ range ∈ s.ensured, ∀ k, range.1 ≤ k → k < range.1 + range.2 → k < 2 ^ 35 →
    s.heap.map.HasLeaf k
  lookup : ∀ k, s.heap.map.get k = s.written k

variable {s t : MapState}

theorem Inv.ensure (h : s.Inv) {start n : Nat} (ha : s.Allowed (.Ensure start n)) : ∃ m,
    MapHeap.Ensure os.toSbrk start n s.heap = .ok (decide (start + n ≤ 2 ^ 35)) m ∧
      m.Grown ∧ (∀ k, m.map.get k = s.heap.map.get k) ∧
      (∀ k, s.heap.map.HasLeaf k → m.map.HasLeaf k) ∧
      ∀ k, start ≤ k → k < start + n → k < 2 ^ 35 → m.map.HasLeaf k := by
  have hyields := (MapHeap.Ensure_spec os.toSbrk h.grown ha.1 ha.2).mono (fun _ _ hq => hq)
    (F := fun _ _ => False) ?_
  · obtain ⟨b, m, hcall, rfl, he⟩ := hyields.exists_ok
    refine ⟨m, hcall, he.grown, he.growth.get, ?_, ?_⟩
    · intro k hk
      exact (he.growth.leaf k).mpr (Or.inl hk)
    · intro k hge hlt hmap
      exact (he.growth.leaf k).mpr (Or.inr (MapHeap.leaf_lt_stop hge (by omega) hmap))
  · intro e m he
    obtain ⟨-, ⟨call, brk, increment, hnone⟩, -⟩ := he
    exact os.grants call brk increment hnone

theorem Inv.hasLeaf (h : s.Inv) {k x : Nat} (ha : s.Allowed (.set k x)) :
    k < 2 ^ 35 ∧ s.heap.map.HasLeaf k := by
  obtain ⟨hk, range, hr, hge, hlt⟩ := ha
  exact ⟨hk, h.covered range hr k hge hlt hk⟩

theorem inv_init (seg : Segment) : (init seg).Inv := by
  refine ⟨MapHeap.grown_init seg, ?_, ?_⟩
  · intro range hr
    exact absurd hr List.not_mem_nil
  · intro k
    rw [TCMalloc_PageMap3.get_eq]
    exact if_neg fun h => h.2.1 rfl

theorem inv_step {os : Generous} {a : MapCall} (h : s.Inv) (ht : s.step os a = some t) : t.Inv := by
  simp only [step] at ht
  split_ifs at ht with ha
  cases a with
  | Ensure start n =>
    obtain ⟨m, hcall, hgrown, hget, hold, hnew⟩ := h.ensure os ha
    simp only [hcall] at ht
    obtain rfl := Option.some.inj ht
    refine ⟨hgrown, ?_, fun k => (hget k).trans (h.lookup k)⟩
    intro range hr k hge hlt hmap
    have hmem : range = (start, n) ∨ range ∈ s.ensured := by
      revert hr
      split_ifs
      · exact List.mem_cons.mp
      · exact Or.inr
    rcases hmem with rfl | hmem
    · exact hnew k hge hlt hmap
    · exact hold k (h.covered range hmem k hge hlt hmap)
  | set k x =>
    obtain ⟨hk, hleaf⟩ := h.hasLeaf ha
    simp only [TCMalloc_PageMap3.set_ok hk hleaf] at ht
    obtain rfl := Option.some.inj ht
    refine ⟨h.grown.withEntry k x, h.covered, ?_⟩
    intro k'
    change _ = Function.update s.written k x k'
    rw [MapHeap.get_withEntry h.grown hk hleaf, Function.update_apply, h.lookup]

theorem Inv.refined {os : Generous} (h : s.Inv) : s.Refined os := by
  refine ⟨h.lookup, ?_, ?_, ?_⟩
  · intro k hk
    rw [TCMalloc_PageMap3.get_eq]
    exact if_neg fun hx => absurd hx.1 (by omega)
  · intro start n ha
    obtain ⟨m, hcall, -, hget, -⟩ := h.ensure os ha
    exact ⟨m, hcall, hget⟩
  · intro k x ha
    obtain ⟨hk, hleaf⟩ := h.hasLeaf ha
    exact ⟨_, TCMalloc_PageMap3.set_ok hk hleaf x, MapHeap.get_withEntry h.grown hk hleaf x⟩

/-- Whatever is ensured and set, in whatever order, the three levels of the page map are a map
from page numbers to spans in which distinct keys do not collide. -/
theorem pageMap_refines (os : Generous) (seg : Segment) (as : List MapCall) :
    Always (step os) (Refined os) (init seg) as :=
  (always_of_step (fun _ _ _ h ht => inv_step h ht) (inv_init seg) as).mono fun _ h => h.refined

end MapState

end Mymuduo.Memory
