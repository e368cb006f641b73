import Mathlib.Tactic

namespace Mymuduo.Lib

/-! Maps that are filled pair by pair, where a later pair replaces an earlier one. -/

variable {κ ν μ : Type*} [DecidableEq κ]

/-- The value of the last pair with the key. -/
def lastValue (ps : List (κ × ν)) (k : κ) : Option ν := ps.reverse.lookup k

@[simp] theorem lastValue_nil (k : κ) : lastValue ([] : List (κ × ν)) k = none := rfl

theorem lastValue_append (ps qs : List (κ × ν)) (k : κ) :
    lastValue (ps ++ qs) k = (lastValue qs k).or (lastValue ps k) := by
  rw [lastValue, List.reverse_append, List.lookup_append]
  rfl

theorem lastValue_concat (ps : List (κ × ν)) (p : κ × ν) (k : κ) :
    lastValue (ps ++ [p]) k = if k = p.1 then some p.2 else lastValue ps k := by
  rw [lastValue, List.reverse_append, List.reverse_singleton, List.singleton_append,
    List.lookup_cons]
  split_ifs with hk
  · simp [hk]
  · simp only [beq_eq_false_iff_ne.mpr hk]
    rfl

theorem mem_of_lastValue {ps : List (κ × ν)} {k : κ} {v : ν} (h : lastValue ps k = some v) :
    (k, v) ∈ ps := by
  obtain ⟨l, r, hl, -⟩ := List.lookup_eq_some_iff.mp h
  rw [← List.mem_reverse, hl]
  exact List.mem_append_right _ List.mem_cons_self

theorem lastValue_isSome {ps : List (κ × ν)} {k : κ} :
    (lastValue ps k).isSome ↔ ∃ p ∈ ps, k = p.1 := by
  rw [lastValue, List.lookup_isSome_iff]
  simp only [List.mem_reverse, beq_iff_eq]

/-- What is done to all values is done to the last one. -/
theorem lastValue_map (ps : List (κ × ν)) (f : ν → μ) (k : κ) :
    lastValue (ps.map fun p => (p.1, f p.2)) k = (lastValue ps k).map f := by
  induction ps using List.reverseRecOn with
  | nil => rfl
  | append_singleton ps p ih =>
    rw [List.map_append, List.map_singleton, lastValue_concat, lastValue_concat, ih]
    split_ifs with hk
    · rfl
    · rfl

/-- Filling a map pair by pair leaves the last value of every key. -/
theorem foldl_update (ps : List (κ × ν)) (m : κ → Option ν) (k : κ) :
    ps.foldl (fun (m : κ → Option ν) p => Function.update m p.1 (some p.2)) m k =
      (lastValue ps k).or (m k) := by
  induction ps using List.reverseRecOn with
  | nil => rfl
  | append_singleton ps p ih =>
    rw [List.foldl_append, List.foldl_cons, List.foldl_nil, Function.update_apply, ih,
      lastValue_concat]
    split_ifs with hk
    · rfl
    · rfl

end Mymuduo.Lib
