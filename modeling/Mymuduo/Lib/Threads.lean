import Mathlib.Tactic

namespace Mymuduo.Lib

/-! Threads, each at a place of its program, with a mutex that they hold at some of the places.
`Function.update place t p` is a step of `t` to the place `p`. -/

variable {T P : Type*}

section Mutex

/-- The mutex is held by the thread that is at a place inside, and by nobody else. -/
def Owned (inside : P → Bool) (mutex : Option T) (place : T → P) : Prop :=
  ∀ t, mutex = some t ↔ inside (place t) = true

namespace Owned

variable [DecidableEq T] {inside : P → Bool} {mutex : Option T} {place : T → P} {t u : T} {p : P}

omit [DecidableEq T] in
theorem exclusive (h : Owned inside mutex place) (ht : inside (place t) = true)
    (hu : inside (place u) = true) : t = u :=
  Option.some.inj (((h t).mpr ht).symm.trans ((h u).mpr hu))

theorem lock (h : Owned inside none place) (hp : inside p = true) :
    Owned inside (some t) (Function.update place t p) := by
  intro u
  by_cases hu : u = t
  · simp [hu, hp]
  · have hout := h u
    simp only [reduceCtorEq, false_iff] at hout
    simp [Function.update_of_ne hu, hout, Ne.symm hu]

theorem unlock (h : Owned inside mutex place) (ht : inside (place t) = true)
    (hp : inside p = false) : Owned inside none (Function.update place t p) := by
  intro u
  by_cases hu : u = t
  · simp [hu, hp]
  · have hout : inside (place u) ≠ true := fun hin => hu (h.exclusive hin ht)
    simp [Function.update_of_ne hu, hout]

theorem stay (h : Owned inside mutex place) (hp : inside p = inside (place t)) :
    Owned inside mutex (Function.update place t p) := by
  intro u
  rw [h u]
  by_cases hu : u = t
  · rw [hu, Function.update_self, hp]
  · rw [Function.update_of_ne hu]

end Owned

end Mutex

section Tally

variable [Fintype T]

/-- How many threads are at places of a kind. -/
def tally (kind : P → Bool) (place : T → P) : Nat :=
  (Finset.univ.filter fun t => kind (place t) = true).card

theorem tally_eq_zero {kind : P → Bool} {place : T → P} (h : ∀ t, kind (place t) = false) :
    tally kind place = 0 := by
  rw [tally, Finset.card_eq_zero, Finset.filter_eq_empty_iff]
  intro t _
  rw [h t]
  exact Bool.false_ne_true

/-- One thread goes from its place to another. -/
theorem tally_update [DecidableEq T] (kind : P → Bool) (place : T → P) (t : T) (p : P) :
    tally kind (Function.update place t p) + (kind (place t)).toNat =
      tally kind place + (kind p).toNat := by
  have hsum : ∀ f : T → P, tally kind f =
      (kind (f t)).toNat + ∑ u ∈ Finset.univ.erase t, (kind (f u)).toNat := by
    intro f
    rw [tally, Finset.card_filter, ← Finset.add_sum_erase _ _ (Finset.mem_univ t)]
    congr 1
    · cases kind (f t) <;> rfl
    · apply Finset.sum_congr rfl
      intro u _
      cases kind (f u) <;> rfl
  have hrest : ∑ u ∈ Finset.univ.erase t, (kind (Function.update place t p u)).toNat =
      ∑ u ∈ Finset.univ.erase t, (kind (place u)).toNat := by
    apply Finset.sum_congr rfl
    intro u hu
    rw [Function.update_of_ne (Finset.ne_of_mem_erase hu)]
  rw [hsum, hsum place, hrest, Function.update_self]
  omega

end Tally

section Entries

variable {α : Type*} [DecidableEq T]

/-- What one thread has put into a list that many write. -/
def ofThread (t : T) (entries : List (T × α)) : List α :=
  (entries.filter fun e => e.1 = t).map Prod.snd

@[simp] theorem ofThread_append (t : T) (l l' : List (T × α)) :
    ofThread t (l ++ l') = ofThread t l ++ ofThread t l' := by
  simp [ofThread]

@[simp] theorem ofThread_self (t : T) (as : List α) : ofThread t (as.map (Prod.mk t)) = as := by
  simp [ofThread, List.filter_map, Function.comp_def]

theorem ofThread_other {t u : T} (h : u ≠ t) (as : List α) :
    ofThread u (as.map (Prod.mk t)) = [] := by
  simp [ofThread, List.filter_map, Function.comp_def, Ne.symm h]

end Entries

end Mymuduo.Lib
