import Mathlib.Tactic

namespace Mymuduo.Lib

/-! Computations that change a state and may fault. A fault keeps the state it happened in. -/

universe u

variable {ε σ τ α β : Type u}

theorem bind_ok {x : EStateM ε σ α} {f : α → EStateM ε σ β} {s t : σ} {a : α}
    (h : x s = .ok a t) : (x >>= f) s = f a t := by
  change EStateM.bind x f s = _
  rw [EStateM.bind, h]

theorem bind_error {x : EStateM ε σ α} {f : α → EStateM ε σ β} {s t : σ} {e : ε}
    (h : x s = .error e t) : (x >>= f) s = .error e t := by
  change EStateM.bind x f s = _
  rw [EStateM.bind, h]

/-- How a computation ends: with a result and a state that meet `Q`, or with a fault and a
state that meet `E`. -/
def Yields (Q : α → σ → Prop) (E : ε → σ → Prop) : EStateM.Result ε σ α → Prop
  | .ok a s => Q a s
  | .error e s => E e s

namespace Yields

variable {Q R : α → σ → Prop} {E F : ε → σ → Prop}

theorem mono {r : EStateM.Result ε σ α} (h : Yields Q E r) (hQ : ∀ a s, Q a s → R a s)
    (hE : ∀ e s, E e s → F e s) : Yields R F r := by
  cases r with
  | ok a s => exact hQ a s h
  | error e s => exact hE e s h

/-- The rule of composition. -/
theorem bind {S : β → σ → Prop} {x : EStateM ε σ α} {f : α → EStateM ε σ β} {s : σ}
    (hx : Yields Q E (x s)) (hf : ∀ a t, Q a t → Yields S E (f a t)) :
    Yields S E ((x >>= f) s) := by
  change Yields S E (EStateM.bind x f s)
  rw [EStateM.bind]
  cases hr : x s with
  | ok a t =>
    rw [hr] at hx
    exact hf a t hx
  | error e t =>
    rw [hr] at hx
    exact hx

theorem ok {r : EStateM.Result ε σ α} {a : α} {s : σ} (h : Yields Q E r) (hr : r = .ok a s) :
    Q a s := by
  rw [hr] at h
  exact h

theorem error {r : EStateM.Result ε σ α} {e : ε} {s : σ} (h : Yields Q E r) (hr : r = .error e s) :
    E e s := by
  rw [hr] at h
  exact h

/-- A computation that does not fault has a result. -/
theorem exists_ok {r : EStateM.Result ε σ α} (h : Yields Q (fun _ _ => False) r) :
    ∃ a s, r = .ok a s ∧ Q a s := by
  cases r with
  | ok a s => exact ⟨a, s, rfl, h⟩
  | error e s => exact h.elim

end Yields

/-- The state in which a computation ends. -/
def final : EStateM.Result ε σ α → σ
  | .ok _ s => s
  | .error _ s => s

/-- The fault that a computation ends with. -/
def faultOf : EStateM.Result ε σ α → Option ε
  | .ok _ _ => none
  | .error e _ => some e

/-- A computation on one part of a larger state. -/
def within (get : τ → σ) (put : τ → σ → τ) (x : EStateM ε σ α) : EStateM ε τ α := fun t =>
  match x (get t) with
  | .ok a s => .ok a (put t s)
  | .error e s => .error e (put t s)

end Mymuduo.Lib
