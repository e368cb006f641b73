import Mathlib.Tactic

namespace Mymuduo.Lib

/-! Runs of a system given by a partial step function: `step s a = none` says that the
system refuses the action `a` in the state `s`. -/

variable {σ α : Type*} (step : σ → α → Option σ)

/-- The state after a list of actions, none of them refused. -/
def run : σ → List α → Option σ
  | s, [] => some s
  | s, a :: as => (step s a).bind (run · as)

/-- `P` holds in every state a run passes through, its first and last included.
A run ends where an action is refused. -/
def Always (P : σ → Prop) : σ → List α → Prop
  | s, [] => P s
  | s, a :: as => P s ∧ ∀ t, step s a = some t → Always P t as

/-- Every step a run takes meets the condition `C` on the state before it and its action. -/
def Each (C : σ → α → Prop) : σ → List α → Prop
  | _, [] => True
  | s, a :: as => ∀ t, step s a = some t → C s a ∧ Each C t as

instance Always.decidable (P : σ → Prop) [DecidablePred P] :
    (s : σ) → (as : List α) → Decidable (Always step P s as)
  | s, [] => inferInstanceAs (Decidable (P s))
  | s, a :: as =>
    match h : step s a with
    | none => decidable_of_iff (P s) ⟨fun hs => ⟨hs, fun _ ht => nomatch h.symm.trans ht⟩, And.left⟩
    | some t =>
      have := Always.decidable P t as
      decidable_of_iff (P s ∧ Always step P t as)
        ⟨fun hs => ⟨hs.1, fun _ hu => Option.some.inj (h.symm.trans hu) ▸ hs.2⟩,
          fun hs => ⟨hs.1, hs.2 t h⟩⟩

instance Each.decidable (C : σ → α → Prop) [∀ s a, Decidable (C s a)] :
    (s : σ) → (as : List α) → Decidable (Each step C s as)
  | _, [] => inferInstanceAs (Decidable True)
  | s, a :: as =>
    match h : step s a with
    | none => isTrue fun _ ht => nomatch h.symm.trans ht
    | some t =>
      have := Each.decidable C t as
      decidable_of_iff (C s a ∧ Each step C t as)
        ⟨fun hs _ hu => Option.some.inj (h.symm.trans hu) ▸ hs, fun hs => hs t h⟩

/-- The system with a record of its steps beside the state, which no step reads. -/
def recording {ρ : Type*} (note : σ → α → ρ → ρ) (s : σ × ρ) (a : α) : Option (σ × ρ) :=
  (step s.1 a).map fun t => (t, note s.1 a s.2)

variable {step}

theorem recording_eq_some {ρ : Type*} {note : σ → α → ρ → ρ} {s t : σ × ρ} {a : α} :
    recording step note s a = some t ↔ step s.1 a = some t.1 ∧ t.2 = note s.1 a s.2 := by
  obtain ⟨u, r⟩ := t
  simp [recording, eq_comm]

theorem run_append (s : σ) (as bs : List α) :
    run step s (as ++ bs) = (run step s as).bind (run step · bs) := by
  induction as generalizing s with
  | nil => rfl
  | cons a as ih =>
    rw [List.cons_append, run, run, Option.bind_assoc]
    exact Option.bind_congr fun t _ => ih t

theorem Always.head {P : σ → Prop} {s : σ} {as : List α} (h : Always step P s as) : P s := by
  cases as with
  | nil => exact h
  | cons a as => exact h.1

theorem Always.last {P : σ → Prop} {s t : σ} {as : List α} (h : Always step P s as)
    (hr : run step s as = some t) : P t := by
  induction as generalizing s with
  | nil =>
    obtain rfl : s = t := by simpa [run] using hr
    exact h
  | cons a as ih =>
    obtain ⟨u, hu, hr⟩ := Option.bind_eq_some_iff.mp hr
    exact ih (h.2 u hu) hr

theorem Always.mono {P Q : σ → Prop} (hPQ : ∀ s, P s → Q s) {s : σ} {as : List α}
    (h : Always step P s as) : Always step Q s as := by
  induction as generalizing s with
  | nil => exact hPQ s h
  | cons a as ih => exact ⟨hPQ s h.1, fun t ht => ih (h.2 t ht)⟩

theorem Always.and {P Q : σ → Prop} {s : σ} {as : List α} (h : Always step P s as)
    (h' : Always step Q s as) : Always step (fun s => P s ∧ Q s) s as := by
  induction as generalizing s with
  | nil => exact ⟨h, h'⟩
  | cons a as ih => exact ⟨⟨h.1, h'.1⟩, fun t ht => ih (h.2 t ht) (h'.2 t ht)⟩

/-- The rule of invariants: what a step meeting `C` preserves holds along every run
whose steps all meet `C`. -/
theorem always_of_each {I : σ → Prop} {C : σ → α → Prop}
    (hstep : ∀ s a t, I s → step s a = some t → C s a → I t)
    {s : σ} {as : List α} (hs : I s) (h : Each step C s as) : Always step I s as := by
  induction as generalizing s with
  | nil => exact hs
  | cons a as ih =>
    refine ⟨hs, ?_⟩
    intro t ht
    obtain ⟨hc, he⟩ := h t ht
    exact ih (hstep s a t hs ht hc) he

/-- The rule of invariants for a condition that every step meets. -/
theorem always_of_step {I : σ → Prop} (hstep : ∀ s a t, I s → step s a = some t → I t)
    {s : σ} (hs : I s) (as : List α) : Always step I s as := by
  induction as generalizing s with
  | nil => exact hs
  | cons a as ih => exact ⟨hs, fun t ht => ih (hstep s a t hs ht)⟩

/-- The rule of invariants along runs that stay inside `A`. -/
theorem always_of_always {A I : σ → Prop}
    (hstep : ∀ s a t, I s → A s → step s a = some t → I t)
    {s : σ} {as : List α} (hs : I s) (h : Always step A s as) : Always step I s as := by
  induction as generalizing s with
  | nil => exact hs
  | cons a as ih => exact ⟨hs, fun t ht => ih (hstep s a t hs h.1 ht) (h.2 t ht)⟩

/-- Where one step keeps `P` exactly when it meets `C`, a whole run keeps `P` exactly when
each of its steps meets `C`. The invariant `I` may use `P` of the state before. -/
theorem always_iff_each {I P : σ → Prop} {C : σ → α → Prop}
    (hinv : ∀ s a t, I s → P s → step s a = some t → C s a → I t)
    (hstep : ∀ s a t, I s → P s → step s a = some t → (P t ↔ C s a))
    {s : σ} (hI : I s) (hP : P s) (as : List α) :
    Always step P s as ↔ Each step C s as := by
  induction as generalizing s with
  | nil => exact ⟨fun _ => trivial, fun _ => hP⟩
  | cons a as ih =>
    constructor
    · intro hx t ht
      obtain ⟨-, h⟩ := hx
      have hPt := (h t ht).head
      have hC := (hstep s a t hI hP ht).mp hPt
      exact ⟨hC, (ih (hinv s a t hI hP ht hC) hPt).mp (h t ht)⟩
    · refine fun h => ⟨hP, ?_⟩
      intro t ht
      obtain ⟨hC, he⟩ := h t ht
      exact (ih (hinv s a t hI hP ht hC) ((hstep s a t hI hP ht).mpr hC)).mpr he

theorem Each.and {C D : σ → α → Prop} {s : σ} {as : List α} (h : Each step C s as)
    (h' : Each step D s as) : Each step (fun s a => C s a ∧ D s a) s as := by
  induction as generalizing s with
  | nil => trivial
  | cons a as ih => exact fun t ht => ⟨⟨(h t ht).1, (h' t ht).1⟩, ih (h t ht).2 (h' t ht).2⟩

theorem Always.each {P : σ → Prop} {s : σ} {as : List α} (h : Always step P s as) :
    Each step (fun s _ => P s) s as := by
  induction as generalizing s with
  | nil => trivial
  | cons a as ih => exact fun t ht => ⟨h.1, ih (h.2 t ht)⟩

theorem Each.left {C : σ → α → Prop} {s : σ} {as bs : List α} (h : Each step C s (as ++ bs)) :
    Each step C s as := by
  induction as generalizing s with
  | nil => trivial
  | cons a as ih => exact fun t ht => ⟨(h t ht).1, ih (h t ht).2⟩

theorem Each.right {C : σ → α → Prop} {s t : σ} {as bs : List α} (h : Each step C s (as ++ bs))
    (hr : run step s as = some t) : Each step C t bs := by
  induction as generalizing s with
  | nil =>
    obtain rfl : s = t := by simpa [run] using hr
    exact h
  | cons a as ih =>
    obtain ⟨u, hu, hr⟩ := Option.bind_eq_some_iff.mp hr
    exact ih (h u hu).2 hr

/-- `Each`, told by the place of a step in the run. -/
theorem each_iff_split {C : σ → α → Prop} {s : σ} {as : List α} :
    Each step C s as ↔ ∀ pre a post t u, as = pre ++ a :: post → run step s pre = some t →
      step t a = some u → C t a := by
  induction as generalizing s with
  | nil =>
    refine ⟨?_, fun _ => trivial⟩
    intro _ pre a post t u h
    simp at h
  | cons b as ih =>
    constructor
    · intro h pre a post t u hsplit hr hu
      cases pre with
      | nil =>
        obtain ⟨rfl, -⟩ := List.cons.inj hsplit
        obtain rfl : s = t := by simpa [run] using hr
        exact (h u hu).1
      | cons c pre =>
        obtain ⟨rfl, htail⟩ := List.cons.inj hsplit
        obtain ⟨v, hv, hr⟩ := Option.bind_eq_some_iff.mp hr
        exact ih.mp (h v hv).2 pre a post t u htail hr hu
    · intro h v hv
      refine ⟨h [] b as s v rfl rfl hv, ih.mpr ?_⟩
      intro pre a post t u hsplit hr hu
      refine h (b :: pre) a post t u (by rw [hsplit]; rfl) ?_ hu
      simpa [run, hv] using hr

end Mymuduo.Lib
