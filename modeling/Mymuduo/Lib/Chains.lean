import Mymuduo.Lib.Words

namespace Mymuduo.Lib

/-! A family of null-terminated chains whose links are words of one memory. The nodes are aligned,
so that the words of two of them have no byte in common. -/

namespace ByteMem

variable {m m' : ByteMem} {a b w v : Nat}

/-- Words at different aligned addresses do not overlap. -/
theorem aligned_apart (ha : w ∣ a) (hb : w ∣ b) (hne : a ≠ b) : a + w ≤ b ∨ b + w ≤ a := by
  obtain ⟨i, rfl⟩ := ha
  obtain ⟨j, rfl⟩ := hb
  rcases Nat.lt_or_gt_of_ne (fun he => hne (congrArg (w * ·) he)) with hlt | hlt
  · have hle := Nat.mul_le_mul_left w hlt
    rw [Nat.mul_succ] at hle
    exact Or.inl hle
  · have hle := Nat.mul_le_mul_left w hlt
    rw [Nat.mul_succ] at hle
    exact Or.inr hle

theorem load_store_ne (m : ByteMem) (v : Nat) (ha : w ∣ a) (hb : w ∣ b) (hne : b ≠ a) :
    (m.store w a v).load w b = m.load w b :=
  (m.store_same w a v).load (aligned_apart hb ha hne)

/-- Nothing changes outside the words at the addresses `W`. -/
def SameBut (w : Nat) (W : List Nat) (m m' : ByteMem) : Prop :=
  ∀ x, (∀ c ∈ W, x < c ∨ c + w ≤ x) → m' x = m x

namespace SameBut

variable {W W' : List Nat} {m'' : ByteMem}

theorem refl (W : List Nat) (m : ByteMem) : SameBut w W m m := fun _ _ => rfl

theorem store (m : ByteMem) (v : Nat) (ha : a ∈ W) : SameBut w W m (m.store w a v) := by
  intro x hx
  exact m.store_same w a v x (hx a ha)

theorem trans (h : SameBut w W m m') (h' : SameBut w W m' m'') : SameBut w W m m'' := by
  intro x hx
  rw [h' x hx, h x hx]

theorem mono (h : SameBut w W m m') (hsub : W ⊆ W') : SameBut w W' m m' := by
  intro x hx
  exact h x (fun c hc => hx c (hsub hc))

/-- The other words on the grid are as before. -/
theorem load (h : SameBut w W m m') (hW : ∀ c ∈ W, w ∣ c) (hb : w ∣ b) (hnot : b ∉ W) :
    m'.load w b = m.load w b := by
  apply load_congr
  intro x hbx hxw
  apply h
  intro c hc
  have hapart := aligned_apart hb (hW c hc) (fun he => hnot (he ▸ hc))
  omega

end SameBut

end ByteMem

namespace NullChain

variable {next : Nat → Nat} {p : Nat} {l l₁ l₂ : List Nat} {m : ByteMem} {a e q w v : Nat}

theorem cons (h : NullChain next p l) (ha : a ≠ 0) (hnext : next a = p) :
    NullChain next a (a :: l) := by
  refine ⟨rfl, ha, ?_⟩
  rw [hnext]
  exact h

theorem eq_zero_iff (h : NullChain next p l) : p = 0 ↔ l = [] := by
  cases l with
  | nil => exact iff_of_true h rfl
  | cons a l =>
    obtain ⟨rfl, ha, -⟩ := h
    exact iff_of_false ha (List.cons_ne_nil p l)

/-- The nodes behind a part of the chain. -/
theorem rest (h : NullChain next p (l₁ ++ e :: l₂)) : e ≠ 0 ∧ NullChain next (next e) l₂ := by
  induction l₁ generalizing p with
  | nil =>
    obtain ⟨-, he, hrest⟩ := h
    exact ⟨he, hrest⟩
  | cons a l₁ ih => exact ih h.2.2

/-- Following the links `n` times. -/
theorem iterate (h : NullChain next p (l₁ ++ e :: l₂)) : next^[l₁.length] p = e := by
  induction l₁ generalizing p with
  | nil => exact h.1
  | cons a l₁ ih =>
    obtain ⟨rfl, -, hrest⟩ := h
    rw [List.length_cons, Function.iterate_succ_apply]
    exact ih hrest

/-- A word elsewhere is stored. -/
theorem store (h : NullChain (m.load w) p l) (hl : ∀ b ∈ l, w ∣ b) (ha : w ∣ a) (hnot : a ∉ l)
    (v : Nat) : NullChain ((m.store w a v).load w) p l := by
  apply h.congr
  intro b hb
  exact m.load_store_ne v ha (hl b hb) (fun he => hnot (he ▸ hb))

/-- The last node of a part gets another link. -/
theorem relink (h : NullChain (m.load w) p (l₁ ++ e :: l₂)) (hl : ∀ b ∈ l₁ ++ [e], w ∣ b)
    (hnot : e ∉ l₁) (hq : q < 256 ^ w) {l : List Nat}
    (hrest : NullChain ((m.store w e q).load w) q l) :
    NullChain ((m.store w e q).load w) p (l₁ ++ e :: l) := by
  have he : w ∣ e := hl e (List.mem_append_right l₁ (List.mem_singleton_self e))
  induction l₁ generalizing p with
  | nil =>
    obtain ⟨hp, he0, -⟩ := h
    refine ⟨hp, he0, ?_⟩
    rw [m.load_store e hq]
    exact hrest
  | cons a l₁ ih =>
    obtain ⟨hp, ha, htail⟩ := h
    rw [List.mem_cons, not_or] at hnot
    refine ⟨hp, ha, ?_⟩
    rw [m.load_store_ne q he (hl a List.mem_cons_self) (Ne.symm hnot.1)]
    exact ih htail (fun b hb => hl b (List.mem_cons_of_mem a hb)) hnot.2

end NullChain

section Family

variable {K : Type*}

/-- Nodes that are in one list each, and there once. -/
structure Spread (w : Nat) (lists : K → List Nat) : Prop where
  nodup : ∀ k, (lists k).Nodup
  apart : ∀ j k a, a ∈ lists j → a ∈ lists k → j = k
  aligned : ∀ k, ∀ a ∈ lists k, w ∣ a
  bounded : ∀ k, ∀ a ∈ lists k, a < 256 ^ w

/-- The chains that start at `ptr k` and go through `lists k`. -/
structure Chains (w : Nat) (m : ByteMem) (ptr : K → Nat) (lists : K → List Nat) : Prop where
  chain : ∀ k, NullChain (m.load w) (ptr k) (lists k)
  spread : Spread w lists

variable {w : Nat} {lists : K → List Nat}

/-- The pointers to chains fit in a word. -/
theorem Chains.ptr_lt {m : ByteMem} {ptr : K → Nat} (h : Chains w m ptr lists) (k : K) :
    ptr k < 256 ^ w := by
  have hchain := h.chain k
  cases hl : lists k with
  | nil =>
    rw [hl] at hchain
    rw [show ptr k = 0 from hchain]
    exact Nat.pow_pos (by decide)
  | cons a l =>
    rw [hl] at hchain
    rw [hchain.1]
    exact h.spread.bounded k a (hl ▸ List.mem_cons_self)

theorem Chains.nil (w : Nat) (m : ByteMem) :
    Chains w m (fun _ => 0) (fun _ => [] : K → List Nat) := by
  refine ⟨fun _ => rfl, fun _ => List.nodup_nil, ?_, ?_, ?_⟩
  · intro _ _ a ha
    exact absurd ha List.not_mem_nil
  · intro _ a ha
    exact absurd ha List.not_mem_nil
  · intro _ a ha
    exact absurd ha List.not_mem_nil

variable [DecidableEq K]

namespace Spread

/-- One list changes, and gets new nodes only. -/
theorem replace (h : Spread w lists) (k : K) {l : List Nat} (hnodup : l.Nodup)
    (hapart : ∀ a ∈ l, ∀ j, j ≠ k → a ∉ lists j) (haligned : ∀ a ∈ l, w ∣ a)
    (hbounded : ∀ a ∈ l, a < 256 ^ w) : Spread w (Function.update lists k l) := by
  have hcases : ∀ i, (i = k ∧ Function.update lists k l i = l) ∨
      (i ≠ k ∧ Function.update lists k l i = lists i) := by
    intro i
    by_cases hi : i = k
    · subst hi
      exact Or.inl ⟨rfl, Function.update_self i l lists⟩
    · exact Or.inr ⟨hi, Function.update_of_ne hi l lists⟩
  refine ⟨?_, ?_, ?_, ?_⟩
  · intro i
    rcases hcases i with ⟨-, he⟩ | ⟨-, he⟩
    · rw [he]
      exact hnodup
    · rw [he]
      exact h.nodup i
  · intro i j a hi hj
    rcases hcases i with ⟨hik, he⟩ | ⟨hik, he⟩ <;> rcases hcases j with ⟨hjk, he'⟩ | ⟨hjk, he'⟩
    · rw [hik, hjk]
    · rw [he] at hi
      rw [he'] at hj
      exact absurd hj (hapart a hi j hjk)
    · rw [he] at hi
      rw [he'] at hj
      exact absurd hi (hapart a hj i hik)
    · rw [he] at hi
      rw [he'] at hj
      exact h.apart i j a hi hj
  · intro i
    rcases hcases i with ⟨-, he⟩ | ⟨-, he⟩
    · rw [he]
      exact haligned
    · rw [he]
      exact h.aligned i
  · intro i
    rcases hcases i with ⟨-, he⟩ | ⟨-, he⟩
    · rw [he]
      exact hbounded
    · rw [he]
      exact h.bounded i

theorem push (h : Spread w lists) (k : K) {a : Nat} (hnew : ∀ j, a ∉ lists j) (haligned : w ∣ a)
    (hbounded : a < 256 ^ w) : Spread w (Function.update lists k (a :: lists k)) := by
  apply h.replace k (List.nodup_cons.mpr ⟨hnew k, h.nodup k⟩)
  · intro b hb j hj
    rcases List.mem_cons.mp hb with rfl | hb
    · exact hnew j
    · exact fun hbj => hj (h.apart j k b hbj hb)
  · exact List.forall_mem_cons.mpr ⟨haligned, h.aligned k⟩
  · exact List.forall_mem_cons.mpr ⟨hbounded, h.bounded k⟩

/-- Nodes are left out. -/
theorem sub (h : Spread w lists) (k : K) {l : List Nat} (hl : l.Sublist (lists k)) :
    Spread w (Function.update lists k l) := by
  apply h.replace k ((h.nodup k).sublist hl)
  · intro a ha j hj haj
    exact hj (h.apart j k a haj (hl.subset ha))
  · intro a ha
    exact h.aligned k a (hl.subset ha)
  · intro a ha
    exact h.bounded k a (hl.subset ha)

/-- Nodes move between two lists. -/
theorem move (h : Spread w lists) {j k : K} (hne : j ≠ k) {l l' : List Nat}
    (hperm : (l ++ l').Perm (lists j ++ lists k)) :
    Spread w (Function.update (Function.update lists j l) k l') := by
  have hnodup : (lists j ++ lists k).Nodup := by
    refine (h.nodup j).append (h.nodup k) ?_
    intro a hj hk
    exact hne (h.apart j k a hj hk)
  obtain ⟨hl, hl', hapart⟩ := List.nodup_append.mp (hperm.nodup_iff.mpr hnodup)
  have hmem : ∀ a ∈ l ++ l', a ∈ lists j ∨ a ∈ lists k := by
    intro a ha
    exact List.mem_append.mp (hperm.mem_iff.mp ha)
  have hother : ∀ a ∈ l ++ l', ∀ i, i ≠ j → i ≠ k → a ∉ lists i := by
    intro a ha i hij hik hai
    rcases hmem a ha with hold | hold
    · exact hij (h.apart i j a hai hold)
    · exact hik (h.apart i k a hai hold)
  have haligned : ∀ a ∈ l ++ l', w ∣ a := by
    intro a ha
    exact (hmem a ha).elim (h.aligned j a) (h.aligned k a)
  have hbounded : ∀ a ∈ l ++ l', a < 256 ^ w := by
    intro a ha
    exact (hmem a ha).elim (h.bounded j a) (h.bounded k a)
  -- first the list at `k` is emptied, so that neither half meets what it had
  have hempty : Spread w (Function.update lists k []) := h.sub k (List.nil_sublist _)
  have hfirst : Spread w (Function.update (Function.update lists k []) j l) := by
    apply hempty.replace j hl
    · intro a ha i hij
      by_cases hik : i = k
      · rw [hik, Function.update_self]
        exact List.not_mem_nil
      · rw [Function.update_of_ne hik]
        exact hother a (List.mem_append_left l' ha) i hij hik
    · exact fun a ha => haligned a (List.mem_append_left l' ha)
    · exact fun a ha => hbounded a (List.mem_append_left l' ha)
  have hboth := hfirst.replace k hl' ?_ (fun a ha => haligned a (List.mem_append_right l ha))
    (fun a ha => hbounded a (List.mem_append_right l ha))
  · rw [Function.update_comm hne.symm, Function.update_idem] at hboth
    exact hboth
  · intro a ha i hik
    by_cases hij : i = j
    · rw [hij, Function.update_self]
      exact fun hal => hapart a hal a ha rfl
    · rw [Function.update_of_ne hij, Function.update_of_ne hik]
      exact hother a (List.mem_append_right l ha) i hij hik

end Spread

namespace Chains

variable {m : ByteMem} {ptr : K → Nat} {j k : K} {a e : Nat} {l l₁ l₂ : List Nat}

theorem push (h : Chains w m ptr lists) (k : K) (hnew : ∀ j, a ∉ lists j) (ha : a ≠ 0)
    (haligned : w ∣ a) (hbounded : a < 256 ^ w) :
    Chains w (m.store w a (ptr k)) (Function.update ptr k a)
      (Function.update lists k (a :: lists k)) := by
  refine ⟨?_, h.spread.push k hnew haligned hbounded⟩
  have hstore : ∀ i, NullChain ((m.store w a (ptr k)).load w) (ptr i) (lists i) := by
    intro i
    exact (h.chain i).store (h.spread.aligned i) haligned (hnew i) (ptr k)
  intro i
  by_cases hi : i = k
  · subst hi
    rw [Function.update_self, Function.update_self]
    exact (hstore i).cons ha (m.load_store a (h.ptr_lt i))
  · rw [Function.update_of_ne hi, Function.update_of_ne hi]
    exact hstore i

theorem pop (h : Chains w m ptr lists) (hl : lists k = a :: l) :
    Chains w m (Function.update ptr k (m.load w (ptr k))) (Function.update lists k l) := by
  have hsub : l.Sublist (lists k) := hl ▸ List.sublist_cons_self a l
  refine ⟨?_, h.spread.sub k hsub⟩
  intro i
  by_cases hi : i = k
  · subst hi
    rw [Function.update_self, Function.update_self]
    have hchain := h.chain i
    rw [hl] at hchain
    obtain ⟨hp, -, hrest⟩ := hchain
    rw [hp]
    exact hrest
  · rw [Function.update_of_ne hi, Function.update_of_ne hi]
    exact h.chain i

theorem clear (h : Chains w m ptr lists) (k : K) :
    Chains w m (Function.update ptr k 0) (Function.update lists k []) := by
  refine ⟨?_, h.spread.sub k (List.nil_sublist _)⟩
  intro i
  by_cases hi : i = k
  · subst hi
    rw [Function.update_self, Function.update_self]
    rfl
  · rw [Function.update_of_ne hi, Function.update_of_ne hi]
    exact h.chain i

/-- The front of a chain, up to `e`, becomes a chain of its own. -/
theorem cut (h : Chains w m ptr lists) (hne : j ≠ k) (hk : lists k = [])
    (hl : lists j = l₁ ++ e :: l₂) :
    Chains w (m.store w e 0) (Function.update (Function.update ptr j (m.load w e)) k (ptr j))
      (Function.update (Function.update lists j l₂) k (l₁ ++ [e])) := by
  have hperm : (l₂ ++ (l₁ ++ [e])).Perm (lists j ++ lists k) := by
    rw [hk, List.append_nil, hl, List.append_cons l₁ e l₂]
    exact List.perm_append_comm
  have hej : e ∈ lists j := hl ▸ List.mem_append_right l₁ List.mem_cons_self
  have haligned : w ∣ e := h.spread.aligned j e hej
  have hchain := h.chain j
  have hnodup := h.spread.nodup j
  have hall := h.spread.aligned j
  rw [hl] at hchain hnodup hall
  refine ⟨?_, h.spread.move hne hperm⟩
  intro i
  by_cases hik : i = k
  · subst hik
    rw [Function.update_self, Function.update_self]
    have hfront : e ∉ l₁ := by
      intro hm
      exact (List.nodup_append.mp hnodup).2.2 e hm e List.mem_cons_self rfl
    have hend : NullChain ((m.store w e 0).load w) 0 [] := rfl
    apply hchain.relink _ hfront (Nat.pow_pos (by decide)) hend
    intro b hb
    apply hall b
    rw [List.append_cons]
    exact List.mem_append_left l₂ hb
  · rw [Function.update_of_ne hik, Function.update_of_ne hik]
    by_cases hij : i = j
    · subst hij
      rw [Function.update_self, Function.update_self]
      have hback : e ∉ l₂ := (List.nodup_cons.mp (List.nodup_append.mp hnodup).2.1).1
      apply hchain.rest.2.store _ haligned hback 0
      intro b hb
      exact hall b (List.mem_append_right l₁ (List.mem_cons_of_mem e hb))
    · rw [Function.update_of_ne hij, Function.update_of_ne hij]
      exact (h.chain i).store (h.spread.aligned i) haligned
        (fun hm => hij (h.spread.apart i j e hm hej)) 0

/-- A whole chain, whose last node is `e`, goes in front of another one. -/
theorem join (h : Chains w m ptr lists) (hne : j ≠ k) (hl : lists k = l ++ [e]) :
    Chains w (m.store w e (ptr j)) (Function.update (Function.update ptr j (ptr k)) k 0)
      (Function.update (Function.update lists j (lists k ++ lists j)) k []) := by
  have hperm : (lists k ++ lists j ++ []).Perm (lists j ++ lists k) := by
    rw [List.append_nil]
    exact List.perm_append_comm
  have hek : e ∈ lists k := hl ▸ List.mem_append_right l (List.mem_singleton_self e)
  have haligned : w ∣ e := h.spread.aligned k e hek
  have hstore : ∀ i, i ≠ k → NullChain ((m.store w e (ptr j)).load w) (ptr i) (lists i) := by
    intro i hi
    exact (h.chain i).store (h.spread.aligned i) haligned
      (fun hm => hi (h.spread.apart i k e hm hek)) (ptr j)
  refine ⟨?_, h.spread.move hne hperm⟩
  intro i
  by_cases hik : i = k
  · subst hik
    rw [Function.update_self, Function.update_self]
    rfl
  · rw [Function.update_of_ne hik, Function.update_of_ne hik]
    by_cases hij : i = j
    · subst hij
      rw [Function.update_self, Function.update_self]
      have hchain := h.chain k
      have hnodup := h.spread.nodup k
      have hall := h.spread.aligned k
      rw [hl] at hchain hnodup hall
      have hfront : e ∉ l := by
        intro hm
        exact (List.nodup_append.mp hnodup).2.2 e hm e (List.mem_singleton_self e) rfl
      rw [hl, List.append_assoc]
      exact hchain.relink hall hfront (h.ptr_lt i) (hstore i hne)
    · rw [Function.update_of_ne hij, Function.update_of_ne hij]
      exact hstore i hik

/-- A chain of new nodes, of which only the words are written. -/
theorem adopt (h : Chains w m ptr lists) (k : K) {m' : ByteMem} {p : Nat}
    (hl : NullChain (m'.load w) p l) (hsame : ByteMem.SameBut w l m m') (hnodup : l.Nodup)
    (hnew : ∀ b ∈ l, ∀ i, b ∉ lists i) (haligned : ∀ b ∈ l, w ∣ b)
    (hbounded : ∀ b ∈ l, b < 256 ^ w) :
    Chains w m' (Function.update ptr k p) (Function.update lists k l) := by
  refine ⟨?_, h.spread.replace k hnodup (fun b hb i _ => hnew b hb i) haligned hbounded⟩
  intro i
  by_cases hi : i = k
  · subst hi
    rw [Function.update_self, Function.update_self]
    exact hl
  · rw [Function.update_of_ne hi, Function.update_of_ne hi]
    apply (h.chain i).congr
    intro b hb
    exact hsame.load haligned (h.spread.aligned i b hb) (fun hbl => hnew b hbl i hb)

end Chains

end Family

end Mymuduo.Lib
