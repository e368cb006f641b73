import Mathlib.Tactic

namespace Mymuduo.Lib

/-! Exact partitions: every element of `total` lies in one of the tiles, and in one only. -/

variable {ι α κ : Type*}

/-- The tiles `f i`, for `i` in `is`, fill `total` exactly. -/
structure Tiles (f : ι → List α) (is : List ι) (total : List α) : Prop where
  perm : (is.flatMap f).Perm total
  nodup : total.Nodup

namespace Tiles

variable {f g : ι → List α} {is js : List ι} {total : List α}

theorem reorder (h : Tiles f is total) (hp : is.Perm js) : Tiles f js total :=
  ⟨(hp.symm.flatMap_right f).trans h.perm, h.nodup⟩

theorem congr (h : Tiles f is total) (hsame : ∀ i ∈ is, g i = f i) : Tiles g is total := by
  refine ⟨?_, h.nodup⟩
  rw [List.flatMap_congr hsame]
  exact h.perm

/-- Some tiles are cut or joined, and the others stay. -/
theorem replace (as bs : List ι) (h : Tiles f (as ++ is) total) (hsame : ∀ i ∈ is, g i = f i)
    (hp : (bs.flatMap g).Perm (as.flatMap f)) : Tiles g (bs ++ is) total := by
  refine ⟨?_, h.nodup⟩
  have hold := h.perm
  rw [List.flatMap_append] at hold ⊢
  rw [List.flatMap_congr hsame]
  exact (hp.append_right _).trans hold

/-- A new tile with elements of its own. -/
theorem grow (h : Tiles f is total) (hsame : ∀ i ∈ is, g i = f i) {a : ι}
    (hnew : (g a ++ total).Nodup) : Tiles g (a :: is) (g a ++ total) := by
  refine ⟨?_, hnew⟩
  rw [List.flatMap_cons, List.flatMap_congr hsame]
  exact h.perm.append_left _

theorem mem_total (h : Tiles f is total) {i : ι} {x : α} (hi : i ∈ is) (hx : x ∈ f i) :
    x ∈ total :=
  h.perm.subset (List.mem_flatMap.mpr ⟨i, hi, hx⟩)

theorem owner (h : Tiles f is total) {x : α} (hx : x ∈ total) : ∃ i ∈ is, x ∈ f i :=
  List.mem_flatMap.mp (h.perm.symm.subset hx)

/-- Two tiles with a common element are the same tile. -/
theorem unique (h : Tiles f is total) {i j : ι} {x : α} (hi : i ∈ is) (hj : j ∈ is)
    (hxi : x ∈ f i) (hxj : x ∈ f j) : i = j := by
  have hnd := (List.nodup_flatMap.mp (h.perm.nodup_iff.mpr h.nodup)).2
  have hsymm : Std.Symm (Function.onFun List.Disjoint f) := ⟨fun _ _ hab => hab.symm⟩
  by_contra hne
  exact hnd.forall hi hj hne hxi hxj

end Tiles

/-- The contents of a family of buckets when one bucket is replaced. -/
theorem flatMap_update_perm [DecidableEq κ] (f : κ → List ι) (k : κ) (ys : List ι) {ks : List κ}
    (hnd : ks.Nodup) (hk : k ∈ ks) :
    (f k ++ ks.flatMap (Function.update f k ys)).Perm (ys ++ ks.flatMap f) := by
  obtain ⟨as, bs, rfl⟩ := List.append_of_mem hk
  have hnot : k ∉ as ++ bs := by
    have hmid := List.nodup_middle.mp hnd
    exact (List.nodup_cons.mp hmid).1
  have hsame : ∀ cs : List κ, k ∉ cs → cs.flatMap (Function.update f k ys) = cs.flatMap f := by
    intro cs hcs
    refine List.flatMap_congr fun c hc => Function.update_of_ne ?_ _ _
    intro he
    subst he
    exact hcs hc
  have has := hsame as fun hm => hnot (List.mem_append_left _ hm)
  have hbs := hsame bs fun hm => hnot (List.mem_append_right _ hm)
  simp only [List.flatMap_append, List.flatMap_cons, Function.update_self, has, hbs]
  classical
  rw [List.perm_iff_count]
  intro x
  simp only [List.count_append]
  omega

/-- The same for the number of occurrences in one list of a family. -/
theorem count_flatMap_update [DecidableEq κ] [DecidableEq ι] (f : κ → List ι) (k : κ)
    (ys : List ι) {ks : List κ} (hnd : ks.Nodup) (hk : k ∈ ks) (x : ι) :
    (ks.flatMap (Function.update f k ys)).count x + (f k).count x =
      (ks.flatMap f).count x + ys.count x := by
  have h := List.perm_iff_count.mp (flatMap_update_perm f k ys hnd hk) x
  simp only [List.count_append] at h
  omega

/-- A sum over a family when one member is replaced. -/
theorem sum_update {τ σ : Type*} [Fintype τ] [DecidableEq τ] (g : σ → Nat) (f : τ → σ) (t : τ)
    (v : σ) : ∑ x, g (Function.update f t v x) + g (f t) = ∑ x, g (f x) + g v := by
  rw [← Finset.add_sum_erase _ _ (Finset.mem_univ t), ← Finset.add_sum_erase _ (fun x => g (f x))
    (Finset.mem_univ t), Function.update_self]
  have hrest : ∑ x ∈ Finset.univ.erase t, g (Function.update f t v x) =
      ∑ x ∈ Finset.univ.erase t, g (f x) := by
    apply Finset.sum_congr rfl
    intro x hx
    rw [Function.update_of_ne (Finset.ne_of_mem_erase hx)]
  omega

theorem le_sum {τ : Type*} [Fintype τ] (g : τ → Nat) (t : τ) : g t ≤ ∑ x, g x :=
  Finset.single_le_sum (fun _ _ => Nat.zero_le _) (Finset.mem_univ t)

theorem add_le_sum {τ : Type*} [Fintype τ] (g : τ → Nat) {t u : τ} (hne : t ≠ u) :
    g t + g u ≤ ∑ x, g x := by
  classical
  have hle := Finset.sum_le_sum_of_subset (f := g) (Finset.subset_univ {t, u})
  rwa [Finset.sum_pair hne] at hle

end Mymuduo.Lib
