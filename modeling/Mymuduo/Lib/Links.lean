import Mathlib.Data.List.Chain
import Mathlib.Tactic

namespace Mymuduo.Lib

/-! Doubly linked rings. Every node has a link forward and one back, and the nodes of a list stand
in a circle with its head. -/

variable {α : Type*}

structure Links (α : Type*) where
  next : α → α
  prev : α → α

namespace Links

/-- `y` comes behind `x`, and `x` before `y`. -/
structure Joined (L : Links α) (x y : α) : Prop where
  next : L.next x = y
  prev : L.prev y = x

/-- The nodes of `l` stand between `h` and `h`. -/
structure Ring (L : Links α) (h : α) (l : List α) : Prop where
  chain : (h :: l ++ [h]).IsChain L.Joined
  nodup : (h :: l).Nodup

variable {L : Links α} {h k x y u v p c : α} {l m pre mid post as bs : List α}

/-- A ring cut in two. -/
structure Cut (h : α) (pre post as : List α) (p c : α) (bs : List α) : Prop where
  left : h :: pre = as ++ [p]
  right : post ++ [h] = c :: bs
  last : p ∉ as
  first : c ∉ bs
  pre : c ∉ pre
  post : p ∉ post

/-- Where a ring is cut, the last node of one part and the first of the other are in their places
only. -/
theorem exists_cut (hn : (h :: (pre ++ post)).Nodup) : ∃ as p c bs, Cut h pre post as p c bs := by
  obtain ⟨hh, hall⟩ := List.nodup_cons.mp hn
  obtain ⟨hpre, hpost, hapart⟩ := List.nodup_append.mp hall
  rw [List.mem_append, not_or] at hh
  obtain ⟨as, p, hleft⟩ : ∃ as p, h :: pre = as ++ [p] :=
    ⟨_, _, (List.dropLast_append_getLast (List.cons_ne_nil h pre)).symm⟩
  obtain ⟨c, bs, hright⟩ : ∃ c bs, post ++ [h] = c :: bs :=
    List.exists_cons_of_ne_nil (List.append_ne_nil_of_right_ne_nil post (List.cons_ne_nil h []))
  have hleft' : (as ++ [p]).Nodup := hleft ▸ List.nodup_cons.mpr ⟨hh.1, hpre⟩
  have hright' : (c :: bs).Nodup := by
    rw [← hright]
    apply List.Nodup.append hpost (List.nodup_singleton h)
    simpa using hh.2
  refine ⟨as, p, c, bs, hleft, hright, ?_, (List.nodup_cons.mp hright').1, ?_, ?_⟩
  · intro hp
    exact (List.nodup_append.mp hleft').2.2 p hp p (List.mem_singleton_self p) rfl
  · have hc : c ∈ post ++ [h] := hright ▸ List.mem_cons_self
    intro hm
    rcases List.mem_append.mp hc with hc | hc
    · exact hapart c hm c hc rfl
    · rw [List.mem_singleton.mp hc] at hm
      exact hh.1 hm
  · have hp : p ∈ h :: pre := hleft ▸ List.mem_append_right as (List.mem_singleton_self p)
    intro hm
    rcases List.mem_cons.mp hp with hp | hp
    · rw [hp] at hm
      exact hh.2 hm
    · exact hapart p hp p hm rfl

namespace Cut

theorem tail (hc : Cut h pre post as p c bs) : (as ++ [p]).tail = pre := by
  rw [← hc.left]
  rfl

theorem dropLast (hc : Cut h pre post as p c bs) : (c :: bs).dropLast = post := by
  rw [← hc.right, List.dropLast_concat]

theorem split (hc : Cut h pre post as p c bs) (mid : List α) :
    h :: (pre ++ (mid ++ post)) ++ [h] = as ++ p :: (mid ++ c :: bs) := by
  have hends : h :: (pre ++ (mid ++ post)) ++ [h] = h :: pre ++ (mid ++ (post ++ [h])) := by simp
  rw [hends, hc.left, hc.right]
  simp

end Cut

namespace Ring

/-- Every node has a neighbour behind it. -/
theorem joined_next (hr : Ring L h l) (hx : x ∈ h :: l) :
    L.Joined x (L.next x) ∧ L.next x ∈ h :: l := by
  obtain ⟨as, bs, hsplit⟩ := List.append_of_mem hx
  obtain ⟨y, cs, hy⟩ : ∃ y cs, bs ++ [h] = y :: cs :=
    List.exists_cons_of_ne_nil (List.append_ne_nil_of_right_ne_nil bs (List.cons_ne_nil h []))
  have hchain := hr.chain
  rw [hsplit, List.append_assoc, List.cons_append, hy] at hchain
  obtain ⟨-, hbond, -⟩ := List.isChain_append_cons_cons.mp hchain
  rw [hbond.next]
  refine ⟨hbond, ?_⟩
  have hmem : y ∈ bs ++ [h] := hy ▸ List.mem_cons_self
  rcases List.mem_append.mp hmem with hm | hm
  · rw [hsplit]
    exact List.mem_append_right as (List.mem_cons_of_mem x hm)
  · rw [List.mem_singleton.mp hm]
    exact List.mem_cons_self

/-- And one before it. -/
theorem joined_prev (hr : Ring L h l) (hx : x ∈ h :: l) :
    L.Joined (L.prev x) x ∧ L.prev x ∈ h :: l := by
  have hx' : x ∈ l ++ [h] := by
    rw [List.mem_append, List.mem_singleton, or_comm]
    exact List.mem_cons.mp hx
  obtain ⟨as, bs, hsplit⟩ := List.append_of_mem hx'
  obtain ⟨cs, y, hy⟩ : ∃ cs y, h :: as = cs ++ [y] :=
    ⟨_, _, (List.dropLast_append_getLast (List.cons_ne_nil h as)).symm⟩
  have hchain := hr.chain
  rw [List.cons_append, hsplit, ← List.cons_append, hy, List.append_assoc] at hchain
  obtain ⟨-, hbond, -⟩ := List.isChain_append_cons_cons.mp hchain
  rw [hbond.prev]
  refine ⟨hbond, ?_⟩
  have hmem : y ∈ h :: as := hy ▸ List.mem_append_right cs (List.mem_singleton_self y)
  rcases List.mem_cons.mp hmem with hm | hm
  · exact List.mem_cons.mpr (Or.inl hm)
  · have hm' : y ∈ l ++ [h] := hsplit ▸ List.mem_append_left _ hm
    rw [List.mem_append, List.mem_singleton, or_comm] at hm'
    exact List.mem_cons.mpr hm'

theorem next_head_iff (hr : Ring L h l) : L.next h = h ↔ l = [] := by
  cases l with
  | nil => exact iff_of_true (List.isChain_cons_cons.mp hr.chain).1.next rfl
  | cons a l =>
    have hnext : L.next h = a := (List.isChain_cons_cons.mp hr.chain).1.next
    apply iff_of_false
    · rw [hnext]
      intro he
      exact (List.nodup_cons.mp hr.nodup).1 (he ▸ List.mem_cons_self)
    · exact List.cons_ne_nil a l

end Ring

/-- The links of a ring with `mid` between the ends of a cut. -/
theorem Ring.chain_cut (mid : List α) (hr : Ring L h (pre ++ (mid ++ post)))
    (hc : Cut h pre post as p c bs) :
    (as ++ p :: (mid ++ c :: bs)).IsChain L.Joined := by
  rw [← hc.split mid]
  exact hr.chain

section Changes

variable [DecidableEq α]

def setNext (L : Links α) (x y : α) : Links α := { L with next := Function.update L.next x y }

def setPrev (L : Links α) (x y : α) : Links α := { L with prev := Function.update L.prev x y }

/-- The two links between neighbours. -/
def join (L : Links α) (x y : α) : Links α := (L.setNext x y).setPrev y x

/-- `x` between `cur` and the node before it. -/
def insert (L : Links α) (cur x : α) : Links α := (L.join (L.prev cur) x).join x cur

def erase (L : Links α) (x : α) : Links α := L.join (L.prev x) (L.next x)

theorem joined_join (L : Links α) (x y : α) : (L.join x y).Joined x y := by
  constructor
  · simp [join, setNext, setPrev]
  · simp [join, setPrev]

/-- A new link takes nothing from neighbours that have other ends. -/
theorem Joined.join (hj : L.Joined u v) (hx : u ≠ x) (hy : v ≠ y) : (L.join x y).Joined u v := by
  constructor
  · simp [Links.join, setNext, setPrev, hx, hj.next]
  · simp [Links.join, setNext, setPrev, hy, hj.prev]

theorem chain_join (hl : l.IsChain L.Joined) (hx : x ∉ l.dropLast) (hy : y ∉ l.tail) :
    l.IsChain (L.join x y).Joined := by
  induction hl with
  | nil => exact List.IsChain.nil
  | singleton a => exact List.IsChain.singleton a
  | cons_cons hab _ ih =>
    rw [List.dropLast_cons_cons, List.mem_cons, not_or] at hx
    rw [List.tail_cons, List.mem_cons, not_or] at hy
    exact List.IsChain.cons_cons (hab.join (Ne.symm hx.1) (Ne.symm hy.1)) (ih hx.2 hy.2)

/-- The links between other neighbours stay when the ends of the cut get new ones. -/
theorem Cut.left_join (hc : Cut h pre post as p c bs) (hl : (as ++ [p]).IsChain L.Joined)
    (hx : x ∉ as) (hy : y ∉ pre) : (as ++ [p]).IsChain (L.join x y).Joined := by
  apply chain_join hl
  · rw [List.dropLast_concat]
    exact hx
  · rw [hc.tail]
    exact hy

theorem Cut.right_join (hc : Cut h pre post as p c bs) (hr : (c :: bs).IsChain L.Joined)
    (hx : x ∉ post) (hy : y ∉ bs) : (c :: bs).IsChain (L.join x y).Joined := by
  apply chain_join hr
  · rw [hc.dropLast]
    exact hx
  · exact hy

namespace Ring

theorem insert (hr : Ring L h (pre ++ post)) (hx : x ∉ h :: (pre ++ post))
    (hc : (post ++ [h]).head? = some c) : Ring (L.insert c x) h (pre ++ x :: post) := by
  obtain ⟨as, p, c', bs, hcut⟩ := exists_cut hr.nodup
  obtain rfl : c' = c := by simpa [hcut.right] using hc
  have hchain : (as ++ p :: c' :: bs).IsChain L.Joined := chain_cut [] hr hcut
  obtain ⟨hleft, hbond, hright⟩ := List.isChain_append_cons_cons.mp hchain
  have hxl : x ∉ as ++ [p] := by
    rw [← hcut.left]
    intro hm
    exact hx (List.mem_cons.mpr ((List.mem_cons.mp hm).imp_right (List.mem_append_left post)))
  have hxr : x ∉ c' :: bs := by
    rw [← hcut.right]
    intro hm
    rcases List.mem_append.mp hm with hm | hm
    · exact hx (List.mem_cons_of_mem h (List.mem_append_right pre hm))
    · exact hx (List.mem_singleton.mp hm ▸ List.mem_cons_self)
  have hpx : p ≠ x := fun he => hxl (he ▸ List.mem_append_right as (List.mem_singleton_self p))
  have hxc : x ≠ c' := fun he => hxr (he ▸ List.mem_cons_self)
  have hxas : x ∉ as := fun hm => hxl (List.mem_append_left [p] hm)
  have hxpre : x ∉ pre := fun hm => hx (List.mem_cons_of_mem h (List.mem_append_left post hm))
  have hxpost : x ∉ post := fun hm => hx (List.mem_cons_of_mem h (List.mem_append_right pre hm))
  have hxbs : x ∉ bs := fun hm => hxr (List.mem_cons_of_mem c' hm)
  rw [Links.insert, hbond.prev]
  constructor
  · have hsplit : h :: (pre ++ x :: post) ++ [h] = as ++ p :: x :: c' :: bs := hcut.split [x]
    rw [hsplit]
    refine List.isChain_append_cons_cons.mpr ⟨?_, ?_, List.isChain_cons_cons.mpr ⟨?_, ?_⟩⟩
    · exact hcut.left_join (hcut.left_join hleft hcut.last hxpre) hxas hcut.pre
    · exact (joined_join L p x).join hpx hxc
    · exact joined_join (L.join p x) x c'
    · exact hcut.right_join (hcut.right_join hright hcut.post hxbs) hxpost hcut.first
  · have hperm : (h :: (pre ++ x :: post)).Perm (x :: h :: (pre ++ post)) :=
      (List.perm_middle.cons h).trans (List.Perm.swap x h _)
    exact hperm.nodup_iff.mpr (List.nodup_cons.mpr ⟨hx, hr.nodup⟩)

theorem erase (hr : Ring L h (pre ++ x :: post)) : Ring (L.erase x) h (pre ++ post) := by
  have hnodup : (h :: (pre ++ post)).Nodup :=
    hr.nodup.sublist (((List.sublist_cons_self x post).append_left pre).cons_cons h)
  obtain ⟨as, p, c, bs, hcut⟩ := exists_cut hnodup
  have hchain : (as ++ p :: x :: c :: bs).IsChain L.Joined := chain_cut [x] hr hcut
  obtain ⟨hleft, hbond, hrest⟩ := List.isChain_append_cons_cons.mp hchain
  obtain ⟨hbond', hright⟩ := List.isChain_cons_cons.mp hrest
  rw [Links.erase, hbond.prev, hbond'.next]
  constructor
  · have hsplit : h :: (pre ++ post) ++ [h] = as ++ p :: c :: bs := hcut.split []
    rw [hsplit]
    refine List.isChain_append_cons_cons.mpr ⟨?_, ?_, ?_⟩
    · exact hcut.left_join hleft hcut.last hcut.pre
    · exact joined_join L p c
    · exact hcut.right_join hright hcut.post hcut.first
  · exact hnodup

theorem single (L : Links α) (h : α) : Ring (L.join h h) h [] :=
  ⟨List.isChain_pair.mpr (joined_join L h h), List.nodup_singleton h⟩

/-- New links elsewhere leave a ring alone. -/
theorem join (hr : Ring L h l) (hx : x ∉ h :: l) (hy : y ∉ h :: l) : Ring (L.join x y) h l := by
  refine ⟨chain_join hr.chain ?_ ?_, hr.nodup⟩
  · rw [List.dropLast_concat]
    exact hx
  · intro hm
    rw [List.cons_append, List.tail_cons, List.mem_append, List.mem_singleton, or_comm] at hm
    exact hy (List.mem_cons.mpr hm)

theorem insert_other (hk : Ring L k m) (hr : Ring L h l) (hapart : (h :: l).Disjoint (k :: m))
    (hc : c ∈ h :: l) (hx : x ∉ k :: m) : Ring (L.insert c x) k m := by
  have hprev : L.prev c ∉ k :: m := hapart (hr.joined_prev hc).2
  exact (hk.join hprev hx).join hx (hapart hc)

theorem erase_other (hk : Ring L k m) (hr : Ring L h l) (hapart : (h :: l).Disjoint (k :: m))
    (hx : x ∈ h :: l) : Ring (L.erase x) k m :=
  hk.join (hapart (hr.joined_prev hx).2) (hapart (hr.joined_next hx).2)

end Ring

/-- The nodes from `a` on up to `h`; `none` if the fuel does not last. -/
def traverse (L : Links α) (h : α) : Nat → α → Option (List α)
  | 0, _ => none
  | fuel + 1, a => if a = h then some [] else (L.traverse h fuel (L.next a)).map (a :: ·)

theorem traverse_chain (hl : (x :: l ++ [h]).IsChain L.Joined) (hh : h ∉ l) {fuel : Nat}
    (hfuel : l.length < fuel) : L.traverse h fuel (L.next x) = some l := by
  obtain ⟨fuel, rfl⟩ : ∃ n, fuel = n + 1 := ⟨fuel - 1, by omega⟩
  induction l generalizing x fuel with
  | nil =>
    have hnext : L.next x = h := (List.isChain_cons_cons.mp hl).1.next
    rw [traverse, if_pos hnext]
  | cons a l ih =>
    obtain ⟨hbond, hrest⟩ := List.isChain_cons_cons.mp hl
    have hne : a ≠ h := fun he => hh (he ▸ List.mem_cons_self)
    rw [List.length_cons] at hfuel
    obtain ⟨fuel, rfl⟩ : ∃ n, fuel = n + 1 := ⟨fuel - 1, by omega⟩
    rw [traverse, hbond.next, if_neg hne,
      ih hrest (fun hm => hh (List.mem_cons_of_mem a hm)) fuel (by omega)]
    rfl

/-- Following the links from the head gives the list, and the head again. -/
theorem Ring.traverse (hr : Ring L h l) {fuel : Nat} (hfuel : l.length < fuel) :
    L.traverse h fuel (L.next h) = some l :=
  traverse_chain hr.chain (List.nodup_cons.mp hr.nodup).1 hfuel

end Changes

end Links

section Lists

variable [DecidableEq α]

/-- The list with `x` in front of `cur`, or at its end if `cur` is not in it. -/
def insertBefore (x cur : α) : List α → List α
  | [] => [x]
  | a :: l => if a = cur then x :: a :: l else a :: insertBefore x cur l

/-- Before `cur` in the list, or before the head that stands behind its end. -/
theorem insertBefore_split (x : α) {h cur : α} {l : List α} (hc : cur ∈ h :: l) :
    ∃ pre post, l = pre ++ post ∧ insertBefore x cur l = pre ++ x :: post ∧
      (post ++ [h]).head? = some cur := by
  induction l with
  | nil => exact ⟨[], [], rfl, rfl, congrArg some (List.mem_singleton.mp hc).symm⟩
  | cons a l ih =>
    rw [insertBefore]
    split_ifs with ha
    · exact ⟨[], a :: l, rfl, rfl, congrArg some ha⟩
    · have hc' : cur ∈ h :: l := by
        rcases List.mem_cons.mp hc with hc | hc
        · exact List.mem_cons.mpr (Or.inl hc)
        · exact List.mem_cons_of_mem h ((List.mem_cons.mp hc).resolve_left (Ne.symm ha))
      obtain ⟨pre, post, hl, hins, hhead⟩ := ih hc'
      exact ⟨a :: pre, post, congrArg (a :: ·) hl, congrArg (a :: ·) hins, hhead⟩

end Lists

end Mymuduo.Lib
