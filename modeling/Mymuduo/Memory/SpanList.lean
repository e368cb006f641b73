import Mymuduo.Lib.Links
import Mymuduo.Lib.Run

namespace Mymuduo.Memory

open Lib

/-- The fields `_next` and `_prev` of all spans, by address. -/
abbrev SpanLinks := Links Nat

/-- `class SpanList`. Where an assert fails there is no result. -/
structure SpanList where
  _head : Nat

namespace SpanList

/-- The constructor, with the address that `new Span` gives. -/
def new (L : SpanLinks) (_head : Nat) : SpanLinks × SpanList :=
  ((L.setNext _head _head).setPrev _head _head, ⟨_head⟩)

def begin (s : SpanList) (L : SpanLinks) : Nat := L.next s._head

def end_ (s : SpanList) : Nat := s._head

def insert (_s : SpanList) (L : SpanLinks) (cur newspan : Nat) : Option SpanLinks :=
  if cur = 0 ∨ newspan = 0 then none
  else
    let prev := L.prev cur
    let L := L.setNext prev newspan
    let L := L.setPrev newspan prev
    let L := L.setNext newspan cur
    some (L.setPrev cur newspan)

def push_front (s : SpanList) (L : SpanLinks) (span : Nat) : Option SpanLinks :=
  s.insert L (s.begin L) span

def erase (s : SpanList) (L : SpanLinks) (cur : Nat) : Option SpanLinks :=
  if cur = 0 ∨ cur = s._head then none
  else
    let prev := L.prev cur
    let next := L.next cur
    let L := L.setNext prev next
    some (L.setPrev next prev)

def pop_front (s : SpanList) (L : SpanLinks) : Option (Nat × SpanLinks) :=
  let front := L.next s._head
  (s.erase L front).map fun L => (front, L)

def empty (s : SpanList) (L : SpanLinks) : Bool := L.next s._head = s._head

/-- The loop from `begin()` to `end()`. -/
def traverse (s : SpanList) (L : SpanLinks) (fuel : Nat) : Option (List Nat) :=
  L.traverse s.end_ fuel (s.begin L)

theorem insert_eq (s : SpanList) (L : SpanLinks) {cur newspan : Nat} (hc : cur ≠ 0)
    (hx : newspan ≠ 0) : s.insert L cur newspan = some (L.insert cur newspan) := by
  rw [insert, if_neg (not_or.mpr ⟨hc, hx⟩)]
  rfl

theorem erase_eq (s : SpanList) (L : SpanLinks) {cur : Nat} (hc : cur ≠ 0) (hh : cur ≠ s._head) :
    s.erase L cur = some (L.erase cur) := by
  rw [erase, if_neg (not_or.mpr ⟨hc, hh⟩)]
  rfl

end SpanList

/-- The heads of `n` lists: no two at the same address. -/
structure Heads (n : Nat) where
  head : Fin n → Nat
  distinct : Function.Injective head
  nonnull : ∀ k, head k ≠ 0

def Heads.list {n : Nat} (H : Heads n) (k : Fin n) : SpanList := ⟨H.head k⟩

/-- Spans in lists, and beside their links the lists that are meant. `aborted` records that an
assert has failed. -/
structure SpanLists (n : Nat) where
  links : SpanLinks
  lists : Fin n → List Nat
  aborted : Bool

inductive SpanOp (n : Nat) where
  | push_front (k : Fin n) (span : Nat)
  | insert (k : Fin n) (cur newspan : Nat)
  | erase (k : Fin n) (cur : Nat)
  | pop_front (k : Fin n)

namespace SpanOp

variable {n : Nat}

/-- What the call does to the links. -/
def call (H : Heads n) (L : SpanLinks) : SpanOp n → Option SpanLinks
  | push_front k span => (H.list k).push_front L span
  | insert k cur newspan => (H.list k).insert L cur newspan
  | erase k cur => (H.list k).erase L cur
  | pop_front k => ((H.list k).pop_front L).map Prod.snd

/-- What the call means. -/
def meaning (lists : Fin n → List Nat) : SpanOp n → Fin n → List Nat
  | push_front k span => Function.update lists k (span :: lists k)
  | insert k cur newspan => Function.update lists k (insertBefore newspan cur (lists k))
  | erase k cur => Function.update lists k ((lists k).erase cur)
  | pop_front k => Function.update lists k (lists k).tail

end SpanOp

namespace SpanLists

variable {n : Nat}

/-- The lists as their constructors leave them, in memory that holds anything. -/
def init (H : Heads n) (L : SpanLinks) : SpanLists n where
  links := (List.finRange n).foldl (fun L k => (SpanList.new L (H.head k)).1) L
  lists := fun _ => []
  aborted := false

/-- A span that is in no list. -/
def Loose (H : Heads n) (s : SpanLists n) (span : Nat) : Prop :=
  span ≠ 0 ∧ ∀ k, span ∉ H.head k :: s.lists k

/-- What a caller has to keep to. A position is a span of the list or its end. -/
def Allowed (H : Heads n) (s : SpanLists n) : SpanOp n → Prop
  | .push_front _ span => s.Loose H span
  | .insert k cur newspan => s.Loose H newspan ∧ cur ∈ H.head k :: s.lists k
  | .erase k cur => cur ∈ s.lists k
  | .pop_front k => s.lists k ≠ []

instance (H : Heads n) (s : SpanLists n) (span : Nat) : Decidable (s.Loose H span) :=
  inferInstanceAs (Decidable (_ ∧ _))

instance (H : Heads n) (s : SpanLists n) : (op : SpanOp n) → Decidable (s.Allowed H op)
  | .push_front _ span => inferInstanceAs (Decidable (s.Loose H span))
  | .insert _ _ _ => inferInstanceAs (Decidable (_ ∧ _))
  | .erase k cur => inferInstanceAs (Decidable (cur ∈ s.lists k))
  | .pop_front k => inferInstanceAs (Decidable (s.lists k ≠ []))

def step (H : Heads n) (s : SpanLists n) (op : SpanOp n) : Option (SpanLists n) :=
  if s.aborted = false ∧ s.Allowed H op then
    match op.call H s.links with
    | some L => some ⟨L, op.meaning s.lists, false⟩
    | none => some { s with aborted := true }
  else none

/-- The links are those of the lists that are meant. -/
structure Linked (H : Heads n) (s : SpanLists n) : Prop where
  alive : s.aborted = false
  circular : ∀ k, ∀ a ∈ H.head k :: s.lists k,
    s.links.prev (s.links.next a) = a ∧ s.links.next (s.links.prev a) = a
  traversal : ∀ k fuel, (s.lists k).length < fuel →
    (H.list k).traverse s.links fuel = some (s.lists k)
  empty : ∀ k, (H.list k).empty s.links = true ↔ s.lists k = []

/-- The invariant behind it. -/
structure Inv (H : Heads n) (s : SpanLists n) : Prop where
  alive : s.aborted = false
  ring : ∀ k, s.links.Ring (H.head k) (s.lists k)
  apart : ∀ j k, j ≠ k → (H.head j :: s.lists j).Disjoint (H.head k :: s.lists k)
  nonnull : ∀ k, ∀ a ∈ H.head k :: s.lists k, a ≠ 0

variable {H : Heads n} {s t : SpanLists n}

theorem Inv.linked (h : s.Inv H) : s.Linked H := by
  refine ⟨h.alive, ?_, ?_, ?_⟩
  · intro k a ha
    exact ⟨((h.ring k).joined_next ha).1.prev, ((h.ring k).joined_prev ha).1.next⟩
  · intro k fuel hfuel
    exact (h.ring k).traverse hfuel
  · intro k
    rw [SpanList.empty, decide_eq_true_iff]
    exact (h.ring k).next_head_iff

/-- One list changes, and gets no span that another one has. -/
theorem Inv.replace (h : s.Inv H) {k : Fin n} {L : SpanLinks} {l : List Nat}
    (hring : L.Ring (H.head k) l) (hother : ∀ j, j ≠ k → L.Ring (H.head j) (s.lists j))
    (hmem : ∀ a ∈ l, a ∈ s.lists k ∨ s.Loose H a) :
    Inv H ⟨L, Function.update s.lists k l, false⟩ := by
  have hmem' : ∀ a ∈ H.head k :: l, a ∈ H.head k :: s.lists k ∨ s.Loose H a := by
    intro a ha
    rcases List.mem_cons.mp ha with rfl | ha
    · exact Or.inl List.mem_cons_self
    · exact (hmem a ha).imp_left (List.mem_cons_of_mem _)
  have hapart : ∀ j, j ≠ k → (H.head j :: s.lists j).Disjoint (H.head k :: l) := by
    intro j hj a haj hak
    rcases hmem' a hak with hold | hloose
    · exact h.apart j k hj haj hold
    · exact hloose.2 j haj
  refine ⟨rfl, ?_, ?_, ?_⟩
  · intro j
    by_cases hj : j = k
    · subst hj
      simpa using hring
    · simpa [hj] using hother j hj
  · intro i j hij
    by_cases hi : i = k
    · subst hi
      simpa [Ne.symm hij] using (hapart j (Ne.symm hij)).symm
    · by_cases hj : j = k
      · subst hj
        simpa [hi] using hapart i hi
      · simpa [hi, hj] using h.apart i j hij
  · intro j a ha
    simp only at ha
    by_cases hj : j = k
    · subst hj
      rw [Function.update_self] at ha
      rcases hmem' a ha with hold | hloose
      · exact h.nonnull j a hold
      · exact hloose.1
    · rw [Function.update_of_ne hj] at ha
      exact h.nonnull j a ha

theorem Inv.insert (h : s.Inv H) {k : Fin n} {cur x : Nat} (hx : s.Loose H x)
    (hc : cur ∈ H.head k :: s.lists k) :
    Inv H ⟨s.links.insert cur x, Function.update s.lists k (insertBefore x cur (s.lists k)),
      false⟩ := by
  obtain ⟨pre, post, hl, hins, hhead⟩ := insertBefore_split x hc
  have hring := h.ring k
  have hnot := hx.2 k
  rw [hl] at hring hnot
  apply h.replace
  · rw [hins]
    exact hring.insert hnot hhead
  · intro j hj
    exact (h.ring j).insert_other (h.ring k) (h.apart k j hj.symm) hc (hx.2 j)
  · intro a ha
    rw [hins, List.mem_append, List.mem_cons] at ha
    rw [hl, List.mem_append]
    rcases ha with ha | rfl | ha
    · exact Or.inl (Or.inl ha)
    · exact Or.inr hx
    · exact Or.inl (Or.inr ha)

theorem Inv.erase (h : s.Inv H) {k : Fin n} {cur : Nat} (hc : cur ∈ s.lists k) :
    Inv H ⟨s.links.erase cur, Function.update s.lists k ((s.lists k).erase cur), false⟩ := by
  obtain ⟨pre, post, hl⟩ := List.append_of_mem hc
  have hring := h.ring k
  rw [hl] at hring
  have hpre : cur ∉ pre := by
    intro hm
    have hnodup := (List.nodup_cons.mp hring.nodup).2
    exact (List.nodup_append.mp hnodup).2.2 cur hm cur List.mem_cons_self rfl
  have herase : (s.lists k).erase cur = pre ++ post := by
    rw [hl, List.erase_append_right _ hpre, List.erase_cons_head]
  apply h.replace
  · rw [herase]
    exact hring.erase
  · intro j hj
    exact (h.ring j).erase_other (h.ring k) (h.apart k j hj.symm) (List.mem_cons_of_mem _ hc)
  · intro a ha
    exact Or.inl (List.mem_of_mem_erase ha)

theorem Inv.head_ne (h : s.Inv H) {k : Fin n} {a : Nat} (ha : a ∈ s.lists k) : a ≠ H.head k := by
  intro he
  rw [he] at ha
  exact (List.nodup_cons.mp (h.ring k).nodup).1 ha

/-- The front of a list is the node behind its head. -/
theorem Inv.front (h : s.Inv H) {k : Fin n} {a : Nat} {l : List Nat} (hl : s.lists k = a :: l) :
    s.links.next (H.head k) = a := by
  have hchain := (h.ring k).chain
  rw [hl] at hchain
  exact (List.isChain_cons_cons.mp hchain).1.next

/-- In front of `begin()` is in front of all of them. -/
theorem Inv.insertBefore_begin (h : s.Inv H) (k : Fin n) (x : Nat) :
    insertBefore x ((H.list k).begin s.links) (s.lists k) = x :: s.lists k := by
  cases hl : s.lists k with
  | nil => rfl
  | cons a l =>
    have hbegin : (H.list k).begin s.links = a := h.front hl
    rw [hbegin, insertBefore, if_pos rfl]

/-- What the calls do to the links is what they mean. -/
theorem Inv.call (h : s.Inv H) {op : SpanOp n} (hop : s.Allowed H op) :
    ∃ L, op.call H s.links = some L ∧ Inv H ⟨L, op.meaning s.lists, false⟩ := by
  cases op with
  | push_front k span =>
    have hbegin : (H.list k).begin s.links ∈ H.head k :: s.lists k :=
      ((h.ring k).joined_next List.mem_cons_self).2
    refine ⟨_, (H.list k).insert_eq s.links (h.nonnull k _ hbegin) hop.1, ?_⟩
    have hins := h.insert hop hbegin
    rw [h.insertBefore_begin k span] at hins
    exact hins
  | insert k cur newspan =>
    obtain ⟨hloose, hcur⟩ := hop
    exact ⟨_, (H.list k).insert_eq s.links (h.nonnull k cur hcur) hloose.1, h.insert hloose hcur⟩
  | erase k cur =>
    have hnull : cur ≠ 0 := h.nonnull k cur (List.mem_cons_of_mem _ hop)
    exact ⟨_, (H.list k).erase_eq s.links hnull (h.head_ne hop), h.erase hop⟩
  | pop_front k =>
    obtain ⟨a, l, hl⟩ : ∃ a l, s.lists k = a :: l := List.exists_cons_of_ne_nil hop
    have ha : a ∈ s.lists k := hl ▸ List.mem_cons_self
    have hfront : s.links.next (H.list k)._head = a := h.front hl
    have hnull : a ≠ 0 := h.nonnull k a (List.mem_cons_of_mem _ ha)
    refine ⟨s.links.erase a, ?_, ?_⟩
    · rw [SpanOp.call, SpanList.pop_front, hfront,
        (H.list k).erase_eq s.links hnull (h.head_ne ha)]
      rfl
    · have herase := h.erase ha
      rw [hl, List.erase_cons_head] at herase
      rw [SpanOp.meaning, hl]
      exact herase

theorem inv_step (op : SpanOp n) (h : s.Inv H) (ht : step H s op = some t) : t.Inv H := by
  rw [step] at ht
  split_ifs at ht with hop
  obtain ⟨L, hL, hinv⟩ := h.call hop.2
  rw [hL] at ht
  obtain rfl : ⟨L, op.meaning s.lists, false⟩ = t := Option.some.inj ht
  exact hinv

/-- Each constructor makes a ring of its head, and leaves the heads of the others alone. -/
theorem ring_constructors (H : Heads n) (L : SpanLinks) (ks : List (Fin n)) {k : Fin n}
    (hk : k ∈ ks ∨ L.Ring (H.head k) []) :
    (ks.foldl (fun L k => (SpanList.new L (H.head k)).1) L).Ring (H.head k) [] := by
  induction ks generalizing L with
  | nil => exact hk.resolve_left List.not_mem_nil
  | cons j ks ih =>
    rw [List.foldl_cons]
    apply ih
    by_cases hj : k = j
    · subst hj
      exact Or.inr (Links.Ring.single L (H.head k))
    · rcases hk with hk | hk
      · exact Or.inl ((List.mem_cons.mp hk).resolve_left hj)
      · have hhead : H.head j ∉ [H.head k] := by
          rw [List.mem_singleton]
          exact fun he => hj (H.distinct he).symm
        exact Or.inr (hk.join hhead hhead)

theorem inv_init (H : Heads n) (L : SpanLinks) : (init H L).Inv H := by
  refine ⟨rfl, ?_, ?_, ?_⟩
  · intro k
    exact ring_constructors H L _ (Or.inl (List.mem_finRange k))
  · intro j k hjk
    have hhead : H.head k ≠ H.head j := fun he => hjk (H.distinct he).symm
    simpa [init] using hhead
  · intro k a ha
    rw [List.mem_singleton.mp ha]
    exact H.nonnull k

/-- Whatever is done to the lists, their links are those of the lists that are meant. -/
theorem spanLists_linked (H : Heads n) (L : SpanLinks) (ops : List (SpanOp n)) :
    Always (step H) (Linked H) (init H L) ops := by
  have hinv : Always (step H) (Inv H) (init H L) ops :=
    always_of_step (fun _ op _ h ht => inv_step op h ht) (inv_init H L) ops
  exact hinv.mono (fun _ h => h.linked)

end SpanLists

end Mymuduo.Memory
