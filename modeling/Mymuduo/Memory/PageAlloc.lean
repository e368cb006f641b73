import Mymuduo.Memory.PageShape

namespace Mymuduo.Memory

open Lib

namespace PageCache

/-- The loop of the exact branch writes one entry. -/
theorem takeExact_eq (c : PageCache) {n r : Nat} (h : 1 ≤ (c.span r)._npage) :
    c.takeExact n r = (c.erase n r).set (c.span r)._pageid r := by
  have hloop : ∀ (l : List Nat) (d : PageCache),
      l.foldl (fun e _ => e.set (e.span r)._pageid r) (d.set (d.span r)._pageid r) =
        d.set (d.span r)._pageid r := by
    intro l
    induction l with
    | nil => exact fun _ => rfl
    | cons i l ih =>
      intro d
      have hsame : (d.set (d.span r)._pageid r).set (d.span r)._pageid r =
          d.set (d.span r)._pageid r := by
        simp [set]
      simp only [List.foldl_cons]
      change l.foldl (fun e _ => e.set (e.span r)._pageid r)
        ((d.set (d.span r)._pageid r).set (d.span r)._pageid r) = _
      rw [hsame]
      exact ih d
  obtain ⟨m, hm⟩ : ∃ m, (c.span r)._npage = m + 1 := ⟨_, (Nat.succ_pred_eq_of_pos h).symm⟩
  unfold takeExact
  rw [hm, List.range_succ_eq_map, List.foldl_cons]
  exact hloop _ (c.erase n r)

/-- The loop of the cutting branch writes the entry of every page. -/
theorem setAll_eq (c : PageCache) (r : Nat) : c.setAll r =
    { c with _id_span_map := fun p => if p ∈ c.pages r then some r else c._id_span_map p } := by
  have hloop : ∀ (l : List Nat) (q : Nat) (d : PageCache), (d.span r)._pageid = q →
      l.foldl (fun e i => e.set ((e.span r)._pageid + i) r) d =
        { d with _id_span_map := fun p =>
            if ∃ i ∈ l, p = q + i then some r else d._id_span_map p } := by
    intro l q
    induction l with
    | nil =>
      intro d _
      simp
    | cons i l ih =>
      intro d hq
      rw [List.foldl_cons, ih (d.set ((d.span r)._pageid + i) r) hq, hq]
      simp only [set, mk.injEq, true_and, and_true]
      funext p
      by_cases hl : ∃ j ∈ l, p = q + j
      · rw [if_pos hl, if_pos]
        obtain ⟨j, hj, hp⟩ := hl
        exact ⟨j, List.mem_cons_of_mem _ hj, hp⟩
      · rw [if_neg hl]
        by_cases hi : p = q + i
        · subst hi
          rw [Function.update_self, if_pos ⟨i, List.mem_cons_self, rfl⟩]
        · rw [Function.update_of_ne hi, if_neg]
          intro hx
          obtain ⟨j, hj, hp⟩ := hx
          rcases List.mem_cons.mp hj with rfl | hj
          · exact hi hp
          · exact hl ⟨j, hj, hp⟩
  unfold setAll
  rw [hloop _ _ c rfl]
  simp only [mk.injEq, true_and, and_true]
  funext p
  refine if_congr ?_ rfl rfl
  constructor
  · intro hx
    obtain ⟨i, hi, rfl⟩ := hx
    have := List.mem_range.mp hi
    exact Span.mem_pages.mpr (by omega)
  · intro hp
    have := Span.mem_pages.mp hp
    exact ⟨p - (c.span r)._pageid, List.mem_range.mpr (by omega), by omega⟩

/-- What `new_Span` gives for `n` pages: a span of that size, out of its bucket, in a cache
that has not touched the spans in use. -/
structure Allotted (c d : PageCache) (us : List Nat) (n r : Nat) : Prop where
  shape : Shape d (r :: us)
  mapped : Mapped d (r :: us) d.linked
  size : (d.span r)._npage = n
  blank : (d.span r).Blank
  frame : Frame c d us

section Exact

variable {c : PageCache} {us : List Nat} {n r : Nat}

/-- The front span of the bucket for `n` pages is taken as it is. The page map may know
nothing of it yet. -/
theorem takeExact_spec (h : Shape c us) (hr : r ∈ c._pagelist n)
    (hm : Mapped c us (c.erase n r).linked)
    (hlast : c._id_span_map (c.span r).last = some r ∨ c._id_span_map (c.span r).last = none) :
    Allotted c (c.takeExact n r) us n r := by
  obtain ⟨hsize, hpos, hlt, -, hblank⟩ := h.bucket n r hr
  have hrl : r ∈ c.linked := mem_linked.mpr ⟨n, hlt, hr⟩
  have hown : r ∈ us ++ c.linked := List.mem_append_right _ hrl
  rw [takeExact_eq c (by omega)]
  set d := (c.erase n r).set (c.span r)._pageid r with hd
  have hlink : c.linked.Perm (r :: d.linked) := linked_erase c hlt hr
  have hmap (p : Nat) : d._id_span_map p =
      if p = (c.span r)._pageid then some r else c._id_span_map p := by
    by_cases hp : p = (c.span r)._pageid
    · subst hp
      simp [hd, set]
    · simp [hd, set, erase, hp]
  have hnot : ∀ x ∈ us ++ d.linked, x ∈ us ++ c.linked ∧ x ≠ r := by
    have hperm : (us ++ c.linked).Perm (r :: (us ++ d.linked)) :=
      (hlink.append_left us).trans List.perm_middle
    have hnd := hperm.nodup_iff.mp (List.nodup_append.mp h.objects).1
    intro x hx
    refine ⟨hperm.symm.subset (List.mem_cons_of_mem _ hx), ?_⟩
    intro he
    subst he
    exact (List.nodup_cons.mp hnd).1 hx
  have hentry : ∀ x ∈ us ++ d.linked, ∀ p ∈ c.pages x, d._id_span_map p = c._id_span_map p := by
    intro x hx p hp
    obtain ⟨hxc, hne⟩ := hnot x hx
    rw [hmap, if_neg (h.pages_ne hown hxc hne hp (h.first_mem hown))]
  have hmapped : Mapped d us d.linked := by
    refine hm.frame (fun x hx => h.size_pos (hnot x hx).1) (fun x _ => rfl) hentry ?_
    intro p hp
    have hne : p ≠ (c.span r)._pageid := by
      intro he
      subst he
      exact hp (h.tiles.mem_total hown (h.first_mem hown))
    rw [hmap, if_neg hne]
    exact hm.outside p hp
  refine ⟨?_, ?_, hsize, hblank, fun x _ => rfl, fun x hx => hentry x (List.mem_append_left _ hx)⟩
  · refine h.rehome ?_ (fun x _ => rfl) rfl rfl rfl ?_ ?_
    · exact (List.perm_middle.symm.trans (hlink.symm.append_left us))
    · intro k x hx
      exact h.bucket k x (mem_of_mem_erase hx)
    · intro x hx
      rcases List.mem_cons.mp hx with rfl | hx
      · change 1 ≤ (c.span x)._npage ∧ (c.span x)._npage < NPAGES
        omega
      · exact h.sized x hx
  · apply hmapped.cons_held
    · change d._id_span_map (c.span r)._pageid = some r
      rw [hmap, if_pos rfl]
    · change d._id_span_map (c.span r).last = some r ∨ d._id_span_map (c.span r).last = none
      rw [hmap]
      split_ifs
      · exact Or.inl rfl
      · exact hlast

end Exact

/-- The object that the pool hands out, and what it has left. -/
theorem New_objects {c : PageCache} {us : List Nat} (h : Shape c us) :
    (c.newRef :: (us ++ c.linked ++ c.New._freeList)).Nodup ∧
      ∀ x ∈ c.newRef :: (us ++ c.linked ++ c.New._freeList), x < c.New._memory := by
  have hobj := h.objects
  have hall := h.allocated
  cases hf : c._freeList with
  | nil =>
    have hnew : c.newRef = c._memory := by simp [newRef, hf]
    have hmem : c.New._memory = c._memory + 1 := by simp [New, hf]
    have hfree : c.New._freeList = [] := by simp [New, hf]
    rw [hf] at hobj hall
    rw [hnew, hmem, hfree]
    refine ⟨List.nodup_cons.mpr ⟨fun hm => lt_irrefl _ (hall _ hm), hobj⟩, ?_⟩
    intro x hx
    rcases List.mem_cons.mp hx with rfl | hx
    · exact Nat.lt_succ_self _
    · exact (hall x hx).trans (Nat.lt_succ_self _)
  | cons y ys =>
    have hnew : c.newRef = y := by simp [newRef, hf]
    have hmem : c.New._memory = c._memory := by simp [New, hf]
    have hfree : c.New._freeList = ys := by simp [New, hf]
    rw [hf] at hobj hall
    rw [hnew, hmem, hfree]
    have hp : (us ++ c.linked ++ y :: ys).Perm (y :: (us ++ c.linked ++ ys)) := List.perm_middle
    exact ⟨hp.nodup_iff.mp hobj, fun x hx => hall x (hp.symm.subset hx)⟩

section Cut

variable {c : PageCache} {us : List Nat} {n i r : Nat}

theorem takeCut_span (hne : c.newRef ≠ r) (x : Nat) : (c.takeCut n i r).span x =
    if x = r then { c.span r with
      _pageid := (c.span r)._pageid + n, _npage := (c.span r)._npage - n }
    else if x = c.newRef then { construct (c.span c.newRef) with
      _pageid := (c.span r)._pageid, _npage := n }
    else c.span x := by
  simp only [takeCut, setAll_eq]
  by_cases hr : x = r
  · subst hr
    simp [setEnds, set, push_front, cutSpan, setSpan, erase, New, hne.symm]
  · by_cases hb : x = c.newRef
    · subst hb
      simp [setEnds, set, push_front, cutSpan, setSpan, erase, New, hne, hne.symm]
    · simp [setEnds, set, push_front, cutSpan, setSpan, erase, New, hr, hb]

/-- Cutting a span writes entries for pages of that span only. -/
theorem takeCut_map (hne : c.newRef ≠ r) (hn : n < (c.span r)._npage) (p : Nat) :
    (c.takeCut n i r)._id_span_map p =
      if (c.span r)._pageid ≤ p ∧ p < (c.span r)._pageid + n then some c.newRef
      else if p = (c.span r).last ∨ p = (c.span r)._pageid + n then some r
      else c._id_span_map p := by
  have hlast : ({ c.span r with
      _pageid := (c.span r)._pageid + n, _npage := (c.span r)._npage - n } : Span).last =
      (c.span r).last := by
    simp only [Span.last]
    omega
  have hcut : ((c.New.erase i r).cutSpan n r c.newRef).span r = { c.span r with
      _pageid := (c.span r)._pageid + n, _npage := (c.span r)._npage - n } := by
    simp [cutSpan, setSpan, erase, New, hne.symm]
  simp only [takeCut, setAll_eq, setEnds_map]
  refine if_congr ?_ rfl (if_congr ?_ rfl rfl)
  · simp [pages, Span.pages, setEnds, set, push_front, cutSpan, setSpan, erase, New, hne, hne.symm]
  · simp only [push_front, hcut, hlast]

theorem takeCut_linked (hne : c.newRef ≠ r) (hi : (c.span r)._npage - n < NPAGES) :
    (c.takeCut n i r).linked.Perm (r :: (c.erase i r).linked) := by
  have hcut : ((c.New.erase i r).cutSpan n r c.newRef).span r = { c.span r with
      _pageid := (c.span r)._pageid + n, _npage := (c.span r)._npage - n } := by
    simp [cutSpan, setSpan, erase, New, hne.symm]
  have hpush := linked_push ((c.New.erase i r).cutSpan n r c.newRef) hi r
  have heq : (c.takeCut n i r).linked =
      (((c.New.erase i r).cutSpan n r c.newRef).push_front ((c.span r)._npage - n) r).linked := by
    simp only [takeCut, setAll_eq, hcut]
    rfl
  rw [heq]
  exact hpush

/-- Cutting a span leaves all others alone. -/
theorem takeCut_other (h : Shape c us) (hr : r ∈ c._pagelist i) {x : Nat}
    (hx : x ∈ us ++ (c.erase i r).linked) :
    x ∈ us ++ c.linked ∧ x ≠ r ∧ (c.takeCut n i r).span x = c.span x := by
  obtain ⟨-, -, hi, -, -⟩ := h.bucket i r hr
  have hown : r ∈ us ++ c.linked := List.mem_append_right _ (mem_linked.mpr ⟨i, hi, hr⟩)
  have hperm : (us ++ c.linked).Perm (r :: (us ++ (c.erase i r).linked)) :=
    ((linked_erase c hi hr).append_left us).trans List.perm_middle
  have hxc := hperm.symm.subset (List.mem_cons_of_mem r hx)
  have hxr : x ≠ r := by
    intro he
    subst he
    have hnd := hperm.nodup_iff.mp (List.nodup_append.mp h.objects).1
    exact (List.nodup_cons.mp hnd).1 hx
  have hxb : x ≠ c.newRef := by
    intro he
    subst he
    exact h.newRef_fresh hxc
  have hne : c.newRef ≠ r := by
    intro heq
    exact h.newRef_fresh (heq ▸ hown)
  exact ⟨hxc, hxr, by rw [takeCut_span hne, if_neg hxr, if_neg hxb]⟩

/-- A longer span is cut: its front pages go to a new span, and it keeps the rest. -/
theorem takeCut_shape (h : Shape c us) (hr : r ∈ c._pagelist i) (hn : 1 ≤ n) (hlt : n < i) :
    Shape (c.takeCut n i r) (c.newRef :: us) := by
  obtain ⟨hsize, hpos, hi, hfree, hblank⟩ := h.bucket i r hr
  have hrl : r ∈ c.linked := mem_linked.mpr ⟨i, hi, hr⟩
  have hne : c.newRef ≠ r := by
    intro heq
    exact h.newRef_fresh (heq ▸ List.mem_append_right _ hrl)
  obtain ⟨hnd, hall⟩ := New_objects h
  have hold : c.linked.Perm (r :: (c.erase i r).linked) := linked_erase c hi hr
  have hnew : (c.takeCut n i r).linked.Perm (r :: (c.erase i r).linked) :=
    takeCut_linked hne (by omega)
  have hlink : (c.takeCut n i r).linked.Perm c.linked := hnew.trans hold.symm
  have hobj : (c.newRef :: us ++ (c.takeCut n i r).linked ++ (c.takeCut n i r)._freeList).Perm
      (c.newRef :: (us ++ c.linked ++ c.New._freeList)) := by
    have hf : (c.takeCut n i r)._freeList = c.New._freeList := by
      simp only [takeCut, setAll_eq]
      rfl
    rw [hf]
    exact (((hlink.append_left us).append_right _).cons _)
  have hmem : (c.takeCut n i r)._memory = c.New._memory := by
    simp only [takeCut, setAll_eq]
    rfl
  have hreg : (c.takeCut n i r).regionPages = c.regionPages := by
    simp only [takeCut, setAll_eq]
    rfl
  have hnd' := hobj.nodup_iff.mpr hnd
  have hspan := takeCut_span (c := c) (n := n) (i := i) hne
  have hother := fun x => takeCut_other (n := n) h hr (x := x)
  refine ⟨?_, ?_, ?_, hnd', ?_, ?_⟩
  · rw [hreg]
    have hsplit : Tiles (c.takeCut n i r).pages ([c.newRef, r] ++ (us ++ (c.erase i r).linked))
        c.regionPages := by
      refine (h.tiles.reorder ((hold.append_left us).trans List.perm_middle)).replace [r]
        [c.newRef, r] ?_ ?_
      · intro x hx
        unfold pages
        rw [(hother x hx).2.2]
      · have hpb : (c.takeCut n i r).pages c.newRef = List.range' (c.span r)._pageid n := by
          unfold pages Span.pages
          rw [hspan, if_neg hne, if_pos rfl]
        have hpr : (c.takeCut n i r).pages r =
            List.range' ((c.span r)._pageid + n) ((c.span r)._npage - n) := by
          unfold pages Span.pages
          rw [hspan, if_pos rfl]
        simp only [List.flatMap_cons, List.flatMap_nil, List.append_nil, hpb, hpr]
        rw [List.range'_append_1, Nat.add_sub_cancel' (by omega)]
        exact List.Perm.refl _
    have hp : (r :: (us ++ (c.erase i r).linked)).Perm (us ++ (c.takeCut n i r).linked) :=
      List.perm_middle.symm.trans (hnew.symm.append_left us)
    exact hsplit.reorder (hp.cons _)
  · intro k x hx
    have hx' : x ∈ (((c.New.erase i r).cutSpan n r c.newRef).push_front
        (((c.New.erase i r).cutSpan n r c.newRef).span r)._npage r)._pagelist k := by
      simp only [takeCut, setAll_eq] at hx
      exact hx
    rcases mem_push_front hx' with ⟨rfl, rfl⟩ | hx'
    · have hcut : ((c.New.erase i x).cutSpan n x c.newRef).span x = { c.span x with
          _pageid := (c.span x)._pageid + n, _npage := (c.span x)._npage - n } := by
        simp [cutSpan, setSpan, erase, New, hne.symm]
      rw [hspan, if_pos rfl, hcut]
      refine ⟨rfl, ?_, ?_, hfree, hblank⟩
      · change 1 ≤ (c.span x)._npage - n
        omega
      · change (c.span x)._npage - n < NPAGES
        omega
    · have hxe : x ∈ (c.erase i r)._pagelist k := hx'
      have hbk := h.bucket k x (mem_of_mem_erase hxe)
      rw [(hother x (List.mem_append_right _ (mem_linked.mpr ⟨k, hbk.2.2.1, hxe⟩))).2.2]
      exact hbk
  · intro x hx
    rcases List.mem_cons.mp hx with rfl | hx
    · rw [hspan, if_neg hne, if_pos rfl]
      exact ⟨hn, by simp only; omega⟩
    · rw [(hother x (List.mem_append_left _ hx)).2.2]
      exact h.sized x hx
  · intro x hx
    rw [hmem]
    exact hall x (hobj.subset hx)
  · rw [hreg]
    exact h.bounded

theorem takeCut_spec (h : Shape c us) (hr : r ∈ c._pagelist i) (hn : 1 ≤ n) (hlt : n < i)
    (hm : Mapped c us (c.erase i r).linked) :
    Allotted c (c.takeCut n i r) us n c.newRef ∧
      ((c.takeCut n i r).span c.newRef)._pageid = (c.span r)._pageid := by
  obtain ⟨hsize, -, hi, -, -⟩ := h.bucket i r hr
  have hown : r ∈ us ++ c.linked := List.mem_append_right _ (mem_linked.mpr ⟨i, hi, hr⟩)
  have hne : c.newRef ≠ r := by
    intro heq
    exact h.newRef_fresh (heq ▸ hown)
  have hcut : n < (c.span r)._npage := by omega
  have hold : c.linked.Perm (r :: (c.erase i r).linked) := linked_erase c hi hr
  have hspan := takeCut_span (c := c) (n := n) (i := i) hne
  have hmap := takeCut_map (c := c) (n := n) (i := i) hne hcut
  have hself : (c.takeCut n i r).span c.newRef = { construct (c.span c.newRef) with
      _pageid := (c.span r)._pageid, _npage := n } := by
    rw [hspan, if_neg hne, if_pos rfl]
  have hrest : (c.takeCut n i r).span r = { c.span r with
      _pageid := (c.span r)._pageid + n, _npage := (c.span r)._npage - n } := by
    rw [hspan, if_pos rfl]
  have hkeep : ∀ p, p ∉ c.pages r → (c.takeCut n i r)._id_span_map p = c._id_span_map p := by
    intro p hp
    have hp' : ¬ ((c.span r)._pageid ≤ p ∧ p < (c.span r)._pageid + (c.span r)._npage) :=
      fun hin => hp (Span.mem_pages.mpr hin)
    rw [hmap, if_neg (by omega), if_neg]
    unfold Span.last
    omega
  have hother := fun x => takeCut_other (n := n) h hr (x := x)
  have hentry : ∀ x ∈ us ++ (c.erase i r).linked, ∀ p ∈ c.pages x,
      (c.takeCut n i r)._id_span_map p = c._id_span_map p := by
    intro x hx p hp
    obtain ⟨hxc, hxr, -⟩ := hother x hx
    exact hkeep p fun hpr => hxr (h.tiles.unique hxc hown hp hpr)
  have hreg : (c.takeCut n i r).regionPages = c.regionPages := by
    simp only [takeCut, setAll_eq]
    rfl
  have hmapped : Mapped (c.takeCut n i r) us (c.erase i r).linked := by
    refine hm.frame (fun x hx => h.size_pos (hother x hx).1) (fun x hx => (hother x hx).2.2)
      hentry ?_
    intro p hp
    rw [hreg] at hp
    rw [hkeep p fun hpr => hp (h.tiles.mem_total hown hpr)]
    exact hm.outside p hp
  have hmappedr : Mapped (c.takeCut n i r) us (r :: (c.erase i r).linked) := by
    apply hmapped.cons_free
    · rw [hrest, hmap, if_neg (by simp), if_pos (Or.inr rfl)]
    · have hl : ((c.takeCut n i r).span r).last = (c.span r).last := by
        rw [hrest]
        simp only [Span.last]
        omega
      have hlast : (c.span r).last = (c.span r)._pageid + (c.span r)._npage - 1 := rfl
      rw [hl, hmap, if_neg (by omega), if_pos (Or.inl rfl)]
  have hmappedb : Mapped (c.takeCut n i r) (c.newRef :: us) (r :: (c.erase i r).linked) := by
    refine hmappedr.cons_held ?_ (Or.inl ?_)
    · rw [hself, hmap, if_pos]
      exact ⟨le_rfl, by simp only; omega⟩
    · rw [hself, hmap, if_pos]
      simp only [Span.last]
      omega
  have hlink := takeCut_linked (c := c) (n := n) (i := i) hne (by omega)
  refine ⟨⟨takeCut_shape h hr hn hlt, ?_, ?_, ?_, ?_, ?_⟩, ?_⟩
  · exact hmappedb.subset (fun x hx => hx) fun x hx => hlink.subset hx
  · rw [hself]
  · rw [hself]
    exact ⟨rfl, rfl⟩
  · exact fun x hx => (hother x (List.mem_append_left _ hx)).2.2
  · exact fun x hx => hentry x (List.mem_append_left _ hx)
  · rw [hself]

end Cut

/-- What is assumed of `sbrk`: a region of pages that no earlier one has, inside the range
of the page map. -/
def FreshRegion (c : PageCache) (base : Nat) : Prop :=
  (List.range' base (NPAGES - 1) ++ c.regionPages).Nodup ∧ base + (NPAGES - 1) ≤ 2 ^ BITS

section Refill

variable {c : PageCache} {us : List Nat} {base : Nat}

theorem refill_span (x : Nat) : (c.refill base).span x =
    if x = c.newRef then { construct (c.span c.newRef) with
      _pageid := base, _npage := NPAGES - 1, _objsize := (NPAGES - 1) <<< PAGE_SHIFT }
    else c.span x := by
  by_cases hx : x = c.newRef
  · subst hx
    simp [refill, push_front, setSpan, New]
  · simp [refill, push_front, setSpan, New, hx]

theorem refill_front : (c.refill base)._pagelist (NPAGES - 1) =
    c.newRef :: c._pagelist (NPAGES - 1) := by
  simp [refill, push_front, setSpan, New]

theorem refill_linked : (c.refill base).linked.Perm (c.newRef :: c.linked) :=
  linked_push c.New (by decide) c.newRef

theorem refill_regionPages : (c.refill base).regionPages =
    List.range' base (NPAGES - 1) ++ c.regionPages := by
  simp only [regionPages, refill, List.flatMap_cons]
  rfl

theorem refill_shape (h : Shape c us) (hb : FreshRegion c base) : Shape (c.refill base) us := by
  obtain ⟨hnd, hall⟩ := New_objects h
  have hlink : (c.refill base).linked.Perm (c.newRef :: c.linked) := refill_linked
  have hobj : (us ++ (c.refill base).linked ++ (c.refill base)._freeList).Perm
      (c.newRef :: (us ++ c.linked ++ c.New._freeList)) := by
    have hp : (us ++ (c.refill base).linked).Perm (c.newRef :: (us ++ c.linked)) :=
      (hlink.append_left us).trans List.perm_middle
    exact hp.append_right _
  have hold : ∀ x ∈ us ++ c.linked, (c.refill base).span x = c.span x := by
    intro x hx
    rw [refill_span, if_neg]
    intro he
    subst he
    exact h.newRef_fresh hx
  have hself : (c.refill base).pages c.newRef = List.range' base (NPAGES - 1) := by
    unfold pages Span.pages
    rw [refill_span, if_pos rfl]
  refine ⟨?_, ?_, ?_, hobj.nodup_iff.mpr hnd, fun x hx => hall x (hobj.subset hx), ?_⟩
  · have hgrow := h.tiles.grow (g := (c.refill base).pages) (a := c.newRef)
      (fun x hx => by unfold pages; rw [hold x hx]) (by rw [hself]; exact hb.1)
    rw [hself, ← refill_regionPages] at hgrow
    exact hgrow.reorder (List.perm_middle.symm.trans (hlink.symm.append_left us))
  · intro k x hx
    have hx' : x ∈ (c.New.push_front (NPAGES - 1) c.newRef)._pagelist k := hx
    rcases mem_push_front hx' with ⟨rfl, rfl⟩ | hx'
    · rw [refill_span, if_pos rfl]
      exact ⟨rfl, by decide, by decide, rfl, rfl, rfl⟩
    · have hbk := h.bucket k x hx'
      rw [hold x (List.mem_append_right _ (mem_linked.mpr ⟨k, hbk.2.2.1, hx'⟩))]
      exact hbk
  · intro x hx
    rw [hold x (List.mem_append_left _ hx)]
    exact h.sized x hx
  · intro p hp
    rw [refill_regionPages] at hp
    rcases List.mem_append.mp hp with hp | hp
    · have hlt := (List.mem_range'_1.mp hp).2
      exact lt_of_lt_of_le hlt hb.2
    · exact h.bounded p hp

/-- After a refill the page map knows every span but the new one, and nothing of its pages. -/
theorem refill_mapped (h : Shape c us) (hm : Mapped c us c.linked) (hb : FreshRegion c base) :
    Mapped (c.refill base) us ((c.refill base).erase (NPAGES - 1) c.newRef).linked ∧
      ∀ p ∈ List.range' base (NPAGES - 1), (c.refill base)._id_span_map p = none := by
  have hrest : ((c.refill base).erase (NPAGES - 1) c.newRef).linked.Perm c.linked := by
    have hmem : c.newRef ∈ (c.refill base)._pagelist (NPAGES - 1) := by simp [refill_front]
    have hcons := (linked_erase (c.refill base) (by decide) hmem).symm.trans refill_linked
    exact (List.perm_cons _).mp hcons
  have hold : ∀ x ∈ us ++ c.linked, (c.refill base).span x = c.span x := by
    intro x hx
    rw [refill_span, if_neg]
    rintro rfl
    exact h.newRef_fresh hx
  constructor
  · have hframe : Mapped (c.refill base) us c.linked := by
      apply hm.frame (fun x hx => h.size_pos hx) hold (fun _ _ _ _ => rfl)
      intro p hp
      refine hm.outside p fun hin => hp ?_
      rw [refill_regionPages]
      exact List.mem_append_right _ hin
    exact hframe.subset (fun x hx => hx) fun x hx => hrest.subset hx
  · intro p hp
    apply hm.outside p
    intro hin
    exact (List.nodup_append.mp hb.1).2.2 p hp p hin rfl

end Refill

/-- The first bucket from `n` on that holds a span. -/
theorem firstBucket_eq_some {c : PageCache} {n i r : Nat} (h : c.firstBucket n = some (i, r)) :
    n ≤ i ∧ i < NPAGES ∧ (c._pagelist i).head? = some r ∧
      ∀ k, n ≤ k → k < i → c._pagelist k = [] := by
  unfold firstBucket at h
  obtain ⟨as, x, bs, hlist, hx, has⟩ := List.findSome?_eq_some_iff.mp h
  obtain ⟨m, hm, rfl, hrest⟩ := List.range'_eq_append_iff.mp hlist
  rw [Nat.mul_one] at hrest
  obtain ⟨y, hy, hpair⟩ := Option.map_eq_some_iff.mp hx
  obtain ⟨rfl, rfl⟩ := Prod.mk.inj hpair
  have hmem : x ∈ List.range' (n + m) (NPAGES - n - m) := hrest ▸ List.mem_cons_self
  have hfirst : x = n + m := by
    cases hk : NPAGES - n - m with
    | zero => simp [hk] at hmem
    | succ k =>
      rw [hk, List.range'_succ] at hrest
      exact (List.cons.inj hrest).1
  have hx' := List.mem_range'_1.mp hmem
  refine ⟨by omega, by omega, hy, ?_⟩
  intro k hn hk
  have hnone := has k (List.mem_range'_1.mpr (by omega))
  simpa using hnone

theorem firstBucket_eq_none {c : PageCache} {n : Nat} (h : c.firstBucket n = none) :
    ∀ k, n ≤ k → k < NPAGES → c._pagelist k = [] := by
  intro k hn hk
  unfold firstBucket at h
  have hnone := List.findSome?_eq_none_iff.mp h k (List.mem_range'_1.mpr (by omega))
  simpa using hnone

/-- After a refill the last bucket serves. -/
theorem firstBucket_refill {c : PageCache} {n : Nat} (base : Nat) (hlt : n < NPAGES)
    (hempty : ∀ k, n ≤ k → k < NPAGES → c._pagelist k = []) :
    (c.refill base).firstBucket n = some (NPAGES - 1, c.newRef) := by
  cases hfb : (c.refill base).firstBucket n with
  | none =>
    have hlast := firstBucket_eq_none hfb (NPAGES - 1) (by omega) (by omega)
    simp [refill_front] at hlast
  | some found =>
    obtain ⟨i, s⟩ := found
    obtain ⟨hi, hiN, hhead, -⟩ := firstBucket_eq_some hfb
    by_cases hin : i = NPAGES - 1
    · subst hin
      rw [refill_front, List.head?_cons] at hhead
      rw [Option.some.inj hhead]
    · have hsame : (c.refill base)._pagelist i = c._pagelist i := by
        simp [refill, push_front, setSpan, New, hin]
      rw [hsame, hempty i hi hiN] at hhead
      cases hhead

/-- Where the pages of a new span come from: the front of the first span in the smallest
bucket that can serve, or a new region when no bucket can. -/
def CutFrom (c d : PageCache) (n base r : Nat) : Prop :=
  (∃ i s, n ≤ i ∧ i < NPAGES ∧ (c._pagelist i).head? = some s ∧
    (∀ k, n ≤ k → k < i → c._pagelist k = []) ∧
    (d.span r)._pageid = (c.span s)._pageid ∧ d.regions = c.regions) ∨
  ((∀ k, n ≤ k → k < NPAGES → c._pagelist k = []) ∧
    (d.span r)._pageid = base ∧ d.regions = base :: c.regions)

section NewSpan

variable {c : PageCache} {us : List Nat} {n base : Nat}

/-- The two branches that find a span, on a cache whose page map may not know it. -/
theorem take_spec (h : Shape c us) {i s : Nat} (hs : s ∈ c._pagelist i) (hn : 1 ≤ n) (hi : n ≤ i)
    (hm : Mapped c us (c.erase i s).linked)
    (hlast : c._id_span_map (c.span s).last = some s ∨ c._id_span_map (c.span s).last = none) :
    ∃ r d, (if i = n then some (s, c.takeExact n s) else some (c.newRef, c.takeCut n i s)) =
        some (r, d) ∧ Allotted c d us n r ∧ (d.span r)._pageid = (c.span s)._pageid ∧
      d.regions = c.regions := by
  by_cases hin : i = n
  · subst hin
    have hpos := (h.bucket i s hs).2.1
    have hsize := (h.bucket i s hs).1
    refine ⟨s, c.takeExact i s, if_pos rfl, takeExact_spec h hs hm hlast, ?_, ?_⟩
    · rw [takeExact_eq c (by omega)]
      rfl
    · rw [takeExact_eq c (by omega)]
      rfl
  · obtain ⟨hall, hfirst⟩ := takeCut_spec h hs hn (by omega) hm
    refine ⟨c.newRef, c.takeCut n i s, if_neg hin, hall, hfirst, ?_⟩
    simp only [takeCut, setAll_eq]
    rfl

/-- `new_Span` for 1 to 128 pages returns, and gives a span of that size from the smallest
bucket that can serve; it asks the system for a region only when no bucket can. -/
theorem new_Span_spec (h : Sound c us) (hn : 1 ≤ n) (hlt : n < NPAGES)
    (hb : c.firstBucket n = none → FreshRegion c base) :
    ∃ r d, new_Span 2 c n base = some (r, d) ∧ Allotted c d us n r ∧ CutFrom c d n base r := by
  have hsmall : ¬ n ≥ NPAGES := by omega
  simp only [new_Span, hsmall, if_false]
  cases hfb : c.firstBucket n with
  | some found =>
    obtain ⟨i, s⟩ := found
    obtain ⟨hi, hiN, hhead, hempty⟩ := firstBucket_eq_some hfb
    have hs : s ∈ c._pagelist i := List.mem_of_mem_head? hhead
    have hsl : s ∈ c.linked := mem_linked.mpr ⟨i, hiN, hs⟩
    have hm : Mapped c us (c.erase i s).linked :=
      h.mapped.subset (fun x hx => hx) fun x hx =>
        (linked_erase c hiN hs).symm.subset (List.mem_cons_of_mem _ hx)
    obtain ⟨r, d, heq, hall, hfirst, hreg⟩ :=
      take_spec h.shape hs hn hi hm (Or.inl (h.mapped.last s hsl))
    exact ⟨r, d, heq, hall, Or.inl ⟨i, s, hi, hiN, hhead, hempty, hfirst, hreg⟩⟩
  | none =>
    have hempty := firstBucket_eq_none hfb
    have hfresh := hb hfb
    have hshape := refill_shape h.shape hfresh
    obtain ⟨hm, hnone⟩ := refill_mapped h.shape h.mapped hfresh
    have hbig : (c.refill base).span c.newRef = { construct (c.span c.newRef) with
        _pageid := base, _npage := NPAGES - 1, _objsize := (NPAGES - 1) <<< PAGE_SHIFT } := by
      rw [refill_span, if_pos rfl]
    have hfb' := firstBucket_refill base hlt hempty
    have hold : ∀ x ∈ us, (c.refill base).span x = c.span x := by
      intro x hx
      rw [refill_span, if_neg]
      intro he
      subst he
      exact h.shape.newRef_fresh (List.mem_append_left _ hx)
    have hs : c.newRef ∈ (c.refill base)._pagelist (NPAGES - 1) := by simp [refill_front]
    have hlast : (c.refill base)._id_span_map ((c.refill base).span c.newRef).last = none := by
      rw [hbig]
      refine hnone _ (List.mem_range'_1.mpr ?_)
      simp only [Span.last, NPAGES]
      omega
    obtain ⟨r, d, heq, hall, hfirst, hreg⟩ :=
      take_spec hshape hs hn (by omega) hm (Or.inr hlast)
    rw [hfb']
    refine ⟨r, d, heq, ⟨hall.shape, hall.mapped, hall.size, hall.blank, ?_, ?_⟩,
      Or.inr ⟨hempty, ?_, ?_⟩⟩
    · exact fun x hx => (hall.frame.spans x hx).trans (hold x hx)
    · intro x hx p hp
      apply hall.frame.entries x hx p
      unfold pages
      rw [hold x hx]
      exact hp
    · rw [hfirst, hbig]
    · rw [hreg]
      rfl

end NewSpan

/-- What the two branches of `new_Span` return that find a span. -/
def taken (c : PageCache) (n i s : Nat) : Option (Nat × PageCache) :=
  if i = n then some (s, c.takeExact n s) else some (c.newRef, c.takeCut n i s)

theorem regions_foldl {α : Type} (r : Nat) (f : PageCache → α → Nat) (xs : List α)
    (c : PageCache) : (xs.foldl (fun c x => c.set (f c x) r) c).regions = c.regions := by
  induction xs generalizing c with
  | nil => rfl
  | cons x xs ih => exact ih (c.set (f c x) r)

theorem taken_regions {c d : PageCache} {n i s r : Nat} (h : taken c n i s = some (r, d)) :
    d.regions = c.regions := by
  rw [taken] at h
  split_ifs at h
  · obtain ⟨-, rfl⟩ := Prod.mk.inj (Option.some.inj h)
    exact regions_foldl s (fun e _ => (e.span s)._pageid) _ _
  · obtain ⟨-, rfl⟩ := Prod.mk.inj (Option.some.inj h)
    exact regions_foldl c.newRef (fun e i => (e.span c.newRef)._pageid + i) _ _

theorem shift_page (ptr : Nat) : ptr >>> PAGE_SHIFT = ptr / 8192 := Nat.shiftRight_eq_div_pow ptr 13

/-- Memory above all regions is a new one. -/
theorem freshRegion_above {c : PageCache} (hnd : c.regionPages.Nodup) {brk ptr : Nat}
    (hlow : ∀ p ∈ c.regionPages, (p + 1) * 8192 ≤ brk) (hle : brk ≤ ptr)
    (hlimit : ptr + 1048576 ≤ 2 ^ 48) : FreshRegion c (ptr >>> PAGE_SHIFT) := by
  have hsize : NPAGES - 1 = 128 := rfl
  have hbits : 2 ^ BITS = 2 ^ 35 := rfl
  rw [FreshRegion, shift_page, hsize, hbits]
  refine ⟨List.nodup_append.mpr ⟨List.nodup_range', hnd, ?_⟩, by omega⟩
  intro p hp q hq he
  subst he
  have hbelow := hlow p hq
  have hp := (List.mem_range'_1.mp hp).1
  omega

end PageCache

end Mymuduo.Memory
