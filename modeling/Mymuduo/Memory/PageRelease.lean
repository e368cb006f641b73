import Mymuduo.Memory.PageShape

namespace Mymuduo.Memory

namespace PageCache

theorem get_eq_some {c : PageCache} {k x : Nat} (h : c.get k = some x) :
    k < 2 ^ BITS ∧ c._id_span_map k = some x := by
  unfold get at h
  split_ifs at h with hk
  refine ⟨?_, h⟩
  rw [Nat.shiftRight_eq_div_pow] at hk
  by_contra hlt
  exact hk (Nat.div_pos (by omega) (by positivity))

theorem get_of_lt {c : PageCache} {k : Nat} (h : k < 2 ^ BITS) : c.get k = c._id_span_map k := by
  unfold get
  rw [if_neg]
  rw [Nat.shiftRight_eq_div_pow, Nat.div_eq_of_lt h]
  exact lt_irrefl 0

/-- One round of a loop of `relase_to_PageCache`: the neighbour with the page `k` is merged into
`r`, which becomes `s`, or the loop ends. -/
def round (c : PageCache) (k r : Nat) (s : Nat → Span) (go : PageCache → Option PageCache) :
    Option PageCache :=
  match c.get k with
  | none => some c
  | some ret =>
    if (c.span ret)._isUse then some c
    else if (c.span ret)._npage + (c.span r)._npage ≥ NPAGES then some c
    else go (c.absorb r ret (s ret))

/-- A round ends the loop at a neighbour that is missing, in use or too large, or merges it. -/
theorem round_cases (c : PageCache) (k r : Nat) (s : Nat → Span)
    (go : PageCache → Option PageCache) :
    (round c k r s go = some c ∧ ∀ ret, c.get k = some ret →
      (c.span ret)._isUse = true ∨ NPAGES ≤ (c.span ret)._npage + (c.span r)._npage) ∨
    ∃ ret, c.get k = some ret ∧ ¬ (c.span ret)._isUse = true ∧
      ¬ (c.span ret)._npage + (c.span r)._npage ≥ NPAGES ∧
      round c k r s go = go (c.absorb r ret (s ret)) := by
  rw [round]
  cases hget : c.get k with
  | none =>
    left
    refine ⟨rfl, ?_⟩
    intro ret hret
    cases hret
  | some ret =>
    simp only
    split_ifs with huse hbig
    · left
      refine ⟨rfl, ?_⟩
      intro x hx
      obtain rfl := Option.some.inj hx
      exact Or.inl huse
    · left
      refine ⟨rfl, ?_⟩
      intro x hx
      obtain rfl := Option.some.inj hx
      exact Or.inr hbig
    · exact Or.inr ⟨ret, rfl, huse, hbig, rfl⟩

theorem mergeBack_succ (fuel : Nat) (c : PageCache) (r : Nat) : mergeBack (fuel + 1) c r =
    round c (c.prevId r) r (fun ret => { c.span r with
      _pageid := (c.span ret)._pageid
      _npage := (c.span r)._npage + (c.span ret)._npage }) (mergeBack fuel · r) := rfl

theorem mergeForward_succ (fuel : Nat) (c : PageCache) (r : Nat) : mergeForward (fuel + 1) c r =
    round c (c.nextId r) r (fun ret => { c.span r with
      _npage := (c.span r)._npage + (c.span ret)._npage }) (mergeForward fuel · r) := rfl

/-- The page before `r`, unless the subtraction wraps around. -/
theorem prevId_succ {c : PageCache} {r : Nat} (hlt : c.prevId r < 2 ^ BITS) :
    c.prevId r + 1 = (c.span r)._pageid := by
  unfold prevId at *
  cases hp : (c.span r)._pageid with
  | zero =>
    rw [hp] at hlt
    norm_num [BITS, PAGE_SHIFT] at hlt
  | succ p => rfl

/-- A release in progress: `r` is in hand, and the page map need not know it. -/
structure Releasing (c : PageCache) (r : Nat) (us : List Nat) : Prop where
  shape : Shape c (r :: us)
  mapped : Mapped c us c.linked
  used : ∀ x ∈ us, (c.span x)._isUse = true

/-- What merging changes nothing of. -/
structure MergeFrame (c d : PageCache) (r : Nat) (us : List Nat) : Prop where
  spans : ∀ x ∈ us, d.span x = c.span x
  map : d._id_span_map = c._id_span_map
  regions : d.regions = c.regions
  objlist : (d.span r)._objlist = (c.span r)._objlist
  usecount : (d.span r)._usecount = (c.span r)._usecount

theorem MergeFrame.refl (c : PageCache) (r : Nat) (us : List Nat) : MergeFrame c c r us :=
  ⟨fun _ _ => rfl, rfl, rfl, rfl, rfl⟩

theorem MergeFrame.trans {c d e : PageCache} {r : Nat} {us : List Nat} (h : MergeFrame c d r us)
    (k : MergeFrame d e r us) : MergeFrame c e r us :=
  ⟨fun x hx => (k.spans x hx).trans (h.spans x hx), k.map.trans h.map, k.regions.trans h.regions,
    k.objlist.trans h.objlist, k.usecount.trans h.usecount⟩

namespace Releasing

variable {c : PageCache} {r : Nat} {us : List Nat}

theorem mem_region (h : Releasing c r us) {p : Nat} (hp : p ∈ c.pages r) : p ∈ c.regionPages :=
  h.shape.tiles.mem_total (List.mem_append_left _ List.mem_cons_self) hp

/-- The owner of a page that the map has an entry for, when it is not a page of `r`. -/
theorem owner (h : Releasing c r us) {p x : Nat} (hx : c._id_span_map p = some x)
    (hp : p ∉ c.pages r) : ∃ o ∈ us ++ c.linked, p ∈ c.pages o ∧
      ∀ q ∈ c.pages r, q ∉ c.pages o := by
  have hreg : p ∈ c.regionPages := by
    by_contra hout
    rw [h.mapped.outside p hout] at hx
    cases hx
  obtain ⟨o, ho, hpo⟩ := h.shape.tiles.owner hreg
  have hr : r ∈ r :: us ++ c.linked := List.mem_append_left _ List.mem_cons_self
  have hne : o ≠ r := by
    intro he
    subst he
    exact hp hpo
  refine ⟨o, ?_, hpo, fun q hq hqo => hne (h.shape.tiles.unique ho hr hqo hq)⟩
  rcases List.mem_cons.mp ho with ho | ho
  · exact absurd ho hne
  · exact ho

/-- The entry of the page before `r` is that of the span that ends there. -/
theorem prev_owner (h : Releasing c r us) {ret : Nat}
    (hget : c.get (c.prevId r) = some ret) :
    ret ∈ us ++ c.linked ∧ (c.span ret)._pageid + (c.span ret)._npage = (c.span r)._pageid := by
  have hfirst := h.shape.first_mem (List.mem_append_left c.linked List.mem_cons_self)
  obtain ⟨hlt, hmap⟩ := get_eq_some hget
  have hprev := prevId_succ hlt
  generalize c.prevId r = p at *
  have hout : p ∉ c.pages r := by
    intro hp
    have := (Span.mem_pages.mp hp).1
    omega
  obtain ⟨o, ho, hpo, hdis⟩ := h.owner hmap hout
  have hno := hdis _ hfirst
  have hpo' := Span.mem_pages.mp hpo
  have hend : (c.span o)._pageid + (c.span o)._npage = (c.span r)._pageid := by
    by_contra hne
    exact hno (Span.mem_pages.mpr (by omega))
  have hlast : (c.span o).last = p := by
    unfold Span.last
    omega
  have hret : ret = o := by
    rcases List.mem_append.mp ho with hu | hl
    · rcases h.mapped.lastHeld o hu with hm | hm
      · rw [hlast, hmap] at hm
        exact Option.some.inj hm
      · rw [hlast, hmap] at hm
        cases hm
    · have hm := h.mapped.last o hl
      rw [hlast, hmap] at hm
      exact Option.some.inj hm
  rw [hret]
  exact ⟨ho, hend⟩

/-- The entry of the page after `r` is that of the span that starts there. -/
theorem next_owner (h : Releasing c r us) {ret : Nat}
    (hget : c.get (c.nextId r) = some ret) :
    ret ∈ us ++ c.linked ∧ (c.span r)._pageid + (c.span r)._npage = (c.span ret)._pageid := by
  have hlast := h.shape.last_mem (List.mem_append_left c.linked List.mem_cons_self)
  obtain ⟨-, hmap⟩ := get_eq_some hget
  unfold nextId at hmap
  have hout : (c.span r)._pageid + (c.span r)._npage ∉ c.pages r := by
    intro hp
    have := (Span.mem_pages.mp hp).2
    omega
  obtain ⟨o, ho, hpo, hdis⟩ := h.owner hmap hout
  have hno := hdis _ hlast
  have hlast' := Span.mem_pages.mp hlast
  have hpo' := Span.mem_pages.mp hpo
  have hstart : (c.span r)._pageid + (c.span r)._npage = (c.span o)._pageid := by
    by_contra hne
    refine hno (Span.mem_pages.mpr ?_)
    unfold Span.last at *
    omega
  have hm := h.mapped.first o ho
  rw [← hstart, hmap] at hm
  rw [Option.some.inj hm]
  exact ⟨ho, hstart⟩

/-- An unused neighbour is a linked span. -/
theorem linked_of_unused (h : Releasing c r us) {ret : Nat} (hret : ret ∈ us ++ c.linked)
    (hfree : ¬ (c.span ret)._isUse = true) : ret ∈ c.linked := by
  rcases List.mem_append.mp hret with hu | hl
  · exact absurd (h.used ret hu) hfree
  · exact hl

/-- One merge. -/
theorem absorb (h : Releasing c r us) {ret : Nat} (hret : ret ∈ c.linked) {s : Span}
    (hpages : s.pages.Perm (c.pages r ++ c.pages ret)) (hpos : 1 ≤ s._npage)
    (hlt : s._npage < NPAGES) (hobj : s._objlist = (c.span r)._objlist)
    (huse : s._usecount = (c.span r)._usecount) :
    Releasing (c.absorb r ret s) r us ∧ MergeFrame c (c.absorb r ret s) r us := by
  have hspan : ∀ x ∈ us ++ (c.absorb r ret s).linked, (c.absorb r ret s).span x = c.span x :=
    fun x hx => h.shape.span_absorb hret s hx
  have hsub : ∀ x ∈ (c.absorb r ret s).linked, x ∈ c.linked := fun x hx =>
    (h.shape.linked_absorb hret s).symm.subset (List.mem_cons_of_mem _ hx)
  have hself := h.shape.span_absorb_self hret s
  refine ⟨⟨h.shape.absorb hret hpages hpos hlt, ⟨?_, ?_, ?_, h.mapped.outside⟩, ?_⟩, ⟨?_, rfl, rfl,
    ?_, ?_⟩⟩
  · intro x hx
    rw [hspan x hx]
    apply h.mapped.first x
    rcases List.mem_append.mp hx with hx | hx
    · exact List.mem_append_left _ hx
    · exact List.mem_append_right _ (hsub x hx)
  · intro x hx
    rw [hspan x (List.mem_append_right _ hx)]
    exact h.mapped.last x (hsub x hx)
  · intro x hx
    rw [hspan x (List.mem_append_left _ hx)]
    exact h.mapped.lastHeld x hx
  · intro x hx
    rw [hspan x (List.mem_append_left _ hx)]
    exact h.used x hx
  · exact fun x hx => hspan x (List.mem_append_left _ hx)
  · rw [hself, hobj]
  · rw [hself, huse]

/-- The span that ends where `r` starts is joined to it. -/
theorem joinBack (h : Releasing c r us) {ret : Nat} (hret : ret ∈ c.linked)
    (hend : (c.span ret)._pageid + (c.span ret)._npage = (c.span r)._pageid)
    (hfits : ¬ (c.span ret)._npage + (c.span r)._npage ≥ NPAGES) :
    Releasing (c.absorb r ret { c.span r with
        _pageid := (c.span ret)._pageid
        _npage := (c.span r)._npage + (c.span ret)._npage }) r us ∧
      MergeFrame c (c.absorb r ret { c.span r with
        _pageid := (c.span ret)._pageid
        _npage := (c.span r)._npage + (c.span ret)._npage }) r us := by
  have hpos := (h.shape.linked_spec hret).2.1
  have hpages : (List.range' (c.span ret)._pageid
      ((c.span r)._npage + (c.span ret)._npage)).Perm (c.pages r ++ c.pages ret) := by
    rw [pages, pages, Span.pages, Span.pages, Nat.add_comm (c.span r)._npage, ← hend,
      ← List.range'_append_1]
    exact List.perm_append_comm
  exact h.absorb hret (s := { c.span r with
    _pageid := (c.span ret)._pageid
    _npage := (c.span r)._npage + (c.span ret)._npage })
    hpages (Nat.le_add_left_of_le hpos) (by simpa [Nat.add_comm] using hfits) rfl rfl

/-- The span that starts where `r` ends is joined to it. -/
theorem joinForward (h : Releasing c r us) {ret : Nat} (hret : ret ∈ c.linked)
    (hstart : (c.span r)._pageid + (c.span r)._npage = (c.span ret)._pageid)
    (hfits : ¬ (c.span ret)._npage + (c.span r)._npage ≥ NPAGES) :
    Releasing (c.absorb r ret { c.span r with
        _npage := (c.span r)._npage + (c.span ret)._npage }) r us ∧
      MergeFrame c (c.absorb r ret { c.span r with
        _npage := (c.span r)._npage + (c.span ret)._npage }) r us := by
  have hpos := (h.shape.linked_spec hret).2.1
  have hpages : (List.range' (c.span r)._pageid
      ((c.span r)._npage + (c.span ret)._npage)).Perm (c.pages r ++ c.pages ret) := by
    rw [pages, pages, Span.pages, Span.pages, ← hstart, List.range'_append_1]
  exact h.absorb hret (s := { c.span r with
    _npage := (c.span r)._npage + (c.span ret)._npage })
    hpages (Nat.le_add_left_of_le hpos) (by simpa [Nat.add_comm] using hfits) rfl rfl

/-- The first loop ends within its fuel: every merge makes `r` longer. -/
theorem mergeBack_spec (h : Releasing c r us) (fuel : Nat)
    (hfuel : NPAGES ≤ fuel + (c.span r)._npage) :
    ∃ d, mergeBack fuel c r = some d ∧ Releasing d r us ∧ MergeFrame c d r us := by
  induction fuel generalizing c with
  | zero =>
    have := (h.shape.sized r List.mem_cons_self).2
    omega
  | succ fuel ih =>
    rw [mergeBack_succ]
    rcases round_cases c (c.prevId r) r _ (mergeBack fuel · r) with ⟨hstop, -⟩ | ⟨ret, hget, huse, hbig, hgo⟩
    · exact ⟨c, hstop, h, MergeFrame.refl c r us⟩
    · obtain ⟨hmem, hend⟩ := h.prev_owner hget
      have hret := h.linked_of_unused hmem huse
      have hpos := (h.shape.linked_spec hret).2.1
      obtain ⟨hr, hf⟩ := h.joinBack hret hend hbig
      have hfuel' : NPAGES ≤ fuel + ((c.span r)._npage + (c.span ret)._npage) := by omega
      obtain ⟨d, hd, hrd, hfd⟩ := ih hr (by rwa [h.shape.span_absorb_self hret])
      exact ⟨d, hgo.trans hd, hrd, hf.trans hfd⟩

/-- The second loop ends within its fuel, for the same reason. -/
theorem mergeForward_spec (h : Releasing c r us) (fuel : Nat)
    (hfuel : NPAGES ≤ fuel + (c.span r)._npage) :
    ∃ d, mergeForward fuel c r = some d ∧ Releasing d r us ∧ MergeFrame c d r us := by
  induction fuel generalizing c with
  | zero =>
    have := (h.shape.sized r List.mem_cons_self).2
    omega
  | succ fuel ih =>
    rw [mergeForward_succ]
    rcases round_cases c (c.nextId r) r _ (mergeForward fuel · r) with ⟨hstop, -⟩ | ⟨ret, hget, huse, hbig, hgo⟩
    · exact ⟨c, hstop, h, MergeFrame.refl c r us⟩
    · obtain ⟨hmem, hstart⟩ := h.next_owner hget
      have hret := h.linked_of_unused hmem huse
      have hpos := (h.shape.linked_spec hret).2.1
      obtain ⟨hr, hf⟩ := h.joinForward hret hstart hbig
      have hfuel' : NPAGES ≤ fuel + ((c.span r)._npage + (c.span ret)._npage) := by omega
      obtain ⟨d, hd, hrd, hfd⟩ := ih hr (by rwa [h.shape.span_absorb_self hret])
      exact ⟨d, hgo.trans hd, hrd, hf.trans hfd⟩

theorem link_span (c : PageCache) (r x : Nat) : (c.link r).span x =
    if x = r then { c.span r with _isUse := false } else c.span x := by
  by_cases hx : x = r
  · subst hx
    simp [PageCache.link, setEnds, set, setSpan, push_front]
  · simp [PageCache.link, setEnds, set, setSpan, push_front, hx]

theorem link_map (c : PageCache) (r p : Nat) : (c.link r)._id_span_map p =
    if p = (c.span r).last ∨ p = (c.span r)._pageid then some r else c._id_span_map p := by
  have h := setEnds_map ((c.push_front (c.span r)._npage r).setSpan r
    { c.span r with _isUse := false }) r p
  simp only [setSpan, Function.update_self] at h
  exact h

/-- Linking the merged span ends the release. -/
theorem link (h : Releasing c r us) (hblank : (c.span r).Blank) :
    Sound (c.link r) us ∧ Frame c (c.link r) us := by
  have hsize := h.shape.sized r List.mem_cons_self
  have hr : r ∈ r :: us ++ c.linked := List.mem_append_left _ List.mem_cons_self
  have hnot : ∀ x ∈ us ++ c.linked, x ≠ r := by
    intro x hx he
    subst he
    have hnd := (List.nodup_append.mp h.shape.objects).1
    exact (List.nodup_cons.mp hnd).1 hx
  have hspan : ∀ x ∈ us ++ c.linked, (c.link r).span x = c.span x := by
    intro x hx
    rw [link_span, if_neg (hnot x hx)]
  have hself : (c.link r).span r = { c.span r with _isUse := false } := by
    rw [link_span, if_pos rfl]
  have hlink : (c.link r).linked.Perm (r :: c.linked) := linked_push c hsize.2 r
  have hentry : ∀ x ∈ us ++ c.linked, ∀ p ∈ c.pages x,
      (c.link r)._id_span_map p = c._id_span_map p := by
    intro x hx p hp
    have hx' : x ∈ r :: us ++ c.linked := List.mem_cons_of_mem _ hx
    have hlast := h.shape.pages_ne hr hx' (hnot x hx) hp (h.shape.last_mem hr)
    have hfirst := h.shape.pages_ne hr hx' (hnot x hx) hp (h.shape.first_mem hr)
    rw [link_map, if_neg (by simp [hlast, hfirst])]
  have hshape : Shape (c.link r) us := by
    refine h.shape.rehome ?_ ?_ rfl rfl rfl ?_ ?_
    · exact (hlink.append_left us).trans List.perm_middle
    · intro x hx
      unfold pages
      rw [link_span]
      split_ifs with hxr
      · rw [hxr]
        rfl
      · rfl
    · intro k x hx
      rcases mem_push_front hx with ⟨rfl, rfl⟩ | hx
      · rw [hself]
        exact ⟨rfl, hsize.1, hsize.2, rfl, hblank⟩
      · have hb := h.shape.bucket k x hx
        rw [hspan x (List.mem_append_right _ (mem_linked.mpr ⟨k, hb.2.2.1, hx⟩))]
        exact hb
    · intro x hx
      rw [hspan x (List.mem_append_left _ hx)]
      exact h.shape.sized x (List.mem_cons_of_mem _ hx)
  have hmapped : Mapped (c.link r) us (r :: c.linked) := by
    refine (h.mapped.frame ?_ hspan hentry ?_).cons_free ?_ ?_
    · intro x hx
      exact h.shape.size_pos (List.mem_cons_of_mem _ hx)
    · intro p hp
      have hlast : p ≠ (c.span r).last := by
        intro he
        subst he
        exact hp (h.mem_region (h.shape.last_mem hr))
      have hfirst : p ≠ (c.span r)._pageid := by
        intro he
        subst he
        exact hp (h.mem_region (h.shape.first_mem hr))
      rw [link_map, if_neg (by simp [hlast, hfirst])]
      exact h.mapped.outside p hp
    · rw [hself, link_map, if_pos (Or.inr rfl)]
    · rw [hself]
      exact (link_map c r _).trans (if_pos (Or.inl rfl))
  refine ⟨⟨hshape, hmapped.subset (fun x hx => hx) fun x hx => hlink.subset hx, ?_⟩,
    fun x hx => hspan x (List.mem_append_left _ hx),
    fun x hx => hentry x (List.mem_append_left _ hx)⟩
  intro x hx
  rw [hspan x (List.mem_append_left _ hx)]
  exact h.used x hx

end Releasing

theorem Sound.releasing {c : PageCache} {r : Nat} {us : List Nat} (h : Sound c (r :: us)) :
    Releasing c r us :=
  ⟨h.shape, h.mapped.subset (fun _ hx => List.mem_cons_of_mem _ hx) fun _ hx => hx,
    fun x hx => h.used x (List.mem_cons_of_mem _ hx)⟩

/-- Both loops of a release end. -/
theorem merge_spec {c : PageCache} {r : Nat} {us : List Nat} (h : Sound c (r :: us)) :
    ∃ d, (mergeBack NPAGES c r).bind (mergeForward NPAGES · r) = some d ∧ Releasing d r us ∧
      MergeFrame c d r us := by
  obtain ⟨d, hd, hrd, hfd⟩ := h.releasing.mergeBack_spec NPAGES (by omega)
  obtain ⟨e, he, hre, hfe⟩ := hrd.mergeForward_spec NPAGES (by omega)
  refine ⟨e, ?_, hre, hfd.trans hfe⟩
  rw [hd]
  exact he

/-- `relase_to_PageCache` of a span in use returns, and the cache is sound without it. -/
theorem relase_spec {c : PageCache} {r : Nat} {us : List Nat} (h : Sound c (r :: us))
    (hblank : (c.span r).Blank) :
    ∃ d, c.relase_to_PageCache r = some d ∧ Sound d us ∧ Frame c d us ∧ d.regions = c.regions := by
  have hsize := h.shape.sized r List.mem_cons_self
  obtain ⟨e, he, hre, hf⟩ := merge_spec h
  have hbl : (e.span r).Blank := ⟨hf.objlist.trans hblank.1, hf.usecount.trans hblank.2⟩
  obtain ⟨hsound, hframe⟩ := hre.link hbl
  refine ⟨e.link r, ?_, hsound, ⟨?_, ?_⟩, hf.regions⟩
  · unfold relase_to_PageCache
    rw [if_neg (by omega), he]
    rfl
  · intro x hx
    rw [hframe.spans x hx, hf.spans x hx]
  · intro x hx p hp
    have hpe : p ∈ e.pages x := by
      unfold pages
      rw [hf.spans x hx]
      exact hp
    rw [hframe.entries x hx p hpe, hf.map]

end PageCache

end Mymuduo.Memory
