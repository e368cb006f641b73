import Mymuduo.Memory.PageRun

namespace Mymuduo.Memory

open Lib

namespace PageCache

/-- Merges on the way from `c` to `d`: the span `r` has taken over the spans `back`, which
lie before it, and `fwd`, which lie behind it, each in the order of their pages. All other
spans are as they were. -/
structure Merged (c d : PageCache) (us : List Nat) (r : Nat) (back fwd : List Nat) : Prop where
  linked : c.linked.Perm (back ++ fwd ++ d.linked)
  pages : d.pages r = back.flatMap c.pages ++ c.pages r ++ fwd.flatMap c.pages
  spans : ∀ x ∈ us ++ d.linked, d.span x = c.span x
  buckets : ∀ x ∈ us ++ d.linked, ∀ k, x ∈ d._pagelist k ↔ x ∈ c._pagelist k

namespace Merged

variable {c d e : PageCache} {us : List Nat} {r : Nat} {back fwd back' fwd' : List Nat}

theorem refl (c : PageCache) (us : List Nat) (r : Nat) : Merged c c us r [] [] :=
  ⟨List.Perm.refl _, by simp, fun _ _ => rfl, fun _ _ _ => Iff.rfl⟩

theorem mem_linked (h : Merged c d us r back fwd) {x : Nat} (hx : x ∈ us ++ d.linked) :
    x ∈ us ++ c.linked := by
  rcases List.mem_append.mp hx with hx | hx
  · exact List.mem_append_left _ hx
  · exact List.mem_append_right _ (h.linked.symm.subset (List.mem_append_right _ hx))

/-- The spans that are merged later lie farther out. -/
theorem trans (h : Merged c d us r back fwd) (k : Merged d e us r back' fwd') :
    Merged c e us r (back' ++ back) (fwd ++ fwd') := by
  have hsame : ∀ xs : List Nat, (∀ x ∈ xs, x ∈ d.linked) → xs.flatMap d.pages = xs.flatMap c.pages := by
    intro xs hxs
    apply List.flatMap_congr
    intro x hx
    rw [PageCache.pages, PageCache.pages, h.spans x (List.mem_append_right _ (hxs x hx))]
  have hback : back'.flatMap d.pages = back'.flatMap c.pages := by
    apply hsame
    intro x hx
    exact k.linked.symm.subset (List.mem_append_left _ (List.mem_append_left _ hx))
  have hfwd : fwd'.flatMap d.pages = fwd'.flatMap c.pages := by
    apply hsame
    intro x hx
    exact k.linked.symm.subset (List.mem_append_left _ (List.mem_append_right _ hx))
  refine ⟨?_, ?_, ?_, ?_⟩
  · rw [List.perm_iff_count]
    intro x
    have hc := List.perm_iff_count.mp h.linked x
    have hd := List.perm_iff_count.mp k.linked x
    simp only [List.count_append] at hc hd ⊢
    omega
  · rw [k.pages, h.pages, hback, hfwd]
    simp
  · intro x hx
    rw [k.spans x hx, h.spans x (k.mem_linked hx)]
  · intro x hx i
    rw [k.buckets x hx i, h.buckets x (k.mem_linked hx) i]

end Merged

/-- The spans directly before `r` are in use or too large to join. -/
def BackMaximal (c : PageCache) (us : List Nat) (r : Nat) : Prop :=
  ∀ x ∈ us ++ c.linked, (c.span x)._pageid + (c.span x)._npage = (c.span r)._pageid →
    (c.span x)._isUse = true ∨ NPAGES ≤ (c.span x)._npage + (c.span r)._npage

/-- The spans directly behind `r` are in use or too large to join. -/
def ForwardMaximal (c : PageCache) (us : List Nat) (r : Nat) : Prop :=
  ∀ x ∈ us ++ c.linked, (c.span r)._pageid + (c.span r)._npage = (c.span x)._pageid →
    (c.span x)._isUse = true ∨ NPAGES ≤ (c.span x)._npage + (c.span r)._npage

namespace Releasing

variable {c d : PageCache} {r : Nat} {us : List Nat}

/-- What one merge does to the other spans and their buckets. -/
theorem absorb_others (h : Releasing c r us) {ret : Nat} (hret : ret ∈ c.linked) (s : Span) :
    (∀ x ∈ us ++ (c.absorb r ret s).linked, (c.absorb r ret s).span x = c.span x) ∧
      ∀ x ∈ us ++ (c.absorb r ret s).linked, ∀ k,
        x ∈ (c.absorb r ret s)._pagelist k ↔ x ∈ c._pagelist k := by
  refine ⟨fun x hx => h.shape.span_absorb hret s hx, ?_⟩
  intro x hx k
  have hne : x ≠ ret := by
    intro he
    subst he
    have hnd := (h.shape.objects_absorb hret s).nodup_iff.mpr h.shape.objects
    have hfree : (c.absorb r x s)._freeList = x :: c._freeList := rfl
    rw [hfree] at hnd
    exact (List.nodup_append.mp hnd).2.2 x (List.mem_cons_of_mem _ hx) x List.mem_cons_self rfl
  change x ∈ Function.update c._pagelist ((c.setSpan r s).span ret)._npage
    ((c._pagelist ((c.setSpan r s).span ret)._npage).erase ret) k ↔ x ∈ c._pagelist k
  rw [Function.update_apply]
  split_ifs with hk
  · rw [hk]
    exact List.mem_erase_of_ne hne
  · exact Iff.rfl

theorem merged_back (h : Releasing c r us) {ret : Nat} (hret : ret ∈ c.linked)
    (hend : (c.span ret)._pageid + (c.span ret)._npage = (c.span r)._pageid) :
    Merged c (c.absorb r ret { c.span r with
      _pageid := (c.span ret)._pageid
      _npage := (c.span r)._npage + (c.span ret)._npage }) us r [ret] [] := by
  obtain ⟨hspans, hbuckets⟩ := h.absorb_others hret { c.span r with
    _pageid := (c.span ret)._pageid
    _npage := (c.span r)._npage + (c.span ret)._npage }
  refine ⟨h.shape.linked_absorb hret _, ?_, hspans, hbuckets⟩
  rw [pages, h.shape.span_absorb_self hret]
  simp only [List.flatMap_cons, List.flatMap_nil, List.append_nil, pages, Span.pages]
  rw [Nat.add_comm (c.span r)._npage, ← hend, List.range'_append_1]

theorem merged_forward (h : Releasing c r us) {ret : Nat} (hret : ret ∈ c.linked)
    (hstart : (c.span r)._pageid + (c.span r)._npage = (c.span ret)._pageid) :
    Merged c (c.absorb r ret { c.span r with
      _npage := (c.span r)._npage + (c.span ret)._npage }) us r [] [ret] := by
  obtain ⟨hspans, hbuckets⟩ := h.absorb_others hret { c.span r with
    _npage := (c.span r)._npage + (c.span ret)._npage }
  refine ⟨h.shape.linked_absorb hret _, ?_, hspans, hbuckets⟩
  rw [pages, h.shape.span_absorb_self hret]
  simp only [List.flatMap_cons, List.flatMap_nil, List.append_nil, List.nil_append, pages,
    Span.pages]
  rw [← hstart, List.range'_append_1]

/-- The page map leads from the page before `r` to the free span that ends there. -/
theorem get_prevId (h : Releasing c r us) {x : Nat} (hx : x ∈ c.linked)
    (hend : (c.span x)._pageid + (c.span x)._npage = (c.span r)._pageid) :
    c.get (c.prevId r) = some x := by
  have hown : x ∈ r :: us ++ c.linked := List.mem_append_right _ hx
  have hpos := h.shape.size_pos hown
  have hlast : (c.span x).last = c.prevId r := by
    rw [Span.last, prevId, hend]
    cases hp : (c.span r)._pageid with
    | zero => omega
    | succ p => rfl
  rw [← hlast, get_of_lt]
  · exact h.mapped.last x hx
  · exact h.shape.bounded _ (h.shape.tiles.mem_total hown (h.shape.last_mem hown))

theorem get_nextId (h : Releasing c r us) {x : Nat} (hx : x ∈ c.linked)
    (hstart : (c.span r)._pageid + (c.span r)._npage = (c.span x)._pageid) :
    c.get (c.nextId r) = some x := by
  have hown : x ∈ r :: us ++ c.linked := List.mem_append_right _ hx
  rw [nextId, hstart, get_of_lt]
  · exact h.mapped.first x (List.mem_append_right _ hx)
  · exact h.shape.bounded _ (h.shape.tiles.mem_total hown (h.shape.first_mem hown))

/-- Where the first loop stops, no free span that would fit lies before `r`. -/
theorem backMaximal (h : Releasing c r us) (hstop : ∀ ret, c.get (c.prevId r) = some ret →
      (c.span ret)._isUse = true ∨ NPAGES ≤ (c.span ret)._npage + (c.span r)._npage) :
    BackMaximal c us r := by
  intro x hx hend
  rcases List.mem_append.mp hx with hu | hl
  · exact Or.inl (h.used x hu)
  · exact hstop x (h.get_prevId hl hend)

theorem forwardMaximal (h : Releasing c r us) (hstop : ∀ ret, c.get (c.nextId r) = some ret →
      (c.span ret)._isUse = true ∨ NPAGES ≤ (c.span ret)._npage + (c.span r)._npage) :
    ForwardMaximal c us r := by
  intro x hx hstart
  rcases List.mem_append.mp hx with hu | hl
  · exact Or.inl (h.used x hu)
  · exact hstop x (h.get_nextId hl hstart)

/-- The first loop takes the free spans before `r` as long as they fit. -/
theorem mergeBack_merged (h : Releasing c r us) (fuel : Nat) (hd : mergeBack fuel c r = some d) :
    ∃ back, Merged c d us r back [] ∧ Releasing d r us ∧ BackMaximal d us r := by
  induction fuel generalizing c with
  | zero => cases hd
  | succ fuel ih =>
    rw [mergeBack_succ] at hd
    rcases round_cases c (c.prevId r) r _ (mergeBack fuel · r) with
      ⟨hstop, hmax⟩ | ⟨ret, hget, huse, hbig, hgo⟩
    · obtain rfl := Option.some.inj (hstop.symm.trans hd)
      exact ⟨[], Merged.refl c us r, h, h.backMaximal hmax⟩
    · obtain ⟨hmem, hend⟩ := h.prev_owner hget
      have hret := h.linked_of_unused hmem huse
      have hone := h.merged_back hret hend
      obtain ⟨back, hrest, hrel, hmax⟩ := ih (h.joinBack hret hend hbig).1 (hgo.symm.trans hd)
      exact ⟨back ++ [ret], hone.trans hrest, hrel, hmax⟩

/-- The second loop takes the free spans behind `r` as long as they fit. -/
theorem mergeForward_merged (h : Releasing c r us) (fuel : Nat)
    (hd : mergeForward fuel c r = some d) :
    ∃ fwd, Merged c d us r [] fwd ∧ Releasing d r us ∧ ForwardMaximal d us r ∧
      (d.span r)._pageid = (c.span r)._pageid ∧ (c.span r)._npage ≤ (d.span r)._npage := by
  induction fuel generalizing c with
  | zero => cases hd
  | succ fuel ih =>
    rw [mergeForward_succ] at hd
    rcases round_cases c (c.nextId r) r _ (mergeForward fuel · r) with
      ⟨hstop, hmax⟩ | ⟨ret, hget, huse, hbig, hgo⟩
    · obtain rfl := Option.some.inj (hstop.symm.trans hd)
      exact ⟨[], Merged.refl c us r, h, h.forwardMaximal hmax, rfl, le_rfl⟩
    · obtain ⟨hmem, hstart⟩ := h.next_owner hget
      have hret := h.linked_of_unused hmem huse
      have hone := h.merged_forward hret hstart
      obtain ⟨fwd, hrest, hrel, hmax, hfirst, hlen⟩ :=
        ih (h.joinForward hret hstart hbig).1 (hgo.symm.trans hd)
      refine ⟨ret :: fwd, hone.trans hrest, hrel, hmax, ?_, ?_⟩
      · rw [hfirst, h.shape.span_absorb_self hret]
      · rw [h.shape.span_absorb_self hret] at hlen
        simp only at hlen
        omega

end Releasing

/-- A release of `r` from `c` to `d`: of the free spans, `back` and `fwd` are joined to `r`,
and `rest` stay as they are, like the spans `us` in use. The page ranges of `back`, `r` and
`fwd` make one range in this order. No further span could have been joined. -/
structure Coalesced (c d : PageCache) (us : List Nat) (r : Nat) (back fwd rest : List Nat) :
    Prop where
  before : c.linked.Perm (back ++ fwd ++ rest)
  after : d.linked.Perm (r :: rest)
  pages : d.pages r = back.flatMap c.pages ++ c.pages r ++ fwd.flatMap c.pages
  free : (d.span r)._isUse = false ∧ r ∈ d._pagelist (d.span r)._npage
  spans : ∀ x ∈ us ++ rest, d.span x = c.span x
  buckets : ∀ x ∈ us ++ rest, ∀ k, x ∈ d._pagelist k ↔ x ∈ c._pagelist k
  backMaximal : BackMaximal d us r
  forwardMaximal : ForwardMaximal d us r

section Link

variable {c d : PageCache} {us back fwd : List Nat} {r : Nat}

/-- Linking the merged span changes nothing of the others. -/
theorem Releasing.link_others (h : Releasing c r us) :
    (∀ x ∈ us ++ c.linked, (c.link r).span x = c.span x) ∧
      ∀ x ∈ us ++ c.linked, ∀ k, x ∈ (c.link r)._pagelist k ↔ x ∈ c._pagelist k := by
  have hne : ∀ x ∈ us ++ c.linked, x ≠ r := by
    intro x hx he
    subst he
    exact (List.nodup_cons.mp (List.nodup_append.mp h.shape.objects).1).1 hx
  refine ⟨?_, ?_⟩
  · intro x hx
    rw [Releasing.link_span, if_neg (hne x hx)]
  · intro x hx k
    change x ∈ Function.update c._pagelist (c.span r)._npage
      (r :: c._pagelist (c.span r)._npage) k ↔ x ∈ c._pagelist k
    rw [Function.update_apply]
    split_ifs with hk
    · rw [hk, List.mem_cons, or_iff_right (hne x hx)]
    · exact Iff.rfl

/-- A linked span that is joined to nothing more stays so. -/
theorem Releasing.maximal_link (h : Releasing c r us) (hback : BackMaximal c us r)
    (hfwd : ForwardMaximal c us r) :
    BackMaximal (c.link r) us r ∧ ForwardMaximal (c.link r) us r := by
  have hpos := (h.shape.sized r List.mem_cons_self).1
  have hlinked : (c.link r).linked.Perm (r :: c.linked) :=
    linked_push c (h.shape.sized r List.mem_cons_self).2 r
  have hself : (c.link r).span r = { c.span r with _isUse := false } := by
    rw [Releasing.link_span, if_pos rfl]
  have hcase : ∀ x ∈ us ++ (c.link r).linked, x = r ∨ x ∈ us ++ c.linked := by
    intro x hx
    rcases List.mem_append.mp hx with hu | hl
    · exact Or.inr (List.mem_append_left _ hu)
    · rcases List.mem_cons.mp (hlinked.subset hl) with he | hl
      · exact Or.inl he
      · exact Or.inr (List.mem_append_right _ hl)
  constructor
  · intro x hx hend
    rcases hcase x hx with rfl | hx
    · rw [hself] at hend
      simp only at hend
      omega
    · rw [h.link_others.1 x hx, hself] at hend ⊢
      exact hback x hx hend
  · intro x hx hstart
    rcases hcase x hx with rfl | hx
    · rw [hself] at hstart
      simp only at hstart
      omega
    · rw [h.link_others.1 x hx, hself] at hstart ⊢
      exact hfwd x hx hstart

/-- What the loops have merged, linked. -/
theorem Merged.coalesced (hm : Merged c d us r back fwd) (h : Releasing d r us)
    (hback : BackMaximal d us r) (hfwd : ForwardMaximal d us r) :
    Coalesced c (d.link r) us r back fwd d.linked := by
  obtain ⟨hspans, hbuckets⟩ := h.link_others
  obtain ⟨hbackL, hfwdL⟩ := h.maximal_link hback hfwd
  have hself : (d.link r).span r = { d.span r with _isUse := false } := by
    rw [Releasing.link_span, if_pos rfl]
  refine ⟨hm.linked, linked_push d (h.shape.sized r List.mem_cons_self).2 r, ?_, ?_, ?_, ?_, hbackL,
    hfwdL⟩
  · rw [← hm.pages, PageCache.pages, PageCache.pages, hself]
    rfl
  · rw [hself]
    refine ⟨rfl, ?_⟩
    change r ∈ Function.update d._pagelist (d.span r)._npage
      (r :: d._pagelist (d.span r)._npage) (d.span r)._npage
    rw [Function.update_self]
    exact List.mem_cons_self
  · intro x hx
    rw [hspans x hx, hm.spans x hx]
  · intro x hx k
    rw [hbuckets x hx k, hm.buckets x hx k]

end Link

/-- `relase_to_PageCache` of a span in use returns with the span joined to all free
neighbours that fit. -/
theorem relase_coalesced {c : PageCache} {r : Nat} {us : List Nat} (h : Sound c (r :: us)) :
    ∃ d back fwd rest, c.relase_to_PageCache r = some d ∧ Coalesced c d us r back fwd rest := by
  have hsize := h.shape.sized r List.mem_cons_self
  have hr := h.releasing
  obtain ⟨d, hd, -, -⟩ := hr.mergeBack_spec NPAGES (by omega)
  obtain ⟨back, hback, hrd, hmaxd⟩ := hr.mergeBack_merged NPAGES hd
  obtain ⟨e, he, -, -⟩ := hrd.mergeForward_spec NPAGES (by omega)
  obtain ⟨fwd, hfwd, hre, hmaxe, hfirst, hlen⟩ := hrd.mergeForward_merged NPAGES he
  have hleft : BackMaximal e us r := by
    intro x hx hend
    have hspan := hfwd.spans x hx
    rw [hspan] at hend ⊢
    rw [hfirst] at hend
    rcases hmaxd x (hfwd.mem_linked hx) hend with huse | hbig
    · exact Or.inl huse
    · right
      omega
  have hall := hback.trans hfwd
  rw [List.nil_append, List.nil_append] at hall
  refine ⟨e.link r, back, fwd, e.linked, ?_, hall.coalesced hre hleft hmaxe⟩
  rw [relase_to_PageCache, if_neg (by omega), hd]
  simp [he]

end PageCache

open PageCache

namespace PageState

/-- From every state that requests for 1 to 128 pages and releases lead to, the release of a
span in use returns, and links one free span in place of the span and all free neighbours
that fit. -/
theorem released_coalesced (as : List PageOp) :
    Always step (fun s => ∀ r ∈ s.inUse, ∃ d back fwd rest,
      s.cache.relase_to_PageCache r = some d ∧
        Coalesced s.cache d (s.inUse.erase r) r back fwd rest) init as := by
  apply (always_inv as).mono
  intro s hs r hr
  exact relase_coalesced (hs.sound.reorder (List.perm_cons_erase hr))

end PageState

end Mymuduo.Memory
