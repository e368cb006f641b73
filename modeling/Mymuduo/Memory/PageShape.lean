import Mymuduo.Memory.PageCache

namespace Mymuduo.Memory

open Lib

theorem Span.mem_pages {s : Span} {p : Nat} :
    p ∈ s.pages ↔ s._pageid ≤ p ∧ p < s._pageid + s._npage :=
  List.mem_range'_1

/-- No block of the span is out, and none is chained. -/
def Span.Blank (s : Span) : Prop := s._objlist = [] ∧ s._usecount = 0

namespace PageCache

theorem linked_push (c : PageCache) {k : Nat} (hk : k < NPAGES) (r : Nat) :
    (c.push_front k r).linked.Perm (r :: c.linked) := by
  have h := flatMap_update_perm c._pagelist k (r :: c._pagelist k) List.nodup_range
    (List.mem_range.mpr hk)
  rw [List.perm_iff_count] at h ⊢
  intro x
  have hx := h x
  simp only [List.count_append, List.count_cons] at hx
  simp only [linked, push_front, List.count_cons]
  omega

theorem linked_erase (c : PageCache) {k r : Nat} (hk : k < NPAGES) (hr : r ∈ c._pagelist k) :
    c.linked.Perm (r :: (c.erase k r).linked) := by
  have h := flatMap_update_perm c._pagelist k ((c._pagelist k).erase r) List.nodup_range
    (List.mem_range.mpr hk)
  have hcons := (List.perm_cons_erase hr)
  rw [List.perm_iff_count] at h hcons ⊢
  intro x
  have hx := h x
  have hx' := hcons x
  simp only [List.count_append, List.count_cons] at hx hx'
  simp only [linked, erase, List.count_cons]
  omega

theorem mem_linked {c : PageCache} {r : Nat} :
    r ∈ c.linked ↔ ∃ k, k < NPAGES ∧ r ∈ c._pagelist k := by
  simp [linked, List.mem_flatMap]

theorem mem_of_mem_erase {c : PageCache} {k k' r x : Nat}
    (h : x ∈ (c.erase k r)._pagelist k') : x ∈ c._pagelist k' := by
  by_cases hk : k' = k
  · subst hk
    simp only [erase, Function.update_self] at h
    exact List.mem_of_mem_erase h
  · simpa [erase, hk] using h

theorem mem_push_front {c : PageCache} {k k' r x : Nat}
    (h : x ∈ (c.push_front k r)._pagelist k') : x = r ∧ k' = k ∨ x ∈ c._pagelist k' := by
  by_cases hk : k' = k
  · subst hk
    simp only [push_front, Function.update_self, List.mem_cons] at h
    exact h.imp (fun hx => ⟨hx, rfl⟩) fun hx => hx
  · exact Or.inr (by simpa [push_front, hk] using h)

/-- The page cache with the spans `held` that are in no bucket: together they partition the
regions, and every span object is in one place. -/
structure Shape (c : PageCache) (held : List Nat) : Prop where
  tiles : Tiles c.pages (held ++ c.linked) c.regionPages
  bucket : ∀ k r, r ∈ c._pagelist k →
    (c.span r)._npage = k ∧ 1 ≤ k ∧ k < NPAGES ∧ (c.span r)._isUse = false ∧ (c.span r).Blank
  sized : ∀ r ∈ held, 1 ≤ (c.span r)._npage ∧ (c.span r)._npage < NPAGES
  objects : (held ++ c.linked ++ c._freeList).Nodup
  allocated : ∀ r ∈ held ++ c.linked ++ c._freeList, r < c._memory
  bounded : ∀ p ∈ c.regionPages, p < 2 ^ BITS

/-- What the page map says: each of these spans has its first page's entry, a span of
`free` its last page's as well, and there are no entries outside the regions. -/
structure Mapped (c : PageCache) (held free : List Nat) : Prop where
  first : ∀ r ∈ held ++ free, c._id_span_map (c.span r)._pageid = some r
  last : ∀ r ∈ free, c._id_span_map (c.span r).last = some r
  lastHeld : ∀ r ∈ held, c._id_span_map (c.span r).last = some r ∨
    c._id_span_map (c.span r).last = none
  outside : ∀ p, p ∉ c.regionPages → c._id_span_map p = none

/-- The entries a span's ends get. -/
theorem setEnds_map (c : PageCache) (r p : Nat) : (c.setEnds r)._id_span_map p =
    if p = (c.span r).last ∨ p = (c.span r)._pageid then some r else c._id_span_map p := by
  by_cases hl : p = (c.span r).last
  · simp [setEnds, set, hl]
  · by_cases hf : p = (c.span r)._pageid
    · subst hf
      simp [setEnds, set, hl]
    · simp [setEnds, set, hl, hf]

namespace Mapped

variable {c d : PageCache} {held free : List Nat}

/-- Entries survive where neither the spans nor the entries of their pages change. -/
theorem frame (h : Mapped c held free) (hpos : ∀ r ∈ held ++ free, 1 ≤ (c.span r)._npage)
    (hspan : ∀ r ∈ held ++ free, d.span r = c.span r)
    (hentry : ∀ r ∈ held ++ free, ∀ p ∈ c.pages r, d._id_span_map p = c._id_span_map p)
    (hout : ∀ p, p ∉ d.regionPages → d._id_span_map p = none) : Mapped d held free := by
  have hfirst : ∀ r ∈ held ++ free, d._id_span_map (d.span r)._pageid =
      c._id_span_map (c.span r)._pageid := by
    intro r hr
    have := hpos r hr
    rw [hspan r hr]
    exact hentry r hr _ (Span.mem_pages.mpr ⟨le_rfl, by omega⟩)
  have hlast : ∀ r ∈ held ++ free, d._id_span_map (d.span r).last =
      c._id_span_map (c.span r).last := by
    intro r hr
    have := hpos r hr
    rw [hspan r hr]
    refine hentry r hr _ (Span.mem_pages.mpr ?_)
    unfold Span.last
    omega
  refine ⟨?_, ?_, ?_, hout⟩
  · intro r hr
    rw [hfirst r hr]
    exact h.first r hr
  · intro r hr
    rw [hlast r (List.mem_append_right _ hr)]
    exact h.last r hr
  · intro r hr
    rw [hlast r (List.mem_append_left _ hr)]
    exact h.lastHeld r hr

theorem subset (h : Mapped c held free) {held' free' : List Nat} (hh : ∀ r ∈ held', r ∈ held)
    (hf : ∀ r ∈ free', r ∈ free) : Mapped c held' free' := by
  refine ⟨fun r hr => h.first r ?_, fun r hr => h.last r (hf r hr),
    fun r hr => h.lastHeld r (hh r hr), h.outside⟩
  rcases List.mem_append.mp hr with hr | hr
  · exact List.mem_append_left _ (hh r hr)
  · exact List.mem_append_right _ (hf r hr)

theorem cons_free (h : Mapped c held free) {r : Nat}
    (hfirst : c._id_span_map (c.span r)._pageid = some r)
    (hlast : c._id_span_map (c.span r).last = some r) : Mapped c held (r :: free) := by
  refine ⟨?_, ?_, h.lastHeld, h.outside⟩
  · intro x hx
    rcases List.mem_append.mp hx with hx | hx
    · exact h.first x (List.mem_append_left _ hx)
    · rcases List.mem_cons.mp hx with rfl | hx
      · exact hfirst
      · exact h.first x (List.mem_append_right _ hx)
  · intro x hx
    rcases List.mem_cons.mp hx with rfl | hx
    · exact hlast
    · exact h.last x hx

theorem cons_held (h : Mapped c held free) {r : Nat}
    (hfirst : c._id_span_map (c.span r)._pageid = some r)
    (hlast : c._id_span_map (c.span r).last = some r ∨ c._id_span_map (c.span r).last = none) :
    Mapped c (r :: held) free := by
  refine ⟨?_, h.last, ?_, h.outside⟩
  · intro x hx
    rcases List.mem_cons.mp hx with rfl | hx
    · exact hfirst
    · exact h.first x hx
  · intro x hx
    rcases List.mem_cons.mp hx with rfl | hx
    · exact hlast
    · exact h.lastHeld x hx

end Mapped

/-- The page cache between two operations, with the spans `us` in use. -/
structure Sound (c : PageCache) (us : List Nat) : Prop where
  shape : Shape c us
  mapped : Mapped c us c.linked
  used : ∀ r ∈ us, (c.span r)._isUse = true

/-- What an operation leaves alone: the spans in use, and the entries of their pages. -/
structure Frame (c d : PageCache) (us : List Nat) : Prop where
  spans : ∀ r ∈ us, d.span r = c.span r
  entries : ∀ r ∈ us, ∀ p ∈ c.pages r, d._id_span_map p = c._id_span_map p

namespace Shape

variable {c : PageCache} {held : List Nat}

theorem linked_spec (h : Shape c held) {r : Nat} (hr : r ∈ c.linked) :
    r ∈ c._pagelist (c.span r)._npage ∧ 1 ≤ (c.span r)._npage ∧ (c.span r)._npage < NPAGES ∧
      (c.span r)._isUse = false ∧ (c.span r).Blank := by
  obtain ⟨k, -, hk⟩ := mem_linked.mp hr
  obtain ⟨rfl, hpos, hlt, huse, hblank⟩ := h.bucket k r hk
  exact ⟨hk, hpos, hlt, huse, hblank⟩

theorem size_pos (h : Shape c held) {r : Nat} (hr : r ∈ held ++ c.linked) :
    1 ≤ (c.span r)._npage := by
  rcases List.mem_append.mp hr with hr | hr
  · exact (h.sized r hr).1
  · exact (h.linked_spec hr).2.1

theorem first_mem (h : Shape c held) {r : Nat} (hr : r ∈ held ++ c.linked) :
    (c.span r)._pageid ∈ c.pages r := by
  have := h.size_pos hr
  exact Span.mem_pages.mpr ⟨le_rfl, by omega⟩

theorem last_mem (h : Shape c held) {r : Nat} (hr : r ∈ held ++ c.linked) :
    (c.span r).last ∈ c.pages r := by
  have := h.size_pos hr
  apply Span.mem_pages.mpr
  unfold Span.last
  omega

theorem not_linked (h : Shape c held) {r : Nat} (hr : r ∈ held) : r ∉ c.linked := by
  intro hl
  have hnd := (List.nodup_append.mp h.objects).1
  exact (List.nodup_append.mp hnd).2.2 r hr r hl rfl

theorem newRef_fresh (h : Shape c held) : c.newRef ∉ held ++ c.linked := by
  intro hm
  unfold newRef at hm
  cases hf : c._freeList with
  | nil =>
    rw [hf] at hm
    exact absurd (h.allocated _ (List.mem_append_left _ hm)) (lt_irrefl _)
  | cons x xs =>
    rw [hf] at hm
    exact (List.nodup_append.mp h.objects).2.2 _ hm _ (by simp [hf]) rfl

/-- Two spans of one cache, one page of each. -/
theorem pages_ne (h : Shape c held) {r x p q : Nat} (hr : r ∈ held ++ c.linked)
    (hx : x ∈ held ++ c.linked) (hne : x ≠ r) (hp : p ∈ c.pages x) (hq : q ∈ c.pages r) : p ≠ q := by
  intro he
  subst he
  exact hne (h.tiles.unique hx hr hp hq)

theorem reorder (h : Shape c held) {held' : List Nat} (hp : held.Perm held') : Shape c held' := by
  have hall : (held ++ c.linked ++ c._freeList).Perm (held' ++ c.linked ++ c._freeList) :=
    (hp.append_right _).append_right _
  exact ⟨h.tiles.reorder (hp.append_right _), h.bucket, fun r hr => h.sized r (hp.symm.subset hr),
    hall.nodup_iff.mp h.objects, fun r hr => h.allocated r (hall.symm.subset hr), h.bounded⟩

/-- Spans move between the buckets and `held` with their pages. -/
theorem rehome (h : Shape c held) {d : PageCache} {held' : List Nat}
    (hp : (held' ++ d.linked).Perm (held ++ c.linked))
    (hpages : ∀ r ∈ held ++ c.linked, d.pages r = c.pages r)
    (hfree : d._freeList = c._freeList) (hmem : d._memory = c._memory)
    (hreg : d.regions = c.regions)
    (hbucket : ∀ k r, r ∈ d._pagelist k → (d.span r)._npage = k ∧ 1 ≤ k ∧ k < NPAGES ∧
      (d.span r)._isUse = false ∧ (d.span r).Blank)
    (hsized : ∀ r ∈ held', 1 ≤ (d.span r)._npage ∧ (d.span r)._npage < NPAGES) :
    Shape d held' := by
  have hobj : (held' ++ d.linked ++ d._freeList).Perm (held ++ c.linked ++ c._freeList) := by
    rw [hfree]
    exact hp.append_right _
  have hregion : d.regionPages = c.regionPages := by
    unfold regionPages
    rw [hreg]
  refine ⟨?_, hbucket, hsized, hobj.nodup_iff.mpr h.objects, ?_, ?_⟩
  · have hnew : Tiles d.pages (held ++ c.linked) d.regionPages := by
      rw [hregion]
      exact h.tiles.congr hpages
    exact hnew.reorder hp.symm
  · intro r hr
    rw [hmem]
    exact h.allocated r (hobj.subset hr)
  · rw [hregion]
    exact h.bounded

section Absorb

variable {us : List Nat} {r ret : Nat}

theorem ne_of_linked (h : Shape c (r :: us)) (hret : ret ∈ c.linked) : r ≠ ret := by
  intro he
  subst he
  exact h.not_linked List.mem_cons_self hret

theorem linked_absorb (h : Shape c (r :: us)) (hret : ret ∈ c.linked) (s : Span) :
    c.linked.Perm (ret :: (c.absorb r ret s).linked) := by
  obtain ⟨hmem, -, hk, -⟩ := h.linked_spec hret
  have hsize : ((c.setSpan r s).span ret)._npage = (c.span ret)._npage := by
    simp [setSpan, (h.ne_of_linked hret).symm]
  have heq : (c.absorb r ret s).linked = (c.erase (c.span ret)._npage ret).linked := by
    simp only [absorb, hsize]
    rfl
  rw [heq]
  exact linked_erase c hk hmem

theorem objects_absorb (h : Shape c (r :: us)) (hret : ret ∈ c.linked) (s : Span) :
    (r :: us ++ (c.absorb r ret s).linked ++ (c.absorb r ret s)._freeList).Perm
      (r :: us ++ c.linked ++ c._freeList) := by
  have hfree : (c.absorb r ret s)._freeList = ret :: c._freeList := rfl
  rw [hfree, List.perm_iff_count]
  intro x
  have hx := List.perm_iff_count.mp (h.linked_absorb hret s) x
  simp only [List.count_append, List.count_cons] at hx ⊢
  omega

/-- Absorbing a span leaves all others alone. -/
theorem span_absorb (h : Shape c (r :: us)) (hret : ret ∈ c.linked) (s : Span) {x : Nat}
    (hx : x ∈ us ++ (c.absorb r ret s).linked) : (c.absorb r ret s).span x = c.span x := by
  have hnd := (h.objects_absorb hret s).nodup_iff.mpr h.objects
  have hfree : (c.absorb r ret s)._freeList = ret :: c._freeList := rfl
  rw [hfree] at hnd
  have hr : x ≠ r := by
    intro he
    subst he
    simp only [List.cons_append, List.append_assoc, List.nodup_cons, List.mem_append] at hnd
    rcases List.mem_append.mp hx with hx | hx
    · exact hnd.1 (Or.inl hx)
    · exact hnd.1 (Or.inr (Or.inl hx))
  have hne : x ≠ ret := by
    intro he
    subst he
    have hd := (List.nodup_append.mp hnd).2.2 x (by simpa using Or.inr (List.mem_append.mp hx)) x
    exact hd List.mem_cons_self rfl
  simp [absorb, Delete, erase, setSpan, hr, hne]

theorem span_absorb_self (h : Shape c (r :: us)) (hret : ret ∈ c.linked) (s : Span) :
    (c.absorb r ret s).span r = s := by
  simp [absorb, Delete, erase, setSpan, h.ne_of_linked hret]

/-- A free span is joined to a held one, and its object goes back to the pool. -/
theorem absorb (h : Shape c (r :: us)) (hret : ret ∈ c.linked) {s : Span}
    (hpages : s.pages.Perm (c.pages r ++ c.pages ret)) (hpos : 1 ≤ s._npage)
    (hlt : s._npage < NPAGES) : Shape (c.absorb r ret s) (r :: us) := by
  have hlink := h.linked_absorb hret s
  have hobj := h.objects_absorb hret s
  refine ⟨?_, ?_, ?_, hobj.nodup_iff.mpr h.objects, fun x hx => h.allocated x (hobj.subset hx),
    h.bounded⟩
  · have hold : (r :: us ++ c.linked).Perm ([r, ret] ++ (us ++ (c.absorb r ret s).linked)) := by
      rw [List.perm_iff_count]
      intro x
      have hx := List.perm_iff_count.mp hlink x
      simp only [List.count_append, List.count_cons, List.count_nil] at hx ⊢
      omega
    apply (h.tiles.reorder hold).replace [r, ret] [r]
    · intro x hx
      unfold pages
      rw [h.span_absorb hret s hx]
    · simpa [pages, h.span_absorb_self hret s] using hpages
  · intro k x hx
    have hb := h.bucket k x (mem_of_mem_erase hx)
    rw [h.span_absorb hret s (List.mem_append_right _ (mem_linked.mpr ⟨k, hb.2.2.1, hx⟩))]
    exact hb
  · intro x hx
    rcases List.mem_cons.mp hx with rfl | hx
    · rw [h.span_absorb_self hret s]
      exact ⟨hpos, hlt⟩
    · rw [h.span_absorb hret s (List.mem_append_left _ hx)]
      exact h.sized x (List.mem_cons_of_mem _ hx)

end Absorb

end Shape

theorem Sound.reorder {c : PageCache} {us us' : List Nat} (h : Sound c us) (hp : us.Perm us') :
    Sound c us' :=
  ⟨h.shape.reorder hp, h.mapped.subset (fun _ hx => hp.symm.subset hx) fun _ hx => hx,
    fun x hx => h.used x (hp.symm.subset hx)⟩

end PageCache

end Mymuduo.Memory
