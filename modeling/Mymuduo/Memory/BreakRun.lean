import Mymuduo.Memory.LargeSpans

namespace Mymuduo.Memory

open Lib PageCache

namespace PageCache

/-- Taking an object from the pool for something else. -/
theorem Sound.takeObject {c : PageCache} {us : List Nat} (h : Sound c us) (s : Span) :
    Sound (c.New.setSpan c.newRef s) us := by
  obtain ⟨hnd, hall⟩ := New_objects h.shape
  have hspan : ∀ x ∈ us ++ c.linked, (c.New.setSpan c.newRef s).span x = c.span x := by
    intro x hx
    have hne : x ≠ c.newRef := by
      intro he
      exact h.shape.newRef_fresh (he ▸ hx)
    simp [setSpan, New, hne]
  have hmapped : Mapped (c.New.setSpan c.newRef s) us c.linked :=
    h.mapped.frame (fun x hx => h.shape.size_pos hx) hspan (fun _ _ _ _ => rfl) h.mapped.outside
  refine ⟨⟨?_, ?_, ?_, (List.nodup_cons.mp hnd).2, fun x hx => hall x (List.mem_cons_of_mem _ hx),
    h.shape.bounded⟩, hmapped, ?_⟩
  · apply h.shape.tiles.congr
    intro x hx
    rw [pages, pages, hspan x hx]
  · intro k x hx
    have hb := h.shape.bucket k x hx
    rw [hspan x (List.mem_append_right _ (mem_linked.mpr ⟨k, hb.2.2.1, hx⟩))]
    exact hb
  · intro x hx
    rw [hspan x (List.mem_append_left _ hx)]
    exact h.shape.sized x hx
  · intro x hx
    rw [hspan x (List.mem_append_left _ hx)]
    exact h.used x hx

theorem takeLarge_span (c : PageCache) (n base x : Nat) : (c.takeLarge n base).span x =
    if x = c.newRef then { construct (c.span c.newRef) with
      _pageid := base, _npage := n, _objsize := n <<< PAGE_SHIFT }
    else c.span x := by
  by_cases hx : x = c.newRef
  · subst hx
    simp [takeLarge, set, setSpan, New]
  · simp [takeLarge, set, setSpan, New, hx]

theorem takeLarge_map (c : PageCache) (n base p : Nat) : (c.takeLarge n base)._id_span_map p =
    if p = base then some c.newRef else c._id_span_map p := by
  simp only [takeLarge, set, setSpan, New, Function.update_apply]

/-- A span for no bucket takes an object from the pool, and nothing from the others. -/
theorem takeLarge_aside {c : PageCache} {us : List Nat} {n base x : Nat} (h : Aside c us x) :
    Aside (c.takeLarge n base) us x := ⟨h.New.1, h.unused, h.unlinked, h.New.2⟩

theorem newRef_aside {c : PageCache} {us : List Nat} {m : Nat → Option Nat} {n base : Nat}
    (h : Shape (c.withMap m) us) : Aside (c.takeLarge n base) us c.newRef := by
  obtain ⟨hnd, hall⟩ := New_objects h
  have hfresh := (List.nodup_cons.mp hnd).1
  refine ⟨hall _ List.mem_cons_self, ?_, ?_, ?_⟩
  · exact fun hmem => hfresh (List.mem_append_left _ (List.mem_append_left _ hmem))
  · exact fun hmem => hfresh (List.mem_append_left _ (List.mem_append_right _ hmem))
  · exact fun hmem => hfresh (List.mem_append_right _ hmem)

end PageCache

/-- The page cache over a program break that only its own memory moves: `sbrk(k)` returns the
old break and raises it by `k`. `large` has the live spans of `NPAGES` pages or more, and
`inUse` the others. The leaves of the page map are taken as present. -/
structure BreakState where
  cache : PageCache
  seg : Segment
  inUse : List Nat
  large : List Nat

/-- A request, a release of a span of a bucket's size, or memory for a chunk of `_spanPool` or
for a node or leaf of the page map. -/
inductive BreakOp where
  | new_Span (n : Nat)
  | relase (r : Nat)
  | obtain (p : Purpose) (kpage : Nat)

namespace BreakState

def init (brk : Nat) : BreakState := ⟨PageCache.init, ⟨brk, 0, 0, []⟩, [], []⟩

/-- The segment after `sbrk` of a number of pages. -/
def raised (s : BreakState) (p : Purpose) (kpage : Nat) : Segment :=
  s.seg.give p s.seg.brk (kpage * 8192 : Nat)

/-- The page that memory at the break begins in. -/
def page (s : BreakState) : Nat := s.seg.brk >>> PAGE_SHIFT

/-- There is memory for so many pages, in 48 bits of addresses. -/
def Room (s : BreakState) (kpage : Nat) : Prop := s.seg.brk + kpage * 8192 ≤ 2 ^ 48

instance (s : BreakState) (kpage : Nat) : Decidable (s.Room kpage) :=
  inferInstanceAs (Decidable (_ ≤ _))

/-- The segment after a request of a bucket's size. -/
def refilled (s : BreakState) (n : Nat) : Segment :=
  if s.cache.firstBucket n = none then s.raised .span (NPAGES - 1) else s.seg

/-- `new_Span(n)` for a bucket's size; the caller marks the span as used. -/
def newSmall (s : BreakState) (n : Nat) : Option BreakState :=
  if s.cache.firstBucket n = none → s.Room (NPAGES - 1) then
    (PageCache.new_Span 2 s.cache n s.page).map fun (r, c) => { s with
      cache := c.setSpan r { c.span r with _isUse := true }
      seg := s.refilled n
      inUse := r :: s.inUse }
  else none

/-- `new_Span(n)` for no bucket. -/
def newLarge (s : BreakState) (n : Nat) : Option BreakState :=
  if s.Room n then
    (PageCache.new_Span 2 s.cache n s.page).map fun (r, c) => { s with
      cache := c
      seg := s.raised .span n
      large := r :: s.large }
  else none

def step (s : BreakState) : BreakOp → Option BreakState
  | .new_Span n => if 1 ≤ n ∧ n < NPAGES then s.newSmall n else
      if NPAGES ≤ n then s.newLarge n else none
  | .relase r =>
    if r ∈ s.inUse then
      (s.cache.relase_to_PageCache r).map fun c => { s with
        cache := c
        inUse := s.inUse.erase r }
    else none
  | .obtain p kpage =>
    if p ≠ .span ∧ s.Room kpage then some { s with seg := s.raised p kpage } else none

/-- The release of a span of `NPAGES` pages or more: `brk` gets the address of its first page. -/
def releaseLarge (s : BreakState) (r : Nat) : Option BreakState :=
  (s.cache.relase_to_PageCache r).map fun c => { s with
    cache := c
    seg := s.seg.SystemFree_brk ((s.cache.span r)._pageid <<< PAGE_SHIFT)
    large := s.large.erase r }

/-- The release of `r` gives back its own memory only: every other live span, and every chunk
and node, is below the break, and no page of `r` leads to the deleted object. -/
structure OnlyOwn (s t : BreakState) (r : Nat) : Prop where
  spans : ∀ x ∈ s.inUse ++ s.large.erase r,
    ((s.cache.span x)._pageid + (s.cache.span x)._npage) <<< PAGE_SHIFT ≤ t.seg.brk
  others : ∀ b ∈ s.seg.blocks, b.purpose ≠ .span → b.stop ≤ t.seg.brk
  entries : ∀ p ∈ s.cache.pages r, t.cache._id_span_map p ≠ some r

/-- A live span for no bucket has the entry of its first page, which belongs to no region. -/
structure KeptLarge (s : BreakState) (x : Nat) : Prop where
  size : NPAGES ≤ (s.cache.span x)._npage
  entry : s.cache._id_span_map (s.cache.span x)._pageid = some x
  apart : (s.cache.span x)._pageid ∉ s.cache.regionPages
  below : ((s.cache.span x)._pageid + 1) * 8192 ≤ s.seg.brk
  aside : Aside s.cache s.inUse x

/-- The invariant: the spans of the buckets are sound without the entries for the large ones. -/
structure Kept (s : BreakState) : Prop where
  view : ∃ m, Forgets s.large s.cache m ∧ Sound (s.cache.withMap m) s.inUse
  blank : ∀ r ∈ s.inUse, (s.cache.span r).Blank
  low : ∀ p ∈ s.cache.regionPages, (p + 1) * 8192 ≤ s.seg.brk
  large : ∀ x ∈ s.large, KeptLarge s x

section Steps

variable {s t : BreakState} {n r : Nat}

theorem brk_raised (s : BreakState) (p : Purpose) (kpage : Nat) :
    (s.raised p kpage).brk = s.seg.brk + kpage * 8192 := by
  simp only [raised, Segment.give]
  omega

/-- What a step may change while a large span is kept. -/
theorem KeptLarge.change {x : Nat} (h : s.KeptLarge x)
    (hspan : t.cache.span x = s.cache.span x) (hbrk : s.seg.brk ≤ t.seg.brk)
    (hentry : t.cache._id_span_map (s.cache.span x)._pageid =
      s.cache._id_span_map (s.cache.span x)._pageid)
    (hapart : (s.cache.span x)._pageid ∉ t.cache.regionPages)
    (haside : Aside t.cache t.inUse x) : t.KeptLarge x := by
  refine ⟨?_, ?_, ?_, ?_, haside⟩
  · rw [hspan]
    exact h.size
  · rw [hspan, hentry]
    exact h.entry
  · rw [hspan]
    exact hapart
  · rw [hspan]
    exact h.below.trans hbrk

theorem kept_init (brk : Nat) : (init brk).Kept :=
  ⟨⟨fun _ => none, fun _ => Or.inl rfl, sound_init⟩, fun _ hr => absurd hr List.not_mem_nil,
    fun _ hp => absurd hp List.not_mem_nil, fun _ hx => absurd hx List.not_mem_nil⟩

/-- Memory for something else. -/
theorem kept_obtain (h : s.Kept) (p : Purpose) (kpage : Nat) :
    ({ s with seg := s.raised p kpage } : BreakState).Kept := by
  have hbrk : s.seg.brk ≤ (s.raised p kpage).brk := by
    rw [brk_raised]
    omega
  refine ⟨h.view, h.blank, fun p' hp => (h.low p' hp).trans hbrk, ?_⟩
  intro x hx
  have hlarge := h.large x hx
  exact hlarge.change rfl hbrk rfl hlarge.apart hlarge.aside

/-- The state after a request for no bucket. -/
def withLarge (s : BreakState) (n : Nat) : BreakState := { s with
  cache := s.cache.takeLarge n s.page
  seg := s.raised .span n
  large := s.cache.newRef :: s.large }

theorem newLarge_eq (s : BreakState) (hn : NPAGES ≤ n) :
    s.newLarge n = if s.Room n then some (s.withLarge n) else none := by
  rw [newLarge, PageCache.new_Span, if_pos hn]
  rfl

theorem kept_withLarge (h : s.Kept) (hn : NPAGES ≤ n) : (s.withLarge n).Kept := by
  rw [withLarge]
  obtain ⟨m, hf, hsound⟩ := h.view
  have hraised := brk_raised s .span n
  have hbrk : s.seg.brk ≤ (s.raised .span n).brk := by omega
  have hpage : s.page = s.seg.brk / 8192 := shift_page s.seg.brk
  have hpos : 1 ≤ n := le_trans (by decide) hn
  have hout : s.page ∉ s.cache.regionPages := by
    intro hp
    have hlow := h.low _ hp
    omega
  refine ⟨⟨m, ?_, hsound.takeObject _⟩, ?_, fun p hp => (h.low p hp).trans hbrk, ?_⟩
  · intro p
    rw [takeLarge_map]
    split_ifs with hp
    · refine Or.inr ⟨?_, s.cache.newRef, List.mem_cons_self, rfl⟩
      rw [hp]
      exact hsound.mapped.outside s.page hout
    · rcases hf p with hsame | ⟨hnone, x, hx, hentry⟩
      · exact Or.inl hsame
      · exact Or.inr ⟨hnone, x, List.mem_cons_of_mem _ hx, hentry⟩
  · intro r hr
    have hne : r ≠ s.cache.newRef := by
      intro he
      exact hsound.shape.newRef_fresh (he ▸ List.mem_append_left _ hr)
    rw [takeLarge_span, if_neg hne]
    exact h.blank r hr
  · intro x hx
    rcases List.mem_cons.mp hx with rfl | hx
    · have hself : (s.cache.takeLarge n s.page).span s.cache.newRef = { construct
          (s.cache.span s.cache.newRef) with
          _pageid := s.page, _npage := n, _objsize := n <<< PAGE_SHIFT } := by
        rw [takeLarge_span, if_pos rfl]
      refine ⟨?_, ?_, ?_, ?_, newRef_aside hsound.shape⟩
      · rw [hself]
        exact hn
      · rw [hself, takeLarge_map]
        exact if_pos rfl
      · rw [hself]
        exact hout
      · rw [hself]
        simp only
        omega
    · have hlarge := h.large x hx
      have hbelow := hlarge.below
      refine hlarge.change ?_ hbrk ?_ hlarge.apart (takeLarge_aside hlarge.aside)
      · rw [takeLarge_span, if_neg hlarge.aside.ne_newRef]
      · rw [takeLarge_map, if_neg (by omega)]

theorem kept_newSmall (h : s.Kept) (hn : 1 ≤ n) (hlt : n < NPAGES) (ht : s.newSmall n = some t) :
    t.Kept := by
  rw [newSmall] at ht
  split_ifs at ht with hroom
  obtain ⟨m, hf, hsound⟩ := h.view
  have hb : SbrkOk (s.cache.withMap m) n s.page := by
    intro hfb
    exact freshRegion_above hsound.shape.tiles.nodup h.low le_rfl (hroom hfb)
  obtain ⟨r, d, m', hcall, hall, hf', hspares⟩ := new_Span_forgets hf hsound hn hlt hb
  rw [hcall] at ht
  obtain rfl := Option.some.inj ht
  have hpage : s.page = s.seg.brk / 8192 := shift_page s.seg.brk
  have hbrk : s.seg.brk ≤ (s.refilled n).brk := by
    rw [refilled]
    split_ifs
    · rw [brk_raised]
      omega
    · exact le_rfl
  have hlow : ∀ p ∈ d.regionPages, (p + 1) * 8192 ≤ (s.refilled n).brk ∧
      (p ∉ s.cache.regionPages → s.page ≤ p) := by
    intro p hp
    have hold : p ∈ s.cache.regionPages → (p + 1) * 8192 ≤ (s.refilled n).brk ∧
        (p ∉ s.cache.regionPages → s.page ≤ p) :=
      fun hp => ⟨(h.low p hp).trans hbrk, fun hnot => absurd hp hnot⟩
    rcases hspares.regions with ⟨-, hregions⟩ | ⟨hfb, hregions⟩
    · rw [regionPages, hregions] at hp
      exact hold hp
    · rw [regionPages, hregions, List.flatMap_cons] at hp
      rcases List.mem_append.mp hp with hp | hp
      · have hrange : s.page ≤ p ∧ p < s.page + 128 := List.mem_range'_1.mp hp
        have hsize : NPAGES - 1 = 128 := rfl
        rw [refilled, if_pos hfb, brk_raised, hsize]
        omega
      · exact hold hp
  refine ⟨⟨m', hf', hall.sound hsound.used rfl rfl rfl⟩, ?_, fun p hp => (hlow p hp).1, ?_⟩
  · intro x hx
    rw [setSpan_span]
    split_ifs with hxr
    · exact hall.blank
    · have hx' := (List.mem_cons.mp hx).resolve_left hxr
      have hsame : d.span x = s.cache.span x := hall.frame.spans x hx'
      rw [hsame]
      exact h.blank x hx'
  · intro x hx
    have hlarge := h.large x hx
    obtain ⟨hsame, haside⟩ := hspares.aside x hlarge.aside
    have hapart : (s.cache.span x)._pageid ∉ d.regionPages := by
      intro hp
      have hge := (hlow _ hp).2 hlarge.apart
      have hbelow := hlarge.below
      omega
    refine hlarge.change ?_ hbrk (hspares.entries _ hapart) hapart
      ⟨haside.allocated, haside.unused, haside.unlinked, haside.pooled⟩
    have hne : x ≠ r := by
      intro he
      exact haside.unused (he ▸ List.mem_cons_self)
    rw [setSpan_span, if_neg hne]
    exact hsame

/-- A release does not see the entries for the large spans. -/
theorem relase_forgets {large us : List Nat} {c : PageCache} {m : Nat → Option Nat}
    (hf : Forgets large c m) (hsize : ∀ x ∈ large, NPAGES ≤ (c.span x)._npage)
    (hsound : Sound (c.withMap m) (r :: us)) :
    ∃ e, c.relase_to_PageCache r = some (e.link r) ∧ Releasing (e.withMap m) r us ∧
      MergeFrame (c.withMap m) (e.withMap m) r us ∧ MergeSpares large c e := by
  obtain ⟨d, hmerge, hrel, hframe⟩ := merge_spec hsound
  obtain ⟨d₁, hback, hforward⟩ := Option.bind_eq_some_iff.mp hmerge
  obtain ⟨e₁, hback', rfl, hspares⟩ := mergeBack_forgets NPAGES hsize hf hback
  obtain ⟨e, hforward', rfl, hspares'⟩ :=
    mergeForward_forgets NPAGES (hspares.size hsize) (hspares.forgets hf) hforward
  refine ⟨e, ?_, hrel, hframe, hspares.trans hspares'⟩
  have hsmall : (c.span r)._npage < NPAGES := (hsound.shape.sized r List.mem_cons_self).2
  rw [relase_to_PageCache, if_neg (by omega), hback']
  simp [hforward']

theorem kept_relase (h : s.Kept) (hr : r ∈ s.inUse) {c : PageCache}
    (hc : s.cache.relase_to_PageCache r = some c) :
    ({ s with cache := c, inUse := s.inUse.erase r } : BreakState).Kept := by
  obtain ⟨m, hf, hsound⟩ := h.view
  obtain ⟨e, hcall, hrel, hframe, hspares⟩ :=
    relase_forgets hf (fun x hx => (h.large x hx).size) (hsound.reorder (List.perm_cons_erase hr))
  rw [hcall] at hc
  obtain rfl := Option.some.inj hc
  have hsize := hrel.shape.sized r List.mem_cons_self
  have hblank : ((e.withMap m).span r).Blank :=
    ⟨hframe.objlist.trans (h.blank r hr).1, hframe.usecount.trans (h.blank r hr).2⟩
  obtain ⟨hlinked, hkeep⟩ := hrel.link hblank
  have hregions : (e.link r).regionPages = s.cache.regionPages := by
    rw [regionPages, regionPages, ← hspares.regions]
    rfl
  refine ⟨⟨((e.withMap m).link r)._id_span_map, ?_, hlinked⟩, ?_, ?_, ?_⟩
  · refine (hspares.forgets hf).update ?_
    intro p
    rw [Releasing.link_map, Releasing.link_map]
    have hsame : (e.withMap m).span = e.span := rfl
    rw [hsame]
    split_ifs
    · exact Or.inl rfl
    · exact Or.inr ⟨rfl, rfl⟩
  · intro x hx
    have hsame : (e.link r).span x = s.cache.span x :=
      (hkeep.spans x hx).trans (hframe.spans x hx)
    rw [hsame]
    exact h.blank x (List.mem_of_mem_erase hx)
  · rw [hregions]
    exact h.low
  · intro x hx
    have hlarge := h.large x hx
    have hspared := hspares.spared x hx
    have hne : x ≠ r := by
      intro he
      exact hlarge.aside.unused (he ▸ hr)
    have hout : ∀ p ∈ (e.withMap m).pages r, p ≠ (s.cache.span x)._pageid := by
      intro p hp he
      have hregion : p ∈ (e.link r).regionPages := hrel.mem_region hp
      rw [hregions, he] at hregion
      exact hlarge.apart hregion
    have hmem : r ∈ r :: s.inUse.erase r ++ (e.withMap m).linked :=
      List.mem_append_left _ List.mem_cons_self
    have hlast : (e.span r).last ≠ _ := hout _ (hrel.shape.last_mem hmem)
    have hfirst : (e.span r)._pageid ≠ _ := hout _ (hrel.shape.first_mem hmem)
    refine hlarge.change ?_ le_rfl ?_ (hregions ▸ hlarge.apart)
      ⟨hspared.allocated hlarge.aside.allocated, ?_, ?_, hspared.pooled hlarge.aside.pooled⟩
    · rw [Releasing.link_span, if_neg hne]
      exact hspared.span
    · rw [Releasing.link_map, if_neg (by simp [hlast.symm, hfirst.symm]), hspares.map]
    · exact fun hin => hlarge.aside.unused (List.mem_of_mem_erase hin)
    · intro hin
      have hlink : (e.link r).linked.Perm (r :: e.linked) := linked_push e hsize.2 r
      rcases List.mem_cons.mp (hlink.subset hin) with rfl | hin
      · exact hne rfl
      · exact hlarge.aside.unlinked (hspares.linked x hin)

theorem kept_step {a : BreakOp} (h : s.Kept) (ht : s.step a = some t) : t.Kept := by
  cases a with
  | new_Span n =>
    rw [step] at ht
    split_ifs at ht with hsmall hlarge
    · exact kept_newSmall h hsmall.1 hsmall.2 ht
    · rw [newLarge_eq s hlarge] at ht
      split_ifs at ht
      obtain rfl := Option.some.inj ht
      exact kept_withLarge h hlarge
  | relase r =>
    rw [step] at ht
    split_ifs at ht with hr
    obtain ⟨c, hc, rfl⟩ := Option.map_eq_some_iff.mp ht
    exact kept_relase h hr hc
  | obtain p kpage =>
    rw [step] at ht
    split_ifs at ht with hroom
    obtain rfl := Option.some.inj ht
    exact kept_obtain h p kpage

/-- The release of a large span sets the break to its address, and leaves the entry of its first
page. -/
theorem Kept.releaseLarge (h : s.Kept) (hr : r ∈ s.large) : ∃ t, s.releaseLarge r = some t ∧
    t.seg.brk = (s.cache.span r)._pageid <<< PAGE_SHIFT ∧
    t.cache._id_span_map (s.cache.span r)._pageid = some r ∧ r ∈ t.cache._freeList := by
  have hsize := (h.large r hr).size
  have hcall : s.cache.relase_to_PageCache r = some (s.cache.releaseLarge r) := by
    rw [relase_to_PageCache, if_pos hsize]
  refine ⟨{ s with
    cache := s.cache.releaseLarge r
    seg := s.seg.SystemFree_brk ((s.cache.span r)._pageid <<< PAGE_SHIFT)
    large := s.large.erase r }, ?_, rfl, (h.large r hr).entry, List.mem_cons_self⟩
  rw [BreakState.releaseLarge, hcall]
  rfl

end Steps

/-- In every state, the release of a large span leaves the entry of its first page leading to
the deleted object, and takes away what lies behind the span. -/
theorem release_not_own (brk : Nat) (as : List BreakOp) :
    Always step (fun s => ∀ r ∈ s.large, ∃ t, s.releaseLarge r = some t ∧ ¬ OnlyOwn s t r ∧
      (t.cache._id_span_map (s.cache.span r)._pageid = some r ∧ r ∈ t.cache._freeList) ∧
      ∀ b ∈ s.seg.blocks, ((s.cache.span r)._pageid + (s.cache.span r)._npage) <<< PAGE_SHIFT ≤
        b.addr → t.seg.brk < b.stop) (init brk) as := by
  apply (always_of_step (fun _ _ _ h ht => kept_step h ht) (kept_init brk) as).mono
  intro s h r hr
  obtain ⟨t, hcall, hbrk, hentry, hfree⟩ := h.releaseLarge hr
  have hsize := (h.large r hr).size
  have hpages : NPAGES = 129 := rfl
  refine ⟨t, hcall, ?_, ⟨hentry, hfree⟩, ?_⟩
  · intro hown
    refine hown.entries _ (Span.mem_pages.mpr ⟨le_rfl, ?_⟩) hentry
    omega
  · intro b hb hle
    rw [hbrk, Nat.shiftLeft_eq]
    rw [Nat.shiftLeft_eq] at hle
    have hstop : b.stop = b.addr + b.bytes := rfl
    have hpow : 2 ^ PAGE_SHIFT = 8192 := rfl
    rw [hpow] at hle ⊢
    omega

/-- A span of 200 pages, and then a chunk for the pool: the release of the span takes the chunk
away, and the entry of page 128 leads to the deleted object. -/
theorem large_release_drops_chunk : ∃ s t : BreakState, ∃ r ∈ s.large,
    run step (init (2 ^ 20)) [.new_Span 200, .obtain .chunk 16] = some s ∧
      s.releaseLarge r = some t ∧ ¬ OnlyOwn s t r ∧
      (∃ b ∈ s.seg.blocks, b.purpose = .chunk ∧ ¬ b.stop ≤ t.seg.brk) ∧
      t.cache._id_span_map 128 = some r := by
  have hlarge : (init (2 ^ 20)).step (.new_Span 200) = some ((init (2 ^ 20)).withLarge 200) := by
    rw [step, if_neg (by decide), if_pos (by decide), newLarge_eq _ (by decide),
      if_pos (by decide)]
  have hchunk : ((init (2 ^ 20)).withLarge 200).step (.obtain .chunk 16) =
      some { (init (2 ^ 20)).withLarge 200 with
        seg := ((init (2 ^ 20)).withLarge 200).raised .chunk 16 } := by
    rw [step, if_pos (by decide)]
  have hkept := kept_obtain (kept_withLarge (n := 200) (kept_init (2 ^ 20)) (by decide)) .chunk 16
  have hpage : (((init (2 ^ 20)).withLarge 200).cache.span PageCache.init.newRef)._pageid =
      128 := by decide +kernel
  have hblock : (⟨.chunk, 2 ^ 20 + 200 * 8192, 16 * 8192⟩ : Block) ∈
      (((init (2 ^ 20)).withLarge 200).raised .chunk 16).blocks := by decide +kernel
  have hlive : PageCache.init.newRef ∈ ((init (2 ^ 20)).withLarge 200).large := List.mem_cons_self
  obtain ⟨t, hcall, hbrk, hentry, -⟩ := hkept.releaseLarge hlive
  simp only [hpage] at hbrk hentry
  have habove : ¬ (⟨.chunk, 2 ^ 20 + 200 * 8192, 16 * 8192⟩ : Block).stop ≤ t.seg.brk := by
    rw [hbrk]
    decide
  refine ⟨{ (init (2 ^ 20)).withLarge 200 with
    seg := ((init (2 ^ 20)).withLarge 200).raised .chunk 16 }, t, _, hlive, ?_, hcall, ?_,
    ⟨_, hblock, rfl, habove⟩, hentry⟩
  · rw [run, hlarge, Option.bind_some, run, hchunk]
    rfl
  · intro hown
    exact habove (hown.others _ hblock (by decide))

end BreakState

end Mymuduo.Memory
