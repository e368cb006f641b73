import Mymuduo.Memory.HeapSteps

namespace Mymuduo.Memory

open Lib PageCache

namespace PageHeap

/-- The memory under the page cache: every region is that of a span that was built, the page map
has its leaves, and all memory lies below the break. -/
structure Grounded (h : PageHeap) : Prop where
  grown : h.mem.Grown
  frontier : h.mem.Frontier
  covered : ∀ p ∈ h.cache.regionPages, h.mem.map.HasLeaf p
  low : ∀ p ∈ h.cache.regionPages, (p + 1) * 8192 ≤ h.mem.seg.brk
  below : h.mem.seg.Below
  registered : ∀ base ∈ h.cache.regions, (base, NPAGES - 1) ∈ h.built

theorem Grounded.extend {h h' : PageHeap} (hg : Grounded h) (he : Extended h h')
    (hr : h'.cache.regions = h.cache.regions) : Grounded h' := by
  have hpages : h'.cache.regionPages = h.cache.regionPages := by
    rw [PageCache.regionPages, hr]
    rfl
  refine ⟨he.grown hg.grown, he.frontier hg.frontier, ?_, ?_, he.below hg.below, ?_⟩
  · intro p hp
    exact (he.leaf p).mpr (hg.covered p (hpages ▸ hp))
  · intro p hp
    exact (hg.low p (hpages ▸ hp)).trans he.brk
  · rw [hr, he.built]
    exact hg.registered

/-- The heap between two operations, with the spans `us` in use. -/
structure Laid (h : PageHeap) (us : List Nat) : Prop extends Grounded h where
  sound : PageCache.Sound h.view us
  blank : ∀ r ∈ us, (h.cache.span r).Blank

section Refill

variable {os : UserSbrk} {h h₁ : PageHeap} {m : MapHeap}

theorem view_withRegion {os : Sbrk} (hcache : h₁.cache = h.cache.New)
    (hget : ∀ k, m.map.get k = h.mem.map.get k) :
    (h₁.withRegion os h.cache.newRef m).view =
      h.view.refill (h₁.answerNow os (NPAGES - 1) >>> PAGE_SHIFT) := by
  have hmap : (h₁.withRegion os h.cache.newRef m).lookup = h.lookup := by
    funext k
    have hk : (h₁.withRegion os h.cache.newRef m).mem.map.get k = h.mem.map.get k := hget k
    rw [lookup, lookup, hk]
  have hbytes : ((NPAGES - 1) <<< PAGE_SHIFT) % 2 ^ 64 = (NPAGES - 1) <<< PAGE_SHIFT := by decide
  rw [view, hmap, withRegion, withBuilt, hcache, hbytes]
  rfl

/-- The address and the segment of a region that the system gives. -/
structure Region (h : PageHeap) (ptr : Nat) (seg : Segment) : Prop where
  above : h.mem.seg.brk ≤ ptr
  inside : ptr + 1048576 ≤ 2 ^ 48
  brk : seg.brk = ptr + 1048576
  below : h.mem.seg.Below → seg.Below
  refused : seg.refused = h.mem.seg.refused
  spans : seg.obtained .span = ⟨.span, ptr, 1048576⟩ :: h.mem.seg.obtained .span
  others : ∀ p, p ≠ .span → seg.obtained p = h.mem.seg.obtained p

theorem region_cases (os : UserSbrk) (h : PageHeap) :
    (h.answerNow os.toSbrk (NPAGES - 1) = SBRK_FAILED ∧
      h.segmentThen os.toSbrk (NPAGES - 1) = h.mem.seg.refuse) ∨
    Region h (h.answerNow os.toSbrk (NPAGES - 1)) (h.segmentThen os.toSbrk (NPAGES - 1)) := by
  have hsize : toSigned (((NPAGES - 1) <<< 13) % 2 ^ 64) = (1048576 : Nat) :=
    @Segment.toSigned_pages 128 (by decide)
  rcases answer_cases os.toSbrk h (NPAGES - 1) with hrefused | ⟨hreply, hle, hseg⟩
  · exact Or.inl hrefused
  · rw [hsize] at hreply hseg
    obtain ⟨-, hlimit⟩ := os.address _ _ _ _ hreply
    rw [hseg]
    refine Or.inr ⟨hle, by omega, ?_, fun hb => hb.give .span hle 1048576, rfl, ?_, ?_⟩
    · simp only [Segment.give]
      omega
    · simp [Segment.obtained, Segment.give]
    · intro p hp
      exact Segment.obtained_give_ne _ hp.symm _ _

/-- What a refill does with a region at `ptr`. -/
structure Refilled (h h' : PageHeap) (ptr : Nat) : Prop where
  view : h'.view = h.view.refill (ptr >>> PAGE_SHIFT)
  fresh : PageCache.FreshRegion h.view (ptr >>> PAGE_SHIFT)
  grown : h'.mem.Grown
  frontier : h'.mem.Frontier
  leaf : ∀ k, h.mem.map.HasLeaf k → h'.mem.map.HasLeaf k
  covered : ∀ p ∈ List.range' (ptr >>> PAGE_SHIFT) (NPAGES - 1), h'.mem.map.HasLeaf p
  above : h.mem.seg.brk ≤ ptr
  brk : ptr + 1048576 ≤ h'.mem.seg.brk
  below : h'.mem.seg.Below
  built : h'.built = (ptr >>> PAGE_SHIFT, NPAGES - 1) :: h.built
  refused : h'.mem.seg.refused = h.mem.seg.refused

/-- Memory above the break is in no region yet. -/
theorem Laid.fresh {us : List Nat} (hl : Laid h us) {ptr : Nat} (hle : h.mem.seg.brk ≤ ptr)
    (hlimit : ptr + 1048576 ≤ 2 ^ 48) : PageCache.FreshRegion h.view (ptr >>> PAGE_SHIFT) :=
  PageCache.freshRegion_above hl.sound.shape.tiles.nodup hl.low hle hlimit

/-- A refill lays the ground of one more region. -/
theorem Laid.refilled {us : List Nat} {g : PageHeap} {ptr : Nat} (hl : Laid h us)
    (hr : Refilled h g ptr) : Grounded g := by
  have hpages : g.cache.regionPages = List.range' (ptr >>> PAGE_SHIFT) (NPAGES - 1) ++
      h.cache.regionPages := by
    change g.view.regionPages = _
    rw [hr.view]
    exact PageCache.refill_regionPages
  have hregions : g.cache.regions = ptr >>> PAGE_SHIFT :: h.cache.regions := by
    change g.view.regions = _
    rw [hr.view]
    rfl
  refine ⟨hr.grown, hr.frontier, ?_, ?_, hr.below, ?_⟩
  · rw [hpages]
    intro p hp
    rcases List.mem_append.mp hp with hp | hp
    · exact hr.covered p hp
    · exact hr.leaf p (hl.covered p hp)
  · rw [hpages]
    intro p hp
    have hbrk := hr.brk
    rcases List.mem_append.mp hp with hp | hp
    · have hlt : p < ptr >>> PAGE_SHIFT + 128 := (List.mem_range'_1.mp hp).2
      rw [shift_page] at hlt
      omega
    · have hlow := hl.low p hp
      have habove := hr.above
      omega
  · rw [hregions, hr.built]
    intro base hb
    rcases List.mem_cons.mp hb with rfl | hb
    · exact List.mem_cons_self
    · exact List.mem_cons_of_mem _ (hl.registered base hb)

theorem refill_granted {us : List Nat} (hl : Laid h us) (hcache : h₁.cache = h.cache.New)
    (hmap : h₁.mem.map = h.mem.map) (he : Extended h h₁)
    (hr : Region h₁ (h₁.answerNow os.toSbrk (NPAGES - 1)) (h₁.segmentThen os.toSbrk (NPAGES - 1))) :
    Yields (fun _ m => Refilled h (h₁.withRegion os.toSbrk h.cache.newRef m)
        (h₁.answerNow os.toSbrk (NPAGES - 1)) ∧ m.seg.obtained .span =
          (h₁.segmentThen os.toSbrk (NPAGES - 1)).obtained .span)
      (fun e m => e = .wildWrite ∧ m.seg.obtained .span =
        (h₁.segmentThen os.toSbrk (NPAGES - 1)).obtained .span)
      (h₁.ensureRegion os.toSbrk h.cache.newRef) := by
  rw [ensureRegion]
  generalize hptr : h₁.answerNow os.toSbrk (NPAGES - 1) = ptr at hr
  generalize hseg : h₁.segmentThen os.toSbrk (NPAGES - 1) = seg at hr
  have hm : (h₁.withBuilt os.toSbrk h.cache.newRef (NPAGES - 1)).mem = ⟨h₁.mem.map, seg⟩ := by
    rw [← hseg]
    rfl
  have hbytes : (NPAGES - 1) <<< PAGE_SHIFT = 1048576 := rfl
  have hraise : h₁.mem.seg.brk ≤ seg.brk := by
    have := hr.above
    have := hr.brk
    omega
  have hgrown : (⟨h₁.mem.map, seg⟩ : MapHeap).Grown := (he.grown hl.grown).raise hraise
  have hinside := hr.inside
  rw [hm, hbytes]
  apply (MapHeap.Ensure_spec os.toSbrk hgrown (by omega) (by rw [shift_page]; omega)).mono
  · intro answer m hans
    obtain ⟨-, hens⟩ := hans
    have habove := hr.above
    have hbrk := hr.brk
    have hstart : MapHeap.Frontier ⟨h₁.mem.map, seg⟩ := by
      intro k hk
      exact (he.frontier hl.frontier k hk).trans hraise
    refine ⟨⟨?_, hl.fresh (he.brk.trans habove) hinside, hens.grown, ?_, ?_, ?_,
      he.brk.trans habove, ?_, hens.growth.below (hr.below (he.below hl.below)), ?_, ?_⟩,
      hens.growth.spans⟩
    · rw [← hptr]
      apply view_withRegion hcache
      intro k
      rw [hens.growth.get k, hmap]
    · refine (hens.frontier hstart ?_).1
      rw [shift_page, hbrk]
      omega
    · intro k hk
      exact (hens.growth.leaf k).mpr (Or.inl ((he.leaf k).mpr hk))
    · intro p hp
      have hp' : ptr >>> PAGE_SHIFT ≤ p ∧ p < ptr >>> PAGE_SHIFT + 128 := List.mem_range'_1.mp hp
      have hbase := shift_page ptr
      exact (hens.growth.leaf p).mpr
        (Or.inr (MapHeap.leaf_lt_stop hp'.1 (by omega) (by omega)))
    · rw [← hbrk]
      exact hens.growth.brk
    · rw [← hptr, withRegion, withBuilt, he.built]
    · exact (hens.growth.refused).trans (hr.refused.trans he.refused)
  · intro e m hden
    exact ⟨hden.1, hden.2.2⟩

end Refill

section Take

variable {h : PageHeap} {n i s : Nat}

/-- The two branches that find a span, one whose pages have leaves. -/
theorem take_spec (os : Sbrk) (hg : h.mem.Grown) (hs : h.Leafed s) (hne : h.cache.newRef ≠ s)
    (hsize : (h.cache.span s)._npage = i) (hi : n ≤ i) :
    Yields (fun r h' => Extended h h' ∧ taken h.view n i s = some (r, h'.view)) (Wild h)
      (if i = n then takeExact n s h else takeCut os n i s h) := by
  rw [taken]
  split_ifs with hin
  · obtain ⟨h', hcall, he, hview⟩ := takeExact_spec (n := n) hg hs
    rw [hcall]
    exact ⟨he, by rw [hview]⟩
  · refine (takeCut_spec os hg hs hne (by omega)).mono ?_ fun _ _ hw => hw
    intro b h' hb
    obtain ⟨rfl, he, hview⟩ := hb
    exact ⟨he, by rw [hview]; rfl⟩

end Take

section Unobtained

variable {h : PageHeap} {n i s : Nat}

theorem setEach_badKey (r : Nat) {k : Nat} (hk : 2 ^ 35 ≤ k) (ks : List Nat) :
    setEach r (k :: ks) h = .error .badKey h :=
  bind_error (set_badKey hk r)

theorem cutCache_rear_pageid (c : PageCache) (n i r : Nat) :
    ((cutCache c n i r).span r)._pageid = (c.span r)._pageid + n := by
  have hnew : (c.New.span r)._pageid = (c.span r)._pageid := by
    simp only [PageCache.New, Function.update_apply]
    split_ifs with hr
    · rw [hr]
      rfl
    · rfl
  rw [← hnew]
  simp [cutCache, PageCache.push_front, PageCache.cutSpan, PageCache.setSpan, PageCache.erase]

/-- A span for `(void*)-1` does not get past the assert of `set`. -/
theorem take_unobtained (os : Sbrk) (hpage : 2 ^ 35 ≤ (h.cache.span s)._pageid)
    (hpos : 1 ≤ (h.cache.span s)._npage) :
    Yields (fun _ _ => False) (fun e h' => (e = .wildWrite ∨ e = .badKey) ∧ Quiet h h')
      (if i = n then takeExact n s h else takeCut os n i s h) := by
  split_ifs
  · obtain ⟨k, hk⟩ : ∃ k, (h.cache.span s)._npage = k + 1 := ⟨_, (Nat.sub_add_cancel hpos).symm⟩
    have hcall : takeExact n s h = .error .badKey { h with cache := h.cache.erase n s } := by
      rw [takeExact, hk, List.range_succ_eq_map, List.map_cons]
      exact (bind_ok rfl).trans (bind_error (setEach_badKey s hpage _))
    rw [hcall]
    exact ⟨Or.inr rfl, rfl, rfl⟩
  · have hnew := (New_spec os h).mono (fun _ _ hq => hq)
      (F := fun e h' => (e = .wildWrite ∨ e = .badKey) ∧ Quiet h h')
      fun e h' hw => ⟨Or.inl hw.1, hw.2⟩
    apply hnew.bind
    intro b h₁ hb
    obtain ⟨rfl, hcache, -, he⟩ := hb
    let d : PageHeap := { h₁ with cache := cutCache h.cache n i s }
    have hends : setEnds s d = .error .badKey d := by
      refine setEach_badKey s ?_ _
      have hrear := cutCache_rear_pageid h.cache n i s
      change 2 ^ 35 ≤ ((cutCache h.cache n i s).span s)._pageid
      omega
    have hrun : (do
        change fun c => (c.erase i s).cutSpan n s h.cache.newRef
        change fun c => c.push_front (c.span s)._npage s
        setEnds s
        setAll h.cache.newRef
        return h.cache.newRef : Exec Nat) h₁ = .error .badKey d := by
      refine (bind_ok rfl).trans ((bind_ok rfl).trans ?_)
      rw [hcache]
      exact bind_error hends
    rw [hrun]
    exact ⟨Or.inr rfl, he.quiet.spans, he.quiet.built⟩

end Unobtained

section Answer

variable (os : Sbrk)

/-- What `sbrk` returns to `new_Span` itself, if it is called and `_spanPool` has an object for
the span. -/
def answer (h : PageHeap) (n : Nat) : Option Nat :=
  if n ≥ NPAGES then
    match New os { h with mem := { h.mem with seg := h.segmentThen os n } } with
    | .ok _ _ => some (h.answerNow os n)
    | .error _ _ => none
  else if h.cache.firstBucket n = none then
    match New os h with
    | .ok _ h₁ => some (h₁.answerNow os (NPAGES - 1))
    | .error _ _ => none
  else none

/-- The pages of the span that is built from the answer. -/
def askedPages (n : Nat) : Nat := if n ≥ NPAGES then n else NPAGES - 1

/-- A span for `n` pages is built from the answer `ptr`, whether or not it is one. -/
structure Built (n ptr : Nat) (h h' : PageHeap) : Prop where
  built : h'.built = (ptr >>> PAGE_SHIFT, n) :: h.built
  memory : ptr = SBRK_FAILED ∧ h'.mem.seg.obtained .span = h.mem.seg.obtained .span ∨
    h.mem.seg.brk ≤ ptr ∧ ptr + (toSigned ((n <<< 13) % 2 ^ 64)).toNat ≤ 2 ^ 48 ∧
      h'.mem.seg.obtained .span =
        ⟨.span, ptr, (toSigned ((n <<< 13) % 2 ^ 64)).toNat⟩ :: h.mem.seg.obtained .span

/-- No span is built. Memory for one may have been obtained if it is for no bucket. -/
structure Unbuilt (n : Nat) (h h' : PageHeap) : Prop where
  built : h'.built = h.built
  memory : ∀ b ∈ h.mem.seg.obtained .span, b ∈ h'.mem.seg.obtained .span
  same : n < NPAGES → h'.mem.seg.obtained .span = h.mem.seg.obtained .span

theorem Quiet.unbuilt {n : Nat} {h h' : PageHeap} (q : Quiet h h') : Unbuilt n h h' :=
  ⟨q.built, fun _ hb => q.spans.symm ▸ hb, fun _ => q.spans⟩

/-- What a call of `new_Span` has obtained and built when it ends. -/
def Accounts (h : PageHeap) (n : Nat) (h' : PageHeap) : Prop :=
  (h.answer os n = none ∧ Unbuilt n h h') ∨
    ∃ ptr, h.answer os n = some ptr ∧ Built (askedPages n) ptr h h'

end Answer

section Ask

variable (os : UserSbrk)

/-- What the segment has for spans after they were asked for. -/
theorem obtained_segmentThen (h : PageHeap) (n : Nat) :
    (h.answerNow os.toSbrk n = SBRK_FAILED ∧
      (h.segmentThen os.toSbrk n).obtained .span = h.mem.seg.obtained .span) ∨
    (h.mem.seg.brk ≤ h.answerNow os.toSbrk n ∧
      h.answerNow os.toSbrk n + (toSigned ((n <<< 13) % 2 ^ 64)).toNat ≤ 2 ^ 48 ∧
      (h.segmentThen os.toSbrk n).obtained .span =
        ⟨.span, h.answerNow os.toSbrk n, (toSigned ((n <<< 13) % 2 ^ 64)).toNat⟩ ::
          h.mem.seg.obtained .span) := by
  rcases answer_cases os.toSbrk h n with ⟨hptr, hseg⟩ | ⟨hreply, hle, hseg⟩
  · refine Or.inl ⟨hptr, ?_⟩
    rw [hseg]
    rfl
  · have hlimit := os.address _ _ _ _ hreply
    refine Or.inr ⟨hle, by omega, ?_⟩
    rw [hseg]
    rfl

theorem built_withBuilt {h h₁ h' : PageHeap} (he : Quiet h h₁)
    (hbrk : h.mem.seg.brk ≤ h₁.mem.seg.brk) (b n : Nat)
    (hq : Quiet (h₁.withBuilt os.toSbrk b n) h') : Built n (h₁.answerNow os.toSbrk n) h h' := by
  refine ⟨?_, ?_⟩
  · rw [hq.built, withBuilt, he.built]
  · rw [hq.spans, ← he.spans]
    rcases obtained_segmentThen os h₁ n with hrefused | ⟨hle, hgiven⟩
    · exact Or.inl hrefused
    · exact Or.inr ⟨hbrk.trans hle, hgiven⟩

end Ask

/-- What `new_Span` does for a request of a bucket's size. -/
structure Served (h h' : PageHeap) (n r : Nat) : Prop extends Grounded h' where
  call : ∃ base, PageCache.SbrkOk h.view n base ∧
    PageCache.new_Span 2 h.view n base = some (r, h'.view)
  refused : h'.mem.seg.refused = h.mem.seg.refused

/-- How a call of `new_Span` fails. -/
def Failed (os : Sbrk) (h : PageHeap) (n : Nat) (e : Crash) (h' : PageHeap) : Prop :=
  (e = .wildWrite ∨ e = .badKey) ∧ Accounts os h n h'

section Small

variable {os : UserSbrk} {h : PageHeap} {us : List Nat} {n : Nat}

theorem new_Span_refill (hlt : n < NPAGES) (hfb : h.cache.firstBucket n = none) (depth : Nat) :
    new_Span os.toSbrk (depth + 1) n h =
      (refill os.toSbrk >>= fun _ => new_Span os.toSbrk depth n) h := by
  have hsmall : ¬ n ≥ NPAGES := by omega
  rw [new_Span]
  simp only [hsmall, if_false, hfb]

theorem new_Span_large (hn : n ≥ NPAGES) (depth : Nat) :
    new_Span os.toSbrk (depth + 1) n h = takeLarge os.toSbrk n h := by
  rw [new_Span]
  exact if_pos hn

theorem Laid.leafed (hl : Laid h us) {s : Nat} (hs : s ∈ us ++ h.view.linked) : h.Leafed s := by
  intro p hp
  have hmem : p ∈ h.view.regionPages := hl.sound.shape.tiles.mem_total hs hp
  exact ⟨hl.sound.shape.bounded p hmem, hl.covered p hmem⟩

/-- A bucket can serve. -/
theorem found_spec (hl : Laid h us) (hlt : n < NPAGES) {i s : Nat}
    (hfb : h.cache.firstBucket n = some (i, s)) :
    Yields (fun r h' => Served h h' n r ∧ Accounts os.toSbrk h n h')
      (Failed os.toSbrk h n) (new_Span os.toSbrk 2 n h) := by
  have hsmall : ¬ n ≥ NPAGES := by omega
  obtain ⟨hi, hiN, hhead, -⟩ := PageCache.firstBucket_eq_some hfb
  have hs : s ∈ h.view._pagelist i := List.mem_of_mem_head? hhead
  have hmem : s ∈ us ++ h.view.linked :=
    List.mem_append_right _ (PageCache.mem_linked.mpr ⟨i, hiN, hs⟩)
  have hne : h.cache.newRef ≠ s := by
    intro he
    exact hl.sound.shape.newRef_fresh (he ▸ hmem)
  have hanswer : h.answer os.toSbrk n = none := by
    rw [answer, if_neg hsmall, if_neg (by rw [hfb]; exact Option.some_ne_none _)]
  simp only [new_Span, hsmall, if_false, hfb]
  refine (take_spec os.toSbrk hl.grown (hl.leafed hmem) hne (hl.sound.shape.bucket i s hs).1
    hi).mono ?_ ?_
  · intro r h' hr
    obtain ⟨he, htaken⟩ := hr
    refine ⟨⟨hl.extend he (taken_regions (c := h.view) (d := h'.view) htaken), ⟨0, ?_, ?_⟩,
      he.refused⟩, Or.inl ⟨hanswer, he.quiet.unbuilt⟩⟩
    · intro hnone
      have hview : h.cache.firstBucket n = none := hnone
      rw [hfb] at hview
      exact absurd hview (Option.some_ne_none _)
    · have hview : h.view.firstBucket n = some (i, s) := hfb
      simp only [PageCache.new_Span, hsmall, if_false, hview]
      exact htaken
  · intro e h' hw
    exact ⟨Or.inl hw.1, Or.inl ⟨hanswer, hw.2.unbuilt⟩⟩

/-- No bucket can serve, and the system gives a region. -/
theorem granted_spec (hl : Laid h us) (hlt : n < NPAGES)
    (hfb : h.cache.firstBucket n = none) {g : PageHeap} {ptr : Nat} (hr : Refilled h g ptr) :
    Yields (fun r h' => Served h h' n r ∧ Quiet g h') (Wild g) (new_Span os.toSbrk 1 n g) := by
  have hsmall : ¬ n ≥ NPAGES := by omega
  have hempty : ∀ k, n ≤ k → k < NPAGES → h.view._pagelist k = [] :=
    PageCache.firstBucket_eq_none hfb
  have hfound : g.view.firstBucket n = some (NPAGES - 1, h.cache.newRef) := by
    rw [hr.view]
    exact PageCache.firstBucket_refill _ hlt hempty
  have hfound' : g.cache.firstBucket n = some (NPAGES - 1, h.cache.newRef) := hfound
  have hshape : PageCache.Shape g.view us := by
    rw [hr.view]
    exact PageCache.refill_shape hl.sound.shape hr.fresh
  have hs : h.cache.newRef ∈ g.view._pagelist (NPAGES - 1) := by
    rw [hr.view, PageCache.refill_front]
    exact List.mem_cons_self
  have hmem : h.cache.newRef ∈ us ++ g.view.linked :=
    List.mem_append_right _ (PageCache.mem_linked.mpr ⟨_, by decide, hs⟩)
  have hne : g.cache.newRef ≠ h.cache.newRef := by
    intro he
    exact hshape.newRef_fresh (he ▸ hmem)
  have hground := hl.refilled hr
  have hleafed : g.Leafed h.cache.newRef := by
    intro p hp
    have hin : p ∈ g.view.regionPages := hshape.tiles.mem_total hmem hp
    exact ⟨hshape.bounded p hin, hground.covered p hin⟩
  simp only [new_Span, hsmall, if_false, hfound']
  refine (take_spec os.toSbrk hr.grown hleafed hne (hshape.bucket _ _ hs).1 (by omega)).mono
    ?_ fun _ _ hw => hw
  intro r h' hx
  obtain ⟨he, htaken⟩ := hx
  refine ⟨⟨hground.extend he (taken_regions (c := g.view) (d := h'.view) htaken),
    ⟨ptr >>> PAGE_SHIFT, fun _ => hr.fresh, ?_⟩, he.refused.trans hr.refused⟩, he.quiet⟩
  have hnone : h.view.firstBucket n = none := hfb
  rw [hr.view] at hfound htaken
  simp only [PageCache.new_Span, hsmall, if_false, hnone, hfound]
  exact htaken

/-- The system refuses the region. -/
theorem refused_spec (hlt : n < NPAGES) {g : PageHeap} {s : Nat}
    (hfb : g.cache.firstBucket n = some (NPAGES - 1, s))
    (hpage : 2 ^ 35 ≤ (g.cache.span s)._pageid) (hpos : 1 ≤ (g.cache.span s)._npage) :
    Yields (fun _ _ => False) (fun e h' => (e = .wildWrite ∨ e = .badKey) ∧ Quiet g h')
      (new_Span os.toSbrk 1 n g) := by
  have hsmall : ¬ n ≥ NPAGES := by omega
  simp only [new_Span, hsmall, if_false, hfb]
  exact take_unobtained os.toSbrk hpage hpos

/-- A refill links a span even if it has got no memory for it. -/
theorem refused_front {h₁ : PageHeap} (hcache : h₁.cache = h.cache.New)
    (hmap : h₁.mem.map = h.mem.map) (hlt : n < NPAGES) (hfb : h.cache.firstBucket n = none)
    (hptr : h₁.answerNow os.toSbrk (NPAGES - 1) = SBRK_FAILED) {m : MapHeap}
    (hm : m.map = h₁.mem.map) :
    (h₁.withRegion os.toSbrk h.cache.newRef m).cache.firstBucket n =
        some (NPAGES - 1, h.cache.newRef) ∧
      ((h₁.withRegion os.toSbrk h.cache.newRef m).cache.span h.cache.newRef)._pageid =
        SBRK_FAILED >>> PAGE_SHIFT ∧
      ((h₁.withRegion os.toSbrk h.cache.newRef m).cache.span h.cache.newRef)._npage =
        NPAGES - 1 := by
  have hview : (h₁.withRegion os.toSbrk h.cache.newRef m).view =
      h.view.refill (SBRK_FAILED >>> PAGE_SHIFT) := by
    rw [view_withRegion hcache, hptr]
    intro k
    rw [hm, hmap]
  have hspan : (h₁.withRegion os.toSbrk h.cache.newRef m).cache.span h.cache.newRef = _ :=
    (congrArg (fun c => c.span h.cache.newRef) hview).trans
      ((PageCache.refill_span _).trans (if_pos rfl))
  refine ⟨?_, ?_, ?_⟩
  · change (h₁.withRegion os.toSbrk h.cache.newRef m).view.firstBucket n = _
    rw [hview]
    exact PageCache.firstBucket_refill _ hlt (PageCache.firstBucket_eq_none hfb)
  · rw [hspan]
  · rw [hspan]

/-- `new_Span` for a request of a bucket's size returns a span, or fails because the system
refuses memory; it never reaches a missing leaf. -/
theorem new_Span_spec (hl : Laid h us) (hlt : n < NPAGES) :
    Yields (fun r h' => Served h h' n r ∧ Accounts os.toSbrk h n h')
      (Failed os.toSbrk h n) (new_Span os.toSbrk 2 n h) := by
  have hsmall : ¬ n ≥ NPAGES := by omega
  cases hfb : h.cache.firstBucket n with
  | some found => exact found_spec hl hlt hfb
  | none =>
    rw [new_Span_refill hlt hfb]
    have hpages : askedPages n = NPAGES - 1 := if_neg hsmall
    have hspec := New_spec os.toSbrk h
    cases hnew : New os.toSbrk h with
    | error e h₁ =>
      have hwild := hspec.error hnew
      have hanswer : h.answer os.toSbrk n = none := by
        simp only [answer, hsmall, if_false, hfb, if_true, hnew]
      have hcall : refill os.toSbrk h = .error e h₁ := bind_error hnew
      rw [bind_error hcall]
      exact ⟨Or.inl hwild.1, Or.inl ⟨hanswer, hwild.2.unbuilt⟩⟩
    | ok b h₁ =>
      obtain ⟨rfl, hcache, hmap, he⟩ := hspec.ok hnew
      have hanswer : h.answer os.toSbrk n = some (h₁.answerNow os.toSbrk (NPAGES - 1)) := by
        simp only [answer, hsmall, if_false, hfb, if_true, hnew]
      have haccounts : ∀ h', Quiet (h₁.withBuilt os.toSbrk h.cache.newRef (NPAGES - 1)) h' →
          Accounts os.toSbrk h n h' := by
        intro h' hq
        refine Or.inr ⟨_, hanswer, ?_⟩
        rw [hpages]
        exact built_withBuilt os he.quiet he.brk _ _ hq
      rcases region_cases os h₁ with ⟨hptr, hseg⟩ | hregion
      · have hens : h₁.ensureRegion os.toSbrk h.cache.newRef =
            .ok false (h₁.withBuilt os.toSbrk h.cache.newRef (NPAGES - 1)).mem := by
          rw [ensureRegion, hptr]
          exact MapHeap.Ensure_outside os.toSbrk (by decide) (by decide) (by decide) _
        rw [bind_ok (refill_ok hnew hens)]
        obtain ⟨hfound, hpageid, hsize⟩ := refused_front hcache hmap hlt hfb hptr
          (m := (h₁.withBuilt os.toSbrk h.cache.newRef (NPAGES - 1)).mem) rfl
        have hquiet : Quiet (h₁.withBuilt os.toSbrk h.cache.newRef (NPAGES - 1))
            (h₁.withRegion os.toSbrk h.cache.newRef
              (h₁.withBuilt os.toSbrk h.cache.newRef (NPAGES - 1)).mem) := ⟨rfl, rfl⟩
        refine (refused_spec hlt hfound ?_ ?_).mono ?_ ?_
        · rw [hpageid]
          decide
        · rw [hsize]
          decide
        · intro r h' hfalse
          exact hfalse.elim
        · intro e h' hw
          exact ⟨hw.1, haccounts h' (hquiet.trans hw.2)⟩
      · have hens := refill_granted hl hcache hmap he hregion
        cases hresult : h₁.ensureRegion os.toSbrk h.cache.newRef with
        | error e m =>
          obtain ⟨rfl, hspans⟩ := hens.error hresult
          rw [bind_error (refill_error hnew hresult)]
          exact ⟨Or.inl rfl, haccounts _ ⟨hspans, rfl⟩⟩
        | ok answer m =>
          obtain ⟨hfilled, hspans⟩ := hens.ok hresult
          rw [bind_ok (refill_ok hnew hresult)]
          have hquiet : Quiet (h₁.withBuilt os.toSbrk h.cache.newRef (NPAGES - 1))
              (h₁.withRegion os.toSbrk h.cache.newRef m) := ⟨hspans, rfl⟩
          apply (granted_spec hl hlt hfb hfilled).mono
          · intro r h' hr
            exact ⟨hr.1, haccounts h' (hquiet.trans hr.2)⟩
          · intro e h' hw
            exact ⟨Or.inl hw.1, haccounts h' (hquiet.trans hw.2)⟩

end Small

end PageHeap

end Mymuduo.Memory
