import Mymuduo.Memory.HeapAlloc

namespace Mymuduo.Memory

open Lib

namespace PageHeap

section Large

variable {os : UserSbrk} {h : PageHeap} {us : List Nat} {n : Nat}

/-- How a request ends that no bucket is meant for. -/
structure LargeFailed (os : Sbrk) (h : PageHeap) (n : Nat) (e : Crash) (h' : PageHeap) : Prop where
  granted : (∃ ptr, h.answer os n = some ptr ∧ ptr ≠ SBRK_FAILED) → e = .nullNode
  denied : e = .nullNode → ∃ ptr, h.answer os n = some ptr ∧ ptr ≠ SBRK_FAILED
  uncaught : e ≠ .bad_alloc
  accounts : Accounts os h n h'

/-- The leaf of an address at or above the break does not exist. -/
theorem no_leaf_above (hf : h.mem.Frontier) {ptr : Nat} (hle : h.mem.seg.brk ≤ ptr) :
    ¬ h.mem.map.HasLeaf (ptr >>> PAGE_SHIFT) := by
  intro hleaf
  have hlt := hf _ hleaf
  rw [PageCache.shift_page] at hlt
  omega

/-- The heap after `sbrk` for the pages of a large span. -/
def withPages (os : Sbrk) (h : PageHeap) (n : Nat) : PageHeap :=
  { h with mem := { h.mem with seg := h.segmentThen os n } }

/-- There is no memory for the span object. -/
theorem large_unbuilt (hn : n ≥ NPAGES) {e : Crash} {h₁ : PageHeap}
    (hnew : New os.toSbrk (withPages os.toSbrk h n) = .error e h₁) :
    LargeFailed os.toSbrk h n e h₁ := by
  have hanswer : h.answer os.toSbrk n = none := by
    rw [withPages] at hnew
    simp only [answer, hn, if_true, hnew]
  obtain ⟨rfl, hquiet⟩ := (New_spec os.toSbrk _).error hnew
  refine ⟨?_, fun he => absurd he (by decide), by decide, Or.inl ⟨hanswer, hquiet.built, ?_,
    fun hlt => absurd hlt (Nat.not_lt_of_le hn)⟩⟩
  · intro hsome
    obtain ⟨ptr, hptr, -⟩ := hsome
    rw [hanswer] at hptr
    cases hptr
  · intro b hb
    rw [hquiet.spans]
    change b ∈ (h.segmentThen os.toSbrk n).obtained .span
    rcases obtained_segmentThen os h n with ⟨-, hsame⟩ | ⟨-, -, hgiven⟩
    · rw [hsame]
      exact hb
    · rw [hgiven]
      exact List.mem_cons_of_mem _ hb

/-- The span is built, and its first page is entered: if the system refused, the key is out of
range, and else the leaf is missing. -/
theorem large_built (hl : Laid h us) (hn : n ≥ NPAGES) {b : Nat} {h₁ d : PageHeap}
    (hnew : New os.toSbrk (withPages os.toSbrk h n) = .ok b h₁)
    (hd : build b (h.answerNow os.toSbrk n) n h₁ = .ok () d) :
    ∃ e, set (h.answerNow os.toSbrk n >>> PAGE_SHIFT) b d = .error e d ∧
      LargeFailed os.toSbrk h n e d := by
  have hanswer : h.answer os.toSbrk n = some (h.answerNow os.toSbrk n) := by
    rw [withPages] at hnew
    simp only [answer, hn, if_true, hnew]
  obtain ⟨rfl, -, hmap, he⟩ := (New_spec os.toSbrk _).ok hnew
  have hmem : d.mem = h₁.mem := by
    rw [← (EStateM.Result.ok.inj hd).2]
  have hbuilt : d.built = (h.answerNow os.toSbrk n >>> PAGE_SHIFT, n) :: h.built := by
    rw [← (EStateM.Result.ok.inj hd).2, he.built]
    rfl
  have haccounts : Accounts os.toSbrk h n d := by
    refine Or.inr ⟨_, hanswer, ?_⟩
    rw [show askedPages n = n from if_pos hn]
    refine ⟨hbuilt, ?_⟩
    rw [hmem, he.quiet.spans]
    exact obtained_segmentThen os h n
  rcases answer_cases os.toSbrk h n with ⟨hptr, -⟩ | ⟨hreply, hle, -⟩
  · have hbad : 2 ^ 35 ≤ h.answerNow os.toSbrk n >>> PAGE_SHIFT := by
      rw [hptr]
      decide
    refine ⟨.badKey, set_badKey hbad _, ?_, fun he => absurd he (by decide), by decide, haccounts⟩
    intro hsome
    obtain ⟨ptr, hsame, hne⟩ := hsome
    rw [hanswer] at hsame
    exact absurd ((Option.some.inj hsame).symm.trans hptr) hne
  · have hkey : h.answerNow os.toSbrk n >>> PAGE_SHIFT < 2 ^ 35 := by
      have hlimit := (os.address _ _ _ _ hreply).1
      rw [PageCache.shift_page]
      omega
    have hmissing : ¬ d.mem.map.HasLeaf (h.answerNow os.toSbrk n >>> PAGE_SHIFT) := by
      rw [hmem, hmap]
      exact no_leaf_above hl.frontier hle
    exact ⟨.nullNode, set_null hkey hmissing _, fun _ => rfl,
      fun _ => ⟨_, hanswer, (os.proper _ _ _ _ hreply).2⟩, by decide, haccounts⟩

theorem takeLarge_spec (hl : Laid h us) (hn : n ≥ NPAGES) :
    Yields (fun _ _ => False) (LargeFailed os.toSbrk h n) (takeLarge os.toSbrk n h) := by
  have halloc : onMem (MapHeap.alloc os.toSbrk .span n) h =
      .ok (h.answerNow os.toSbrk n) (withPages os.toSbrk h n) := alloc_eq os.toSbrk h n
  rw [takeLarge, bind_ok halloc]
  cases hnew : New os.toSbrk (withPages os.toSbrk h n) with
  | error e h₁ =>
    rw [bind_error hnew]
    exact large_unbuilt hn hnew
  | ok b h₁ =>
    rw [bind_ok hnew]
    cases hd : build b (h.answerNow os.toSbrk n) n h₁ with
    | error e d => exact absurd hd (by simp [build])
    | ok u d =>
      obtain ⟨e, hset, hfailed⟩ := large_built hl hn hnew hd
      rw [bind_ok hd, bind_error hset]
      exact hfailed

end Large

section Keep

variable {h h' : PageHeap} {us : List Nat} {n r : Nat}

/-- The caller of `new_Span` marks the span as used, in the same critical section. -/
def mark (h : PageHeap) (r : Nat) : PageHeap :=
  { h with cache := h.cache.setSpan r { h.cache.span r with _isUse := true } }

theorem Laid.mark (hl : Laid h us) (hn : 1 ≤ n) (hlt : n < NPAGES) (hs : Served h h' n r) :
    Laid (h'.mark r) (r :: us) := by
  obtain ⟨base, hb, hcall⟩ := hs.call
  obtain ⟨r', d, hcall', hall, -⟩ := PageCache.new_Span_spec hl.sound hn hlt hb
  obtain ⟨rfl, rfl⟩ := Prod.mk.inj (Option.some.inj (hcall'.symm.trans hcall))
  have hground : Grounded (h'.mark r') := hs.extend (Extended.of_mem rfl rfl) rfl
  refine ⟨hground, hall.sound hl.sound.used rfl rfl rfl, ?_⟩
  intro x hx
  change ((h'.cache.setSpan r' _).span x).Blank
  rw [PageCache.setSpan_span]
  split_ifs with hxr
  · exact hall.blank
  · have hx' := (List.mem_cons.mp hx).resolve_left hxr
    have hspan : h'.cache.span x = h.cache.span x := hall.frame.spans x hx'
    rw [hspan]
    exact hl.blank x hx'

/-- Linking a merged span whose pages have leaves. -/
theorem link_spec (hg : h.mem.Grown) (hr : h.Leafed r) (hpos : 1 ≤ (h.cache.span r)._npage) :
    ∃ h', link r h = .ok () h' ∧ Extended h h' ∧ h'.view = h.view.link r := by
  let d : PageHeap := { h with
    cache := (h.cache.push_front (h.cache.span r)._npage r).setSpan r
      { h.cache.span r with _isUse := false } }
  have hspan : d.cache.span r = { h.cache.span r with _isUse := false } :=
    Function.update_self _ _ _
  have hfirst := hr (h.cache.span r)._pageid (Span.mem_pages.mpr ⟨le_rfl, by omega⟩)
  have hlast := hr (h.cache.span r).last (Span.mem_pages.mpr (by rw [Span.last]; omega))
  obtain ⟨h', hcall, he, -, hview⟩ := setEnds_spec (h := d) (r := r) hg
    (by rw [hspan]; exact hfirst) (by rw [hspan]; exact hlast)
  refine ⟨h', ?_, (Extended.of_mem rfl rfl : Extended h d).trans he, hview⟩
  exact (bind_ok rfl).trans ((bind_ok rfl).trans hcall)

/-- `relase_to_PageCache` of a span in use returns. -/
theorem relase_spec (hl : Laid h us) (hr : r ∈ us) : ∃ h', relase_to_PageCache r h = .ok () h' ∧
    Laid h' (us.erase r) ∧ Extended h h' := by
  have hs := hl.sound.reorder (List.perm_cons_erase hr)
  have hsize := hs.shape.sized r List.mem_cons_self
  obtain ⟨e, hmerge, hrel, hf⟩ := PageCache.merge_spec hs
  have hview : ({ h with cache := e } : PageHeap).view = e := by
    change { e with _id_span_map := h.view._id_span_map } = e
    rw [← hf.map]
  have hregions : e.regionPages = h.cache.regionPages := by
    rw [PageCache.regionPages, hf.regions]
    rfl
  have hleafed : ({ h with cache := e } : PageHeap).Leafed r := by
    intro p hp
    have hin : p ∈ h.cache.regionPages := hregions ▸ hrel.mem_region hp
    exact ⟨hl.sound.shape.bounded p hin, hl.covered p hin⟩
  have hpos := (hrel.shape.sized r List.mem_cons_self).1
  obtain ⟨h', hcall, he, hlink⟩ := link_spec (h := { h with cache := e }) hl.grown hleafed hpos
  rw [hview] at hlink
  have hblank : (e.span r).Blank :=
    ⟨hf.objlist.trans (hl.blank r hr).1, hf.usecount.trans (hl.blank r hr).2⟩
  obtain ⟨hsound, hframe⟩ := hrel.link hblank
  have he' : Extended h h' := (Extended.of_mem rfl rfl : Extended h { h with cache := e }).trans he
  have hsame : h'.cache.regions = h.cache.regions := by
    change h'.view.regions = h.view.regions
    rw [hlink, ← hf.regions]
    rfl
  refine ⟨h', ?_, ⟨hl.extend he' hsame, ?_, ?_⟩, he'⟩
  · have hsmall : ¬ (h.cache.span r)._npage ≥ NPAGES := by
      have hlt : (h.cache.span r)._npage < NPAGES := hsize.2
      omega
    rw [relase_to_PageCache, if_neg hsmall, hmerge]
    exact hcall
  · rw [hlink]
    exact hsound
  · intro x hx
    have hspan : h'.cache.span x = h.cache.span x := by
      change h'.view.span x = h.view.span x
      rw [hlink, hframe.spans x hx, hf.spans x hx]
    rw [hspan]
    exact hl.blank x (List.mem_of_mem_erase hx)

theorem laid_init {seg : Segment} (hseg : seg.blocks = []) : Laid (init seg) [] := by
  have hno : ∀ k, ¬ TCMalloc_PageMap3.init.HasLeaf k := fun k hk => hk.1 rfl
  have hview : (init seg).view = PageCache.init := by
    have hmap : (init seg).lookup = fun _ => none := by
      funext k
      have hget : (init seg).mem.map.get k = 0 := by
        rw [TCMalloc_PageMap3.get_eq]
        exact if_neg fun hx => hno k hx.2
      rw [lookup, hget]
    rw [view, hmap]
    rfl
  refine ⟨⟨MapHeap.grown_init seg, fun k hk => absurd hk (hno k), ?_, ?_, ?_, ?_⟩, ?_, by simp⟩
  · intro p hp
    exact absurd hp List.not_mem_nil
  · intro p hp
    exact absurd hp List.not_mem_nil
  · intro b hb
    change b ∈ seg.blocks at hb
    rw [hseg] at hb
    exact absurd hb List.not_mem_nil
  · intro base hb
    exact absurd hb List.not_mem_nil
  · rw [hview]
    exact PageCache.sound_init

end Keep

end PageHeap

open PageHeap

/-- The heap with the spans that the callers of the page cache have, and the fault that the
process died of. -/
structure HeapState where
  heap : PageHeap
  inUse : List Nat
  fault : Option Crash

inductive HeapOp where
  | new_Span (n : Nat)
  | relase (r : Nat)

namespace HeapState

/-- A process whose break is at `brk`. -/
def init (brk : Nat) : HeapState := ⟨PageHeap.init ⟨brk, 0, 0, []⟩, [], none⟩

/-- The state after `new_Span`. -/
def allotted (s : HeapState) : EStateM.Result Crash PageHeap Nat → HeapState
  | .ok r h => ⟨h.mark r, r :: s.inUse, none⟩
  | .error e h => ⟨h, s.inUse, some e⟩

/-- The state after `relase_to_PageCache(r)`. -/
def returned (s : HeapState) (r : Nat) : EStateM.Result Crash PageHeap Unit → HeapState
  | .ok _ h => ⟨h, s.inUse.erase r, none⟩
  | .error e h => ⟨h, s.inUse, some e⟩

variable (os : UserSbrk)

/-- A request for any number of pages, or a release of a span in use. -/
def step (s : HeapState) : HeapOp → Option HeapState
  | .new_Span n =>
    if s.fault = none ∧ 1 ≤ n ∧ n < 2 ^ 64 then
      some (s.allotted (PageHeap.new_Span os.toSbrk 2 n s.heap))
    else none
  | .relase r =>
    if s.fault = none ∧ r ∈ s.inUse then some (s.returned r (PageHeap.relase_to_PageCache r s.heap))
    else none

end HeapState

end Mymuduo.Memory
