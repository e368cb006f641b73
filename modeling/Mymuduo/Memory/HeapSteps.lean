import Mymuduo.Memory.PageHeap

namespace Mymuduo.Memory

open Lib

/-- A system whose addresses have 48 bits. -/
structure UserSbrk extends Sbrk where
  address : ∀ call brk increment ptr, reply call brk increment = some ptr →
    ptr < 2 ^ 48 ∧ ptr + increment ≤ 2 ^ 48

/-- A system that moves nothing itself and has memory up to the address `top`. -/
def plainSbrk (top : Nat) (htop : top ≤ 2 ^ 48) : UserSbrk where
  reply _ brk increment :=
    if 0 < brk ∧ brk < top ∧ brk + increment ≤ top then some brk else none
  raises := by
    intro call brk increment ptr h
    split_ifs at h
    exact (Option.some.inj h).le
  proper := by
    intro call brk increment ptr h
    split_ifs at h with hbrk
    obtain rfl := Option.some.inj h
    have hfailed : SBRK_FAILED = 2 ^ 64 - 1 := rfl
    omega
  address := by
    intro call brk increment ptr h
    split_ifs at h with hbrk
    obtain rfl := Option.some.inj h
    omega

namespace PageHeap

/-- What an operation leaves alone that makes no nodes and leaves: the memory has the same
leaves, and nothing is obtained for spans. -/
structure Extended (h h' : PageHeap) : Prop where
  grown : h.mem.Grown → h'.mem.Grown
  leaf : ∀ k, h'.mem.map.HasLeaf k ↔ h.mem.map.HasLeaf k
  refused : h'.mem.seg.refused = h.mem.seg.refused
  brk : h.mem.seg.brk ≤ h'.mem.seg.brk
  below : h.mem.seg.Below → h'.mem.seg.Below
  obtained : ∀ p, p ≠ .chunk → h'.mem.seg.obtained p = h.mem.seg.obtained p
  built : h'.built = h.built

namespace Extended

variable {h h' h'' : PageHeap}

theorem of_mem (hm : h'.mem = h.mem) (hb : h'.built = h.built) : Extended h h' := by
  refine ⟨?_, ?_, ?_, ?_, ?_, ?_, hb⟩
  · rw [hm]
    exact fun hg => hg
  · intro k
    rw [hm]
  · rw [hm]
  · rw [hm]
  · rw [hm]
    exact fun hb => hb
  · intro p _
    rw [hm]

theorem trans (e : Extended h h') (e' : Extended h' h'') : Extended h h'' :=
  ⟨fun hg => e'.grown (e.grown hg), fun k => (e'.leaf k).trans (e.leaf k),
    e'.refused.trans e.refused, e.brk.trans e'.brk,
    fun hb => e'.below (e.below hb), fun p hp => (e'.obtained p hp).trans (e.obtained p hp),
    e'.built.trans e.built⟩

theorem frontier (e : Extended h h') (hf : h.mem.Frontier) : h'.mem.Frontier := by
  intro k hk
  exact (hf k ((e.leaf k).mp hk)).trans e.brk

end Extended

section Entries

variable {h : PageHeap}

/-- The heap with an entry for a page. -/
def withEntry (h : PageHeap) (k r : Nat) : PageHeap :=
  { h with mem := { h.mem with map := h.mem.map.withEntry k (toPtr r) } }

theorem extended_withEntry (h : PageHeap) (k r : Nat) : Extended h (h.withEntry k r) :=
  ⟨fun hg => hg.withEntry k (toPtr r), fun _ => Iff.rfl, rfl, le_rfl, fun hb => hb,
    fun _ _ => rfl, rfl⟩

theorem view_withEntry (hg : h.mem.Grown) {k : Nat} (hk : k < 2 ^ 35)
    (hleaf : h.mem.map.HasLeaf k) (r : Nat) : (h.withEntry k r).view = h.view.set k r := by
  have hmap : (h.withEntry k r).lookup = Function.update h.lookup k (some r) := by
    funext k'
    have hget : (h.withEntry k r).mem.map.get k' = if k' = k then toPtr r else h.mem.map.get k' :=
      MapHeap.get_withEntry hg hk hleaf (toPtr r) k'
    rw [lookup, hget, Function.update_apply]
    split_ifs with he
    · rfl
    · rfl
  rw [view, hmap]
  rfl

theorem set_ok {k : Nat} (hk : k < 2 ^ 35) (hleaf : h.mem.map.HasLeaf k) (r : Nat) :
    set k r h = .ok () (h.withEntry k r) := by
  rw [set, TCMalloc_PageMap3.set_ok hk hleaf]
  rfl

theorem set_null {k : Nat} (hk : k < 2 ^ 35) (hleaf : ¬ h.mem.map.HasLeaf k) (r : Nat) :
    set k r h = .error .nullNode h := by
  rw [set, TCMalloc_PageMap3.set_null hk hleaf]

theorem set_badKey {k : Nat} (hk : 2 ^ 35 ≤ k) (r : Nat) : set k r h = .error .badKey h := by
  rw [set, TCMalloc_PageMap3.set_badKey hk]

/-- Entries for pages whose leaves exist. -/
theorem setEach_spec (hg : h.mem.Grown) (r : Nat) (ks : List Nat)
    (hks : ∀ k ∈ ks, k < 2 ^ 35 ∧ h.mem.map.HasLeaf k) :
    ∃ h', setEach r ks h = .ok () h' ∧ Extended h h' ∧ h'.cache = h.cache ∧
      h'.view = ks.foldl (fun c k => c.set k r) h.view := by
  induction ks generalizing h with
  | nil => exact ⟨h, rfl, Extended.of_mem rfl rfl, rfl, rfl⟩
  | cons k ks ih =>
    obtain ⟨hk, hleaf⟩ := hks k List.mem_cons_self
    have he := extended_withEntry h k r
    obtain ⟨h', hcall, he', hcache, hview⟩ := ih (he.grown hg) fun k' hk' =>
      hks k' (List.mem_cons_of_mem k hk')
    refine ⟨h', ?_, he.trans he', hcache, ?_⟩
    · exact (bind_ok (set_ok hk hleaf r)).trans hcall
    · rw [hview, view_withEntry hg hk hleaf]
      rfl

/-- The loops of `new_Span` that set entries read the span they set each time. -/
theorem foldl_entries {α : Type} (r : Nat) (f : Span → α → Nat) (xs : List α) (c : PageCache) :
    xs.foldl (fun c x => c.set (f (c.span r) x) r) c =
      (xs.map (f (c.span r))).foldl (fun c k => c.set k r) c := by
  induction xs generalizing c with
  | nil => rfl
  | cons x xs ih => exact ih (c.set (f (c.span r) x) r)

end Entries

section Pool

variable (os : Sbrk)

/-- What a failed operation has not done. -/
structure Quiet (h h' : PageHeap) : Prop where
  spans : h'.mem.seg.obtained .span = h.mem.seg.obtained .span
  built : h'.built = h.built

theorem Extended.quiet {h h' : PageHeap} (e : Extended h h') : Quiet h h' :=
  ⟨e.obtained .span (by decide), e.built⟩

theorem Quiet.trans {h h' h'' : PageHeap} (q : Quiet h h') (q' : Quiet h' h'') : Quiet h h'' :=
  ⟨q'.spans.trans q.spans, q'.built.trans q.built⟩

/-- How a computation fails that asks for memory, but for no span's. -/
def Wild (h : PageHeap) (e : Crash) (h' : PageHeap) : Prop := e = .wildWrite ∧ Quiet h h'

theorem newChunk_spec (h : PageHeap) :
    Yields (fun _ h' => h'.cache = h.cache ∧ h'.mem.map = h.mem.map ∧ Extended h h') (Wild h)
      (newChunk os h) := by
  have hsize := @Segment.toSigned_pages 16 (by decide)
  have hpages : chunkBytes >>> 13 = 16 := by decide
  rcases Segment.SystemAlloc_sbrk_cases os .chunk 16 h.mem.seg with ⟨-, hcall⟩ | hsome
  · have herr : newChunk os h = .error .wildWrite { h with
        remainBytes := chunkBytes, mem := { h.mem with seg := h.mem.seg.refuse } } := by
      simp [newChunk, bind, EStateM.bind, onMem, MapHeap.alloc, within, hpages, hcall, MapHeap.touch]
    rw [herr]
    exact ⟨rfl, rfl, rfl⟩
  · obtain ⟨ptr, -, hle, -, hfailed, hcall⟩ := hsome
    rw [hsize] at hcall
    have hok : newChunk os h = .ok () { h with
        remainBytes := chunkBytes
        mem := { h.mem with seg := h.mem.seg.give .chunk ptr (16 * 8192 : Nat) } } := by
      simp [newChunk, bind, EStateM.bind, onMem, MapHeap.alloc, within, hpages, hcall,
        MapHeap.touch, hfailed]
    rw [hok]
    have hbrk : h.mem.seg.brk ≤ (h.mem.seg.give .chunk ptr (16 * 8192 : Nat)).brk := by
      simp only [Segment.give]
      omega
    exact ⟨rfl, rfl, fun hg => hg.raise hbrk, fun _ => Iff.rfl, rfl, hbrk,
      fun hb => hb.give .chunk hle (16 * 8192), fun p hp => Segment.obtained_give_ne _ hp.symm _ _, rfl⟩

theorem New_spec (h : PageHeap) :
    Yields (fun b h' => b = h.cache.newRef ∧ h'.cache = h.cache.New ∧ h'.mem.map = h.mem.map ∧
      Extended h h') (Wild h) (New os h) := by
  have hneed : Yields (fun _ h' => h'.cache = h.cache ∧ h'.mem.map = h.mem.map ∧ Extended h h')
      (Wild h) (needChunk os h) := by
    rw [needChunk]
    split_ifs
    · exact newChunk_spec os h
    · exact ⟨rfl, rfl, Extended.of_mem rfl rfl⟩
  apply hneed.bind
  intro _ h' hh
  obtain ⟨hcache, hmap, he⟩ := hh
  refine ⟨?_, ?_, hmap, he.trans (Extended.of_mem rfl rfl)⟩
  · rw [hcache]
  · change h'.cache.New = h.cache.New
    rw [hcache]

theorem lookup_congr {h h' : PageHeap} (hm : h'.mem.map = h.mem.map) : h'.lookup = h.lookup := by
  funext k
  rw [lookup, lookup, hm]

/-- What `view` is of a heap whose page map has not changed. -/
theorem view_of_map {h h' : PageHeap} (hm : h'.mem.map = h.mem.map) :
    h'.view = { h'.cache with _id_span_map := h.lookup } := by
  rw [view, lookup_congr hm]

end Pool

section Take

variable {h : PageHeap} {n i r : Nat}

/-- The pages of a span have leaves. -/
def Leafed (h : PageHeap) (r : Nat) : Prop :=
  ∀ p ∈ h.cache.pages r, p < 2 ^ 35 ∧ h.mem.map.HasLeaf p

theorem takeExact_spec (hg : h.mem.Grown) (hr : h.Leafed r) :
    ∃ h', takeExact n r h = .ok r h' ∧ Extended h h' ∧ h'.view = h.view.takeExact n r := by
  let d : PageHeap := { h with cache := h.cache.erase n r }
  obtain ⟨h', hcall, he, hcache, hview⟩ := setEach_spec (h := d) hg r
    ((List.range (h.cache.span r)._npage).map fun _ => (h.cache.span r)._pageid) (by
      intro k hk
      obtain ⟨i, hi, rfl⟩ := List.mem_map.mp hk
      have := List.mem_range.mp hi
      exact hr _ (Span.mem_pages.mpr ⟨le_rfl, by omega⟩))
  refine ⟨h', ?_, (Extended.of_mem rfl rfl : Extended h d).trans he, ?_⟩
  · exact (bind_ok rfl).trans (bind_ok hcall)
  · rw [hview, PageCache.takeExact]
    exact (foldl_entries r (fun s _ => s._pageid) (List.range (h.cache.span r)._npage)
      d.view).symm

/-- Entries for both ends of a span. -/
theorem setEnds_spec (hg : h.mem.Grown) (hfirst : (h.cache.span r)._pageid < 2 ^ 35 ∧
      h.mem.map.HasLeaf (h.cache.span r)._pageid)
    (hlast : (h.cache.span r).last < 2 ^ 35 ∧ h.mem.map.HasLeaf (h.cache.span r).last) :
    ∃ h', setEnds r h = .ok () h' ∧ Extended h h' ∧ h'.cache = h.cache ∧
      h'.view = h.view.setEnds r := by
  apply setEach_spec hg r _
  intro k hk
  rcases List.mem_cons.mp hk with rfl | hk
  · exact hfirst
  · rw [List.mem_singleton.mp hk]
    exact hlast

theorem setAll_spec (hg : h.mem.Grown) (hr : h.Leafed r) :
    ∃ h', setAll r h = .ok () h' ∧ Extended h h' ∧ h'.view = h.view.setAll r := by
  obtain ⟨h', hcall, he, -, hview⟩ := setEach_spec hg r
    ((List.range (h.cache.span r)._npage).map fun i => (h.cache.span r)._pageid + i) (by
      intro k hk
      obtain ⟨i, hi, rfl⟩ := List.mem_map.mp hk
      have := List.mem_range.mp hi
      exact hr _ (Span.mem_pages.mpr ⟨by omega, by omega⟩))
  refine ⟨h', hcall, he, ?_⟩
  rw [hview, PageCache.setAll]
  exact (foldl_entries r (fun s i => s._pageid + i) (List.range (h.cache.span r)._npage)
    h.view).symm

/-- The spans that a cut leaves, before the page map knows them. -/
def cutCache (c : PageCache) (n i r : Nat) : PageCache :=
  let d := (c.New.erase i r).cutSpan n r c.newRef
  d.push_front (d.span r)._npage r

theorem cutCache_rear (c : PageCache) (hne : c.newRef ≠ r) :
    (cutCache c n i r).span r = { c.span r with
      _pageid := (c.span r)._pageid + n
      _npage := (c.span r)._npage - n } := by
  simp [cutCache, PageCache.push_front, PageCache.cutSpan, PageCache.setSpan, PageCache.erase,
    PageCache.New, hne.symm]

theorem cutCache_front (c : PageCache) (hne : c.newRef ≠ r) :
    (cutCache c n i r).pages c.newRef = List.range' (c.span r)._pageid n := by
  simp [PageCache.pages, Span.pages, cutCache, PageCache.push_front, PageCache.cutSpan,
    PageCache.setSpan, PageCache.erase, PageCache.New, hne, hne.symm]

theorem takeCut_spec (os : Sbrk) (hg : h.mem.Grown) (hr : h.Leafed r) (hne : h.cache.newRef ≠ r)
    (hn : n < (h.cache.span r)._npage) :
    Yields (fun b h' => b = h.cache.newRef ∧ Extended h h' ∧ h'.view = h.view.takeCut n i r)
      (Wild h) (takeCut os n i r h) := by
  apply (New_spec os h).bind
  intro b h₁ hb
  obtain ⟨rfl, hcache, hmap, he⟩ := hb
  let d : PageHeap := { h₁ with cache := cutCache h.cache n i r }
  have hd : Extended h d := he.trans (Extended.of_mem rfl rfl)
  have hview : d.view = { cutCache h.cache n i r with _id_span_map := h.lookup } :=
    view_of_map hmap
  have hpage : ∀ p, (h.cache.span r)._pageid ≤ p →
      p < (h.cache.span r)._pageid + (h.cache.span r)._npage →
      p < 2 ^ 35 ∧ d.mem.map.HasLeaf p := by
    intro p hge hlt
    obtain ⟨hp, hleaf⟩ := hr p (Span.mem_pages.mpr ⟨hge, hlt⟩)
    exact ⟨hp, (hd.leaf p).mpr hleaf⟩
  have hrear := cutCache_rear (n := n) (i := i) h.cache hne
  obtain ⟨h₂, hends, he₂, hcache₂, hview₂⟩ := setEnds_spec (h := d) (r := r) (hd.grown hg) (by
      change (((cutCache h.cache n i r).span r)._pageid < _ ∧ _)
      rw [hrear]
      exact hpage _ (by simp) (by simp only; omega)) (by
      change (((cutCache h.cache n i r).span r).last < _ ∧ _)
      rw [hrear]
      exact hpage _ (by simp only [Span.last]; omega) (by simp only [Span.last]; omega))
  obtain ⟨h₃, hall, he₃, hview₃⟩ := setAll_spec (h := h₂) (r := h.cache.newRef)
    (he₂.grown (hd.grown hg)) (by
      intro p hp
      rw [hcache₂] at hp
      have hp' := List.mem_range'_1.mp ((cutCache_front h.cache hne) ▸ hp)
      obtain ⟨hp, hleaf⟩ := hpage p hp'.1 (by omega)
      exact ⟨hp, (he₂.leaf p).mpr hleaf⟩)
  have hrun : (do
      change fun c => (c.erase i r).cutSpan n r h.cache.newRef
      change fun c => c.push_front (c.span r)._npage r
      setEnds r
      setAll h.cache.newRef
      return h.cache.newRef : Exec Nat) h₁ = .ok h.cache.newRef h₃ := by
    refine (bind_ok rfl).trans ((bind_ok rfl).trans ?_)
    rw [hcache]
    exact (bind_ok hends).trans (bind_ok hall)
  rw [hrun]
  refine ⟨rfl, (hd.trans he₂).trans he₃, ?_⟩
  rw [hview₃, hview₂, hview]
  rfl

end Take

section Ask

variable (os : Sbrk)

/-- What `sbrk` returns if memory for a span of `n` pages is asked for now. -/
def answerNow (h : PageHeap) (n : Nat) : Nat :=
  (h.mem.seg.sbrk os .span (toSigned ((n <<< 13) % 2 ^ 64))).1

/-- The segment after that. -/
def segmentThen (h : PageHeap) (n : Nat) : Segment :=
  (h.mem.seg.sbrk os .span (toSigned ((n <<< 13) % 2 ^ 64))).2

theorem alloc_eq (h : PageHeap) (n : Nat) : onMem (MapHeap.alloc os .span n) h =
    .ok (h.answerNow os n) { h with mem := { h.mem with seg := h.segmentThen os n } } := by
  have hcases := Segment.SystemAlloc_sbrk_cases os .span n h.mem.seg
  rw [onMem, within, MapHeap.alloc, within]
  rw [answerNow, segmentThen, Segment.sbrk]
  rcases hcases with ⟨hnone, hcall⟩ | ⟨ptr, hsome, -, -, -, hcall⟩
  · rw [hcall, hnone]
  · rw [hcall, hsome]

/-- The system refuses the memory, or gives it. -/
theorem answer_cases (h : PageHeap) (n : Nat) :
    (h.answerNow os n = SBRK_FAILED ∧ h.segmentThen os n = h.mem.seg.refuse) ∨
    (os.reply h.mem.seg.calls h.mem.seg.brk (toSigned ((n <<< 13) % 2 ^ 64)) =
        some (h.answerNow os n) ∧ h.mem.seg.brk ≤ h.answerNow os n ∧
      h.segmentThen os n =
        h.mem.seg.give .span (h.answerNow os n) (toSigned ((n <<< 13) % 2 ^ 64))) := by
  rw [answerNow, segmentThen, Segment.sbrk]
  cases hreply : os.reply h.mem.seg.calls h.mem.seg.brk (toSigned ((n <<< 13) % 2 ^ 64)) with
  | none => exact Or.inl ⟨rfl, rfl⟩
  | some ptr => exact Or.inr ⟨rfl, os.raises _ _ _ _ hreply, rfl⟩

end Ask

section Refill

/-- The heap with a span at `b` for `n` pages that were asked for. -/
def withBuilt (os : Sbrk) (h : PageHeap) (b n : Nat) : PageHeap where
  cache := h.cache.setSpan b { h.cache.span b with
    _pageid := h.answerNow os n >>> PAGE_SHIFT
    _npage := n
    _objsize := (n <<< PAGE_SHIFT) % 2 ^ 64 }
  remainBytes := h.remainBytes
  mem := { h.mem with seg := h.segmentThen os n }
  built := (h.answerNow os n >>> PAGE_SHIFT, n) :: h.built

/-- The heap after a refill, with the memory that `Ensure` leaves. -/
def withRegion (os : Sbrk) (h : PageHeap) (b : Nat) (m : MapHeap) : PageHeap :=
  let d := h.withBuilt os b (NPAGES - 1)
  { d with
    cache := { d.cache.push_front (NPAGES - 1) b with
      regions := h.answerNow os (NPAGES - 1) >>> PAGE_SHIFT :: d.cache.regions }
    mem := m }

/-- The call of `Ensure` in a refill. -/
def ensureRegion (os : Sbrk) (h : PageHeap) (b : Nat) : EStateM.Result Crash MapHeap Bool :=
  MapHeap.Ensure os (h.answerNow os (NPAGES - 1) >>> PAGE_SHIFT) ((NPAGES - 1) <<< PAGE_SHIFT)
    (h.withBuilt os b (NPAGES - 1)).mem

variable {os : Sbrk} {h h₁ : PageHeap} {b : Nat} {m : MapHeap}

theorem refill_ok (hnew : New os h = .ok b h₁) {answer : Bool}
    (he : h₁.ensureRegion os b = .ok answer m) : refill os h = .ok () (h₁.withRegion os b m) := by
  have hcall : onMem (MapHeap.Ensure os (h₁.answerNow os (NPAGES - 1) >>> PAGE_SHIFT)
      ((NPAGES - 1) <<< PAGE_SHIFT)) (h₁.withBuilt os b (NPAGES - 1)) =
      .ok answer { h₁.withBuilt os b (NPAGES - 1) with mem := m } := by
    rw [ensureRegion] at he
    rw [onMem, within, he]
  exact (bind_ok hnew).trans ((bind_ok (alloc_eq os h₁ (NPAGES - 1))).trans
    ((bind_ok rfl).trans (bind_ok hcall)))

theorem refill_error {e : Crash} (hnew : New os h = .ok b h₁)
    (he : h₁.ensureRegion os b = .error e m) :
    refill os h = .error e { h₁.withBuilt os b (NPAGES - 1) with mem := m } := by
  have hcall : onMem (MapHeap.Ensure os (h₁.answerNow os (NPAGES - 1) >>> PAGE_SHIFT)
      ((NPAGES - 1) <<< PAGE_SHIFT)) (h₁.withBuilt os b (NPAGES - 1)) =
      .error e { h₁.withBuilt os b (NPAGES - 1) with mem := m } := by
    rw [ensureRegion] at he
    rw [onMem, within, he]
  exact (bind_ok hnew).trans ((bind_ok (alloc_eq os h₁ (NPAGES - 1))).trans
    ((bind_ok rfl).trans (bind_error hcall)))

end Refill

end PageHeap

end Mymuduo.Memory
