import Mymuduo.Memory.PoolInv

namespace Mymuduo.Memory

open Lib PageCache

/-- Two states of a span with the same pages and the same size class. -/
structure Span.SameExtent (x y : Span) : Prop where
  pageid : x._pageid = y._pageid
  npage : x._npage = y._npage
  objsize : x._objsize = y._objsize

theorem Span.SameExtent.blocks {x y : Span} (h : x.SameExtent y) : x.blocks = y.blocks := by
  simp only [Span.blocks, h.pageid, h.npage, h.objsize]

theorem ThreadCache.mem_blocks {c : ThreadCache} {i b : Nat} (hi : i < NFREELIST)
    (hb : b ∈ (c._freelist i).chain) : b ∈ c.blocks :=
  List.mem_append_left _ (List.mem_flatMap.mpr ⟨i, List.mem_range.mpr hi, hb⟩)

namespace Pool

variable {T : Type}

/-- A block's size class, if some span has it as a block. -/
def InClass (s : Pool T) (b i : Nat) : Prop :=
  ∀ r ∈ s.carved, b ∈ s.own r → index (s.cache.span r)._objsize = i

theorem InClass.congr {s s' : Pool T} {b i : Nat} (h : s.InClass b i)
    (hcarved : ∀ r ∈ s'.carved, r ∈ s.carved)
    (hext : ∀ r ∈ s.carved, (s'.cache.span r).SameExtent (s.cache.span r)) : s'.InClass b i := by
  intro r hr hb
  have hr' := hcarved r hr
  rw [(hext r hr').objsize]
  apply h r hr'
  unfold own at hb ⊢
  rwa [← (hext r hr').blocks]

theorem objlist_setSpan (s : Pool T) (r : Nat) (x : Span) :
    (s.setSpan r x).objlist = Function.update s.objlist r x._objlist := by
  funext y
  by_cases hy : y = r
  · subst hy
    simp [objlist, setSpan, PageCache.setSpan]
  · simp [objlist, setSpan, PageCache.setSpan, hy]

/-- The chains of the other spans. -/
theorem flatMap_objlist_setSpan (s : Pool T) {r : Nat} {l : List Nat} (hr : r ∉ l) (x : Span) :
    l.flatMap (s.setSpan r x).objlist = l.flatMap s.objlist := by
  apply List.flatMap_congr
  intro y hy
  have hne : y ≠ r := fun he => hr (he ▸ hy)
  rw [objlist_setSpan, Function.update_of_ne hne]

theorem setSpan_extent (s : Pool T) {r : Nat} {x : Span} (hext : x.SameExtent (s.cache.span r))
    (y : Nat) : ((s.setSpan r x).cache.span y).SameExtent (s.cache.span y) := by
  by_cases hy : y = r
  · subst hy
    simpa [setSpan, PageCache.setSpan] using hext
  · simp only [setSpan, PageCache.setSpan, Function.update_of_ne hy]
    exact ⟨rfl, rfl, rfl⟩

theorem own_setSpan (s : Pool T) {r : Nat} {x : Span} (hext : x.SameExtent (s.cache.span r)) :
    (s.setSpan r x).own = s.own := by
  funext y
  exact (s.setSpan_extent hext y).blocks

variable [Fintype T]

theorem count_thread_le (s : Pool T) (t : T) (b : Nat) : (s.thread t).blocks.count b ≤ s.places b := by
  have hle := le_sum (fun t => (s.thread t).blocks.count b) t
  unfold places
  omega

variable [DecidableEq T]

/-- One thread `t` steps, and becomes `c`. The fields say what the step may do to what the
invariant talks about: spans in use keep their extent, and only spans in buckets, or in
the hands of `t`, change otherwise; spans and blocks are only moved. -/
structure Change (s s' : Pool T) (t : T) (c : ThreadCache) : Prop where
  thread : s'.thread = Function.update s.thread t c
  extent : ∀ r ∈ s.inUse, (s'.cache.span r).SameExtent (s.cache.span r)
  same : ∀ r ∈ s.inUse, (∀ i, r ∉ s._spanlist i) → r ∉ (s.thread t).place.bare →
    s'.cache.span r = s.cache.span r
  spans : ∀ r, s'.inUse.count r + s.carved.count r + (s.thread t).place.bare.count r =
    s.inUse.count r + s'.carved.count r + c.place.bare.count r
  lists : ∀ r, ((List.range NFREELIST).flatMap s'._spanlist).count r + s.carved.count r +
      c.place.unlinked.count r =
    ((List.range NFREELIST).flatMap s._spanlist).count r + s'.carved.count r +
      (s.thread t).place.unlinked.count r
  blocks : ∀ b, s'.held.count b + c.blocks.count b + (s'.carved.flatMap s'.objlist).count b +
      (s.carved.flatMap s.own).count b =
    s.held.count b + (s.thread t).blocks.count b + (s.carved.flatMap s.objlist).count b +
      (s'.carved.flatMap s'.own).count b
  carved : ∀ r ∈ s'.carved, r ∈ s.carved ∨ r ∈ (s.thread t).place.bare
  filled : ∀ r ∈ s'.carved, Filled (s'.cache.span r)
  blank : ∀ r ∈ c.place.bare, (s'.cache.span r).Blank
  full : ∀ r ∈ c.place.unlinked, (s'.cache.span r)._usecount = 0
  place : c.place.Consistent s'.cache.span
  listed : ∀ i r, r ∈ s'._spanlist i → i < NFREELIST ∧ index (s'.cache.span r)._objsize = i
  free : ∀ i, ∀ b ∈ (c._freelist i).chain, i < NFREELIST ∧ s'.InClass b i
  moving : ∀ b ∈ c.place.chain, s'.InClass b c.place.bucket

namespace Inv

variable {s : Pool T}

omit [DecidableEq T] in
/-- Two threads have no span in common. -/
theorem bare_disjoint (h : Inv s) {t u : T} (hne : u ≠ t) {r : Nat}
    (hu : r ∈ (s.thread u).place.bare) : r ∉ (s.thread t).place.bare := by
  intro ht
  have h1 := h.core.spans r
  have h2 := List.nodup_iff_count_le_one.mp h.nodup_inUse r
  have h3 := List.count_pos_iff.mpr hu
  have h4 := List.count_pos_iff.mpr ht
  have h5 : (s.thread u).place.bare.count r + (s.thread t).place.bare.count r ≤
      ∑ t, (s.thread t).place.bare.count r :=
    add_le_sum (fun t => (s.thread t).place.bare.count r) hne
  omega

omit [DecidableEq T] in
/-- Blocks that a thread has stay in their class when spans get blocks. -/
theorem inClass_grow (h : Inv s) (s' : Pool T) {t u : T}
    (hext : ∀ r ∈ s.inUse, (s'.cache.span r).SameExtent (s.cache.span r))
    (hcarved : ∀ r ∈ s'.carved, r ∈ s.carved ∨ r ∈ (s.thread t).place.bare)
    {b i : Nat} (hb : b ∈ (s.thread u).blocks) (hi : s.InClass b i) : s'.InClass b i := by
  intro r hr hbr
  have huse : r ∈ s.inUse :=
    (hcarved r hr).elim (fun hr => h.core.carved_inUse hr) fun hr => h.core.bare_inUse hr
  have hbr' : b ∈ s.own r := by
    unfold own at hbr ⊢
    rwa [← (hext r huse).blocks]
  rw [(hext r huse).objsize]
  rcases hcarved r hr with hr | hr
  · exact hi r hr hbr'
  · have hpos : 0 < s.places b :=
      lt_of_lt_of_le (List.count_pos_iff.mpr hb) (s.count_thread_le u b)
    obtain ⟨x, hx, hbx⟩ := h.owner hpos
    obtain rfl := h.own_unique huse (h.core.carved_inUse hx) hbr' hbx
    exact absurd hx (h.bare_not_carved hr)

/-- The invariant survives a step of one thread. -/
theorem core_change (h : Inv s) {s' : Pool T} {t : T} {c : ThreadCache} (hc : Change s s' t c) :
    Core s' := by
  have hself : s'.thread t = c := by rw [hc.thread, Function.update_self]
  have hother (u : T) (hu : u ≠ t) : s'.thread u = s.thread u := by
    rw [hc.thread, Function.update_of_ne hu]
  exact {
    spans := by
      intro r
      have h1 := h.core.spans r
      have h2 := hc.spans r
      have h3 := sum_update (fun c : ThreadCache => c.place.bare.count r) s.thread t c
      simp only [hc.thread]
      omega
    lists := by
      intro r
      have h1 := h.core.lists r
      have h2 := hc.lists r
      have h3 := sum_update (fun c : ThreadCache => c.place.unlinked.count r) s.thread t c
      simp only [hc.thread]
      omega
    blocks := by
      intro b
      have h1 := h.core.blocks b
      have h2 := hc.blocks b
      have h3 := sum_update (fun c : ThreadCache => c.blocks.count b) s.thread t c
      unfold places at h1 ⊢
      simp only [hc.thread]
      omega
    filled := hc.filled
    blank := by
      intro u r hr
      by_cases hu : u = t
      · subst hu
        rw [hself] at hr
        exact hc.blank r hr
      · rw [hother u hu] at hr
        have hnl (i : Nat) : r ∉ s._spanlist i :=
          fun hl => h.bare_not_carved hr (h.core.listed_carved hl)
        rw [hc.same r (h.core.bare_inUse hr) hnl (h.bare_disjoint hu hr)]
        exact h.core.blank u r hr
    full := by
      intro u r hr
      by_cases hu : u = t
      · subst hu
        rw [hself] at hr
        exact hc.full r hr
      · rw [hother u hu] at hr
        have hcarved := h.core.unlinked_carved hr
        rw [hc.same r (h.core.carved_inUse hcarved) (h.unlinked_not_listed hr)
          fun hb => h.bare_not_carved hb hcarved]
        exact h.core.full u r hr
    place := by
      intro u
      by_cases hu : u = t
      · subst hu
        rw [hself]
        exact hc.place
      · rw [hother u hu]
        exact h.core.consistent_congr fun r hr => (hc.extent r hr).objsize
    listed := hc.listed
    bins := by
      intro u i b hb
      by_cases hu : u = t
      · subst hu
        rw [hself] at hb
        exact (hc.free i b hb).1
      · rw [hother u hu] at hb
        exact h.core.bins u i b hb
    free := by
      intro u i b r hb
      by_cases hu : u = t
      · subst hu
        rw [hself] at hb
        exact (hc.free i b hb).2 r
      · rw [hother u hu] at hb
        have hmem := ThreadCache.mem_blocks (h.core.bins u i b hb) hb
        exact h.inClass_grow s' hc.extent hc.carved hmem (fun r => h.core.free u i b r hb) r
    moving := by
      intro u b r hb
      by_cases hu : u = t
      · subst hu
        rw [hself] at hb ⊢
        exact hc.moving b hb r
      · rw [hother u hu] at hb ⊢
        have hmem : b ∈ (s.thread u).blocks := List.mem_append_right _ hb
        exact h.inClass_grow s' hc.extent hc.carved hmem (fun r => h.core.moving u b r hb) r }

omit [DecidableEq T] in
/-- What a thread knows, told by its place. -/
theorem consistent (h : Inv s) {t : T} {p : Place} (hp : (s.thread t).place = p) :
    p.Consistent s.cache.span := by
  rw [← hp]
  exact h.core.place t

omit [DecidableEq T] in
/-- Spans stay in the bucket of their class. -/
theorem listed_extent (h : Inv s) {span : Nat → Span} {i r : Nat} (hr : r ∈ s._spanlist i)
    (hext : (span r).SameExtent (s.cache.span r)) :
    i < NFREELIST ∧ index (span r)._objsize = i := by
  rw [hext.objsize]
  exact h.core.listed i r hr

/-- Blocks move between the users and a thread. -/
theorem move (h : Inv s) (held : List Nat) {t : T} {i : Nat} {l : FreeList} {p : Place}
    (hi : i < NFREELIST)
    (hcount : ∀ b, held.count b + l.chain.count b + p.chain.count b =
      s.held.count b + ((s.thread t)._freelist i).chain.count b + (s.thread t).place.chain.count b)
    (hbare : p.bare = (s.thread t).place.bare) (hunl : p.unlinked = (s.thread t).place.unlinked)
    (hp : p.Consistent s.cache.span) (hl : ∀ b ∈ l.chain, s.InClass b i)
    (hm : ∀ b ∈ p.chain, s.InClass b p.bucket) :
    Inv { s.setThread t ⟨Function.update (s.thread t)._freelist i l, p⟩ with held := held } := by
  have hchange : Change s
      { s.setThread t ⟨Function.update (s.thread t)._freelist i l, p⟩ with held := held } t
      ⟨Function.update (s.thread t)._freelist i l, p⟩ := {
    thread := rfl
    extent := fun r _ => ⟨rfl, rfl, rfl⟩
    same := fun r _ _ _ => rfl
    spans := by
      intro r
      simp only [hbare]
      rfl
    lists := by
      intro r
      simp only [hunl]
      rfl
    blocks := by
      intro b
      have h1 := hcount b
      have h2 := (s.thread t).count_blocks_update hi l p b
      change held.count b + _ + (s.carved.flatMap s.objlist).count b + _ =
        _ + (s.carved.flatMap s.own).count b
      omega
    carved := fun r hr => Or.inl hr
    filled := h.core.filled
    blank := by
      intro r hr
      simp only [hbare] at hr
      exact h.core.blank t r hr
    full := by
      intro r hr
      simp only [hunl] at hr
      exact h.core.full t r hr
    place := hp
    listed := h.core.listed
    free := by
      intro j b hb
      by_cases hj : j = i
      · subst hj
        simp only [Function.update_self] at hb
        exact ⟨hi, hl b hb⟩
      · simp only [Function.update_of_ne hj] at hb
        exact ⟨h.core.bins t j b hb, fun r => h.core.free t j b r hb⟩
    moving := hm }
  exact ⟨h.sound, h.core_change hchange⟩

/-- Blocks move between a span of a bucket and a thread. -/
theorem exchange (h : Inv s) {t : T} {i r : Nat} {x : Span} {p : Place}
    (hr : r ∈ s._spanlist i) (hext : x.SameExtent (s.cache.span r)) (huse : x._isUse = true)
    (hx : Filled x)
    (hcount : ∀ b, x._objlist.count b + p.chain.count b =
      (s.objlist r).count b + (s.thread t).place.chain.count b)
    (hbare : p.bare = []) (hbare' : (s.thread t).place.bare = [])
    (hunl : p.unlinked = []) (hunl' : (s.thread t).place.unlinked = [])
    (hp : p.Consistent (s.setSpan r x).cache.span)
    (hm : ∀ b ∈ p.chain, s.InClass b p.bucket) : Inv ((s.setSpan r x).setPlace t p) := by
  have hrc : r ∈ s.carved := h.core.listed_carved hr
  have hall := s.setSpan_extent hext
  have hclass {b i : Nat} (hb : s.InClass b i) : ((s.setSpan r x).setPlace t p).InClass b i :=
    hb.congr (fun _ hy => hy) fun y _ => hall y
  have hspan (y : Nat) (hy : y ≠ r) : (s.setSpan r x).cache.span y = s.cache.span y :=
    (setSpan_span y).trans (if_neg hy)
  have hchange : Change s ((s.setSpan r x).setPlace t p) t ⟨(s.thread t)._freelist, p⟩ := {
    thread := rfl
    extent := fun y _ => hall y
    same := fun y _ hy _ => hspan y fun he => hy i (he ▸ hr)
    spans := by
      intro y
      simp only [hbare, hbare']
      rfl
    lists := by
      intro y
      simp only [hunl, hunl']
      rfl
    blocks := by
      intro b
      have h1 := hcount b
      have h2 := count_flatMap_update s.objlist r x._objlist h.nodup_carved hrc b
      have h3 := (s.thread t).count_blocks_place p b
      change s.held.count b + (ThreadCache.blocks _).count b +
          (s.carved.flatMap (s.setSpan r x).objlist).count b + (s.carved.flatMap s.own).count b =
        s.held.count b + (ThreadCache.blocks _).count b + (s.carved.flatMap s.objlist).count b +
          (s.carved.flatMap (s.setSpan r x).own).count b
      rw [objlist_setSpan, own_setSpan s hext]
      omega
    carved := fun y hy => Or.inl hy
    filled := by
      intro y hy
      change Filled ((s.setSpan r x).cache.span y)
      by_cases hyr : y = r
      · rw [hyr]
        simpa [setSpan, PageCache.setSpan] using hx
      · rw [hspan y hyr]
        exact h.core.filled y hy
    blank := by simp [hbare]
    full := by simp [hunl]
    place := hp
    listed := fun j y hy => h.listed_extent hy (hall y)
    free := fun j b hb => ⟨h.core.bins t j b hb, hclass fun y => h.core.free t j b y hb⟩
    moving := fun b hb => hclass (hm b hb) }
  exact ⟨h.sound.touch (h.core.carved_inUse hrc) hext.pageid hext.npage huse,
    h.core_change hchange⟩

/-- A thread gets a span without blocks. -/
theorem acquire (h : Inv s) {t : T} {cache : PageCache} {size num r : Nat}
    (hsound : Sound cache (r :: s.inUse))
    (hspan : ∀ x ∈ s.inUse, cache.span x = s.cache.span x) (hblank : (cache.span r).Blank)
    (hv : ValidSize size) (hsize : (cache.span r)._objsize = size)
    (hplace : (s.thread t).place = .needSpan size num) :
    Inv ({ s with cache := cache, inUse := r :: s.inUse }.setPlace t (.carving size num r)) := by
  have hcarved : ∀ x ∈ s.carved, cache.span x = s.cache.span x :=
    fun x hx => hspan x (h.core.carved_inUse hx)
  have hext : ∀ x ∈ s.inUse, (cache.span x).SameExtent (s.cache.span x) := by
    intro x hx
    rw [hspan x hx]
    exact ⟨rfl, rfl, rfl⟩
  have hobj : s.carved.flatMap (objlist { s with cache := cache }) =
      s.carved.flatMap s.objlist := by
    apply List.flatMap_congr
    intro x hx
    simp only [objlist, hcarved x hx]
  have hown : s.carved.flatMap (own { s with cache := cache }) = s.carved.flatMap s.own := by
    apply List.flatMap_congr
    intro x hx
    simp only [own, hcarved x hx]
  have hchange : Change s
      ({ s with cache := cache, inUse := r :: s.inUse }.setPlace t (.carving size num r)) t
      ⟨(s.thread t)._freelist, .carving size num r⟩ := {
    thread := rfl
    extent := hext
    same := fun x hx _ _ => hspan x hx
    spans := by
      intro x
      change (r :: s.inUse).count x + s.carved.count x + (s.thread t).place.bare.count x =
        s.inUse.count x + s.carved.count x + [r].count x
      simp only [hplace, Place.bare, List.count_cons, List.count_nil]
      omega
    lists := by
      intro x
      simp only [hplace, Place.unlinked]
      rfl
    blocks := by
      intro b
      have h1 := (s.thread t).count_blocks_place (.carving size num r) b
      simp only [hplace, Place.chain, List.count_nil] at h1
      change s.held.count b + (ThreadCache.blocks _).count b +
          (s.carved.flatMap (objlist { s with cache := cache })).count b + _ =
        s.held.count b + (s.thread t).blocks.count b + _ +
          (s.carved.flatMap (own { s with cache := cache })).count b
      rw [hobj, hown]
      omega
    carved := fun x hx => Or.inl hx
    filled := by
      intro x hx
      change Filled (cache.span x)
      rw [hcarved x hx]
      exact h.core.filled x hx
    blank := by
      intro x hx
      obtain rfl : x = r := by simpa [Place.bare] using hx
      exact hblank
    full := by simp [Place.unlinked]
    place := ⟨hv, hsize⟩
    listed := fun j x hx =>
      h.listed_extent hx (hext x (h.core.carved_inUse (h.core.listed_carved hx)))
    free := by
      intro j b hb
      have hclass : s.InClass b j := fun x => h.core.free t j b x hb
      exact ⟨h.core.bins t j b hb,
        hclass.congr (fun _ hx => hx) fun x hx => hext x (h.core.carved_inUse hx)⟩
    moving := by simp [Place.chain] }
  exact ⟨hsound, h.core_change hchange⟩

/-- The span is filled with its blocks. -/
theorem fill (h : Inv s) {t : T} {size num r : Nat}
    (hplace : (s.thread t).place = .carving size num r) : Inv (s.carve t size num r) := by
  have hbare : r ∈ (s.thread t).place.bare := by simp [hplace, Place.bare]
  have hnot : r ∉ s.carved := h.bare_not_carved hbare
  have huse : r ∈ s.inUse := h.core.bare_inUse hbare
  obtain ⟨hv, hsize⟩ := h.consistent hplace
  have hblank := h.core.blank t r hbare
  set x : Span := { s.cache.span r with _objlist := (s.cache.span r).blocks } with hx
  have hext : x.SameExtent (s.cache.span r) := ⟨rfl, rfl, rfl⟩
  have hall := s.setSpan_extent hext
  have hspan (y : Nat) : (s.setSpan r x).cache.span y = if y = r then x else s.cache.span y :=
    setSpan_span y
  have hcarved : ∀ y ∈ r :: s.carved, y ∈ s.carved ∨ y ∈ (s.thread t).place.bare := by
    intro y hy
    rcases List.mem_cons.mp hy with rfl | hy
    · exact Or.inr hbare
    · exact Or.inl hy
  have hfull : Filled x := by
    refine ⟨fun b hb => hb, ?_, ?_⟩
    · change (s.cache.span r)._usecount + (s.cache.span r).blocks.length = _
      rw [hblank.2, Nat.zero_add]
      rfl
    · change ValidSize (s.cache.span r)._objsize
      rw [hsize]
      exact hv
  have hobj := s.flatMap_objlist_setSpan hnot x
  have hself : (s.setSpan r x).objlist r = s.own r := by
    rw [objlist_setSpan, Function.update_self]
    rfl
  have hchange : Change s (s.carve t size num r) t
      ⟨(s.thread t)._freelist, .linking size num r⟩ := {
    thread := rfl
    extent := fun y _ => hall y
    same := by
      intro y _ _ hy
      refine (hspan y).trans (if_neg ?_)
      intro he
      exact hy (he ▸ hbare)
    spans := by
      intro y
      change s.inUse.count y + s.carved.count y + (s.thread t).place.bare.count y =
        s.inUse.count y + (r :: s.carved).count y + 0
      simp only [hplace, Place.bare, List.count_cons, List.count_nil]
      omega
    lists := by
      intro y
      change ((List.range NFREELIST).flatMap s._spanlist).count y + s.carved.count y +
          [r].count y =
        _ + (r :: s.carved).count y + (s.thread t).place.unlinked.count y
      simp only [hplace, Place.unlinked, List.count_cons, List.count_nil]
      omega
    blocks := by
      intro b
      have h1 := (s.thread t).count_blocks_place (.linking size num r) b
      simp only [hplace, Place.chain, List.count_nil] at h1
      change s.held.count b + (ThreadCache.blocks _).count b +
          ((r :: s.carved).flatMap (s.setSpan r x).objlist).count b + _ =
        s.held.count b + (s.thread t).blocks.count b + _ +
          ((r :: s.carved).flatMap (s.setSpan r x).own).count b
      rw [List.flatMap_cons, List.flatMap_cons, hobj, hself, own_setSpan s hext, List.count_append,
        List.count_append]
      omega
    carved := hcarved
    filled := by
      intro y hy
      change Filled ((s.setSpan r x).cache.span y)
      rw [hspan]
      split_ifs with hyr
      · exact hfull
      · exact h.core.filled y ((List.mem_cons.mp hy).resolve_left hyr)
    blank := by simp [Place.bare]
    full := by
      intro y hy
      obtain rfl : y = r := by simpa [Place.unlinked] using hy
      change ((s.setSpan y x).cache.span y)._usecount = 0
      rw [hspan, if_pos rfl]
      exact hblank.2
    place := by
      refine ⟨hv, ?_⟩
      change ((s.setSpan r x).cache.span r)._objsize = size
      rw [(hall r).objsize]
      exact hsize
    listed := fun j y hy => h.listed_extent hy (hall y)
    free := by
      intro j b hb
      have hbin := h.core.bins t j b hb
      exact ⟨hbin, h.inClass_grow (s.carve t size num r) (fun y _ => hall y) hcarved
        (ThreadCache.mem_blocks hbin hb) fun y => h.core.free t j b y hb⟩
    moving := by simp [Place.chain] }
  exact ⟨h.sound.touch huse rfl rfl (h.sound.used r huse), h.core_change hchange⟩

/-- The span goes into its bucket. -/
theorem link (h : Inv s) {t : T} {size num r : Nat}
    (hplace : (s.thread t).place = .linking size num r) :
    Inv ({ s with
      _spanlist := Function.update s._spanlist (index size) (r :: s._spanlist (index size))
      }.setPlace t (.fetching size num)) := by
  obtain ⟨hv, hsize⟩ := h.consistent hplace
  have hi : index size < NFREELIST := index_lt hv.1 hv.2
  have hchange : Change s ({ s with
      _spanlist := Function.update s._spanlist (index size) (r :: s._spanlist (index size))
      }.setPlace t (.fetching size num)) t ⟨(s.thread t)._freelist, .fetching size num⟩ := {
    thread := rfl
    extent := fun y _ => ⟨rfl, rfl, rfl⟩
    same := fun y _ _ _ => rfl
    spans := by
      intro y
      simp only [hplace, Place.bare]
      rfl
    lists := by
      intro y
      have h1 := count_flatMap_update s._spanlist (index size) (r :: s._spanlist (index size))
        List.nodup_range (List.mem_range.mpr hi) y
      change ((List.range NFREELIST).flatMap (Function.update s._spanlist (index size) _)).count y +
          s.carved.count y + 0 =
        _ + s.carved.count y + (s.thread t).place.unlinked.count y
      simp only [hplace, Place.unlinked, List.count_cons, List.count_nil] at h1 ⊢
      omega
    blocks := by
      intro b
      have h1 := (s.thread t).count_blocks_place (.fetching size num) b
      simp only [hplace, Place.chain, List.count_nil] at h1
      change s.held.count b + (ThreadCache.blocks _).count b +
          (s.carved.flatMap s.objlist).count b + _ =
        _ + (s.carved.flatMap s.own).count b
      omega
    carved := fun y hy => Or.inl hy
    filled := h.core.filled
    blank := by simp [Place.bare]
    full := by simp [Place.unlinked]
    place := hv
    listed := by
      intro j y hy
      by_cases hj : j = index size
      · subst hj
        simp only [setPlace, setThread, Function.update_self, List.mem_cons] at hy
        rcases hy with rfl | hy
        · refine ⟨hi, ?_⟩
          change index (s.cache.span y)._objsize = _
          rw [hsize]
        · exact h.core.listed _ y hy
      · simp only [setPlace, setThread, Function.update_of_ne hj] at hy
        exact h.core.listed j y hy
    free := fun j b hb => ⟨h.core.bins t j b hb, fun y => h.core.free t j b y hb⟩
    moving := by simp [Place.chain] }
  exact ⟨h.sound, h.core_change hchange⟩

omit [DecidableEq T] in
/-- A span that counts no blocks has them all on its chain. -/
theorem objlist_perm_own (h : Inv s) {r : Nat} (hr : r ∈ s.carved)
    (hcount : (s.cache.span r)._usecount = 0) : (s.objlist r).Perm (s.own r) := by
  have hfill := h.core.filled r hr
  have hlen := hfill.counted
  rw [hcount, Nat.zero_add] at hlen
  exact (List.subperm_of_subset (h.nodup_objlist hr) hfill.chained).perm_of_length_le hlen.ge

/-- A span all of whose blocks are back loses them and leaves its bucket. -/
theorem drop (h : Inv s) {t : T} {size r : Nat} {rest : List Nat}
    (hplace : (s.thread t).place = .releasing size rest) (hr : r ∈ s._spanlist (index size))
    (hcount : (s.cache.span r)._usecount = 0) : Inv (s.retire t size r rest) := by
  have hrc : r ∈ s.carved := h.core.listed_carved hr
  have huse : r ∈ s.inUse := h.core.carved_inUse hrc
  have hi := (h.core.listed _ r hr).1
  have hv : ValidSize size := h.consistent hplace
  set x : Span := { s.cache.span r with _objlist := [] } with hx
  have hext : x.SameExtent (s.cache.span r) := ⟨rfl, rfl, rfl⟩
  have hall := s.setSpan_extent hext
  have hspan (y : Nat) : (s.setSpan r x).cache.span y = if y = r then x else s.cache.span y :=
    setSpan_span y
  have hsub : ∀ y ∈ s.carved.erase r, y ∈ s.carved := fun y hy => List.mem_of_mem_erase hy
  have hnot : r ∉ s.carved.erase r := List.Nodup.not_mem_erase h.nodup_carved
  have hne : ∀ y ∈ s.carved.erase r, y ≠ r := fun y hy he => hnot (he ▸ hy)
  have hclass {b i : Nat} (hb : s.InClass b i) : (s.retire t size r rest).InClass b i :=
    hb.congr hsub fun y _ => hall y
  have hobj := s.flatMap_objlist_setSpan hnot x
  have hchange : Change s (s.retire t size r rest) t
      ⟨(s.thread t)._freelist, .returning size r rest⟩ := {
    thread := rfl
    extent := fun y _ => hall y
    same := by
      intro y _ hy _
      refine (hspan y).trans (if_neg ?_)
      intro he
      exact hy _ (he ▸ hr)
    spans := by
      intro y
      have h1 := (List.perm_cons_erase hrc).count_eq y
      change s.inUse.count y + s.carved.count y + (s.thread t).place.bare.count y =
        s.inUse.count y + (s.carved.erase r).count y + [r].count y
      simp only [hplace, Place.bare, List.count_cons, List.count_nil] at h1 ⊢
      omega
    lists := by
      intro y
      have h1 := count_flatMap_update s._spanlist (index size)
        ((s._spanlist (index size)).erase r) List.nodup_range (List.mem_range.mpr hi) y
      have h2 := (List.perm_cons_erase hr).count_eq y
      have h3 := (List.perm_cons_erase hrc).count_eq y
      change ((List.range NFREELIST).flatMap (Function.update s._spanlist (index size) _)).count y +
          s.carved.count y + 0 =
        _ + (s.carved.erase r).count y + (s.thread t).place.unlinked.count y
      simp only [hplace, Place.unlinked, List.count_cons, List.count_nil] at h2 h3 ⊢
      omega
    blocks := by
      intro b
      have h1 := (s.thread t).count_blocks_place (.returning size r rest) b
      have h2 := ((List.perm_cons_erase hrc).flatMap_right s.objlist).count_eq b
      have h3 := ((List.perm_cons_erase hrc).flatMap_right s.own).count_eq b
      have h4 := (h.objlist_perm_own hrc hcount).count_eq b
      rw [List.flatMap_cons, List.count_append] at h2 h3
      simp only [hplace, Place.chain] at h1
      change s.held.count b + (ThreadCache.blocks _).count b +
          ((s.carved.erase r).flatMap (s.setSpan r x).objlist).count b + _ =
        s.held.count b + (s.thread t).blocks.count b + _ +
          ((s.carved.erase r).flatMap (s.setSpan r x).own).count b
      rw [hobj, own_setSpan s hext]
      omega
    carved := fun y hy => Or.inl (hsub y hy)
    filled := by
      intro y hy
      change Filled ((s.setSpan r x).cache.span y)
      rw [hspan, if_neg (hne y hy)]
      exact h.core.filled y (hsub y hy)
    blank := by
      intro y hy
      obtain rfl : y = r := by simpa [Place.bare] using hy
      change ((s.setSpan y x).cache.span y).Blank
      rw [hspan, if_pos rfl]
      exact ⟨rfl, hcount⟩
    full := by simp [Place.unlinked]
    place := hv
    listed := by
      intro j y hy
      refine h.listed_extent ?_ (hall y)
      by_cases hj : j = index size
      · subst hj
        simp only [retire, setPlace, setThread, Function.update_self] at hy
        exact List.mem_of_mem_erase hy
      · simpa only [retire, setPlace, setThread, Function.update_of_ne hj] using hy
    free := fun j b hb => ⟨h.core.bins t j b hb, hclass fun y => h.core.free t j b y hb⟩
    moving := by
      intro b hb
      apply hclass
      intro y
      have hm := h.core.moving t b y
      rw [hplace] at hm
      exact hm hb }
  exact ⟨h.sound.touch huse rfl rfl (h.sound.used r huse), h.core_change hchange⟩

omit [DecidableEq T] in
theorem relase_inUse (h : Inv s) {t : T} {r : Nat} (hbare : r ∈ (s.thread t).place.bare) :
    ∃ d, s.cache.relase_to_PageCache r = some d ∧ Sound d (s.inUse.erase r) ∧
      Frame s.cache d (s.inUse.erase r) := by
  have hp := List.perm_cons_erase (h.core.bare_inUse hbare)
  have hs : Sound s.cache (r :: s.inUse.erase r) :=
    ⟨h.sound.shape.reorder hp, h.sound.mapped.subset (fun x hx => hp.symm.subset hx) fun x hx => hx,
      fun x hx => h.sound.used x (hp.symm.subset hx)⟩
  obtain ⟨d, heq, hd, hf, -⟩ := relase_spec hs (h.core.blank t r hbare)
  exact ⟨d, heq, hd, hf⟩

/-- A span without blocks goes back to the page cache. -/
theorem giveBack (h : Inv s) {t : T} {size r : Nat} {rest : List Nat}
    (hplace : (s.thread t).place = .returning size r rest) :
    ∃ s', s.returnSpan t size r rest = some s' ∧ Inv s' := by
  have hbare : r ∈ (s.thread t).place.bare := by simp [hplace, Place.bare]
  have hv : ValidSize size := h.consistent hplace
  obtain ⟨d, heq, hd, hf⟩ := h.relase_inUse hbare
  have hchange : Change s ({ s with inUse := s.inUse.erase r }.setPlace t (.releasing size rest)) t
      ⟨(s.thread t)._freelist, .releasing size rest⟩ := {
    thread := rfl
    extent := fun y _ => ⟨rfl, rfl, rfl⟩
    same := fun y _ _ _ => rfl
    spans := by
      intro y
      have h1 := (List.perm_cons_erase (h.core.bare_inUse hbare)).count_eq y
      change (s.inUse.erase r).count y + s.carved.count y + (s.thread t).place.bare.count y =
        s.inUse.count y + s.carved.count y + 0
      simp only [hplace, Place.bare, List.count_cons, List.count_nil] at h1 ⊢
      omega
    lists := by
      intro y
      simp only [hplace, Place.unlinked]
      rfl
    blocks := by
      intro b
      have h1 := (s.thread t).count_blocks_place (.releasing size rest) b
      simp only [hplace, Place.chain] at h1
      change s.held.count b + (ThreadCache.blocks _).count b +
          (s.carved.flatMap s.objlist).count b + _ =
        _ + (s.carved.flatMap s.own).count b
      omega
    carved := fun y hy => Or.inl hy
    filled := h.core.filled
    blank := by simp [Place.bare]
    full := by simp [Place.unlinked]
    place := hv
    listed := h.core.listed
    free := fun j b hb => ⟨h.core.bins t j b hb, fun y => h.core.free t j b y hb⟩
    moving := by
      intro b hb y
      have hm := h.core.moving t b y
      rw [hplace] at hm
      exact hm hb }
  refine ⟨{ s with cache := d, inUse := s.inUse.erase r }.setPlace t (.releasing size rest), ?_,
    hd, (h.core_change hchange).recache hf.spans⟩
  simp only [returnSpan, heq, Option.map_some]

end Inv

end Pool

end Mymuduo.Memory
