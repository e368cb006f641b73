import Mymuduo.Memory.Pool

namespace Mymuduo.Memory

open Lib PageCache

theorem mem_carveLoop {fuel start stop size b : Nat} (h : b ∈ carveLoop fuel start stop size) :
    start ≤ b ∧ b < stop := by
  induction fuel generalizing start with
  | zero => simp [carveLoop] at h
  | succ fuel ih =>
    simp only [carveLoop] at h
    split_ifs at h with hlt
    · rcases List.mem_cons.mp h with rfl | h
      · exact ⟨le_rfl, hlt⟩
      · have := ih h
        omega
    · simp at h

theorem nodup_carveLoop (fuel start stop : Nat) {size : Nat} (hsize : 1 ≤ size) :
    (carveLoop fuel start stop size).Nodup := by
  induction fuel generalizing start with
  | zero => simp [carveLoop]
  | succ fuel ih =>
    simp only [carveLoop]
    split_ifs
    · refine List.nodup_cons.mpr ⟨?_, ih _⟩
      intro hm
      have := (mem_carveLoop hm).1
      omega
    · exact List.nodup_nil

theorem Span.nodup_blocks {s : Span} (hsize : 1 ≤ s._objsize) : s.blocks.Nodup := by
  refine List.nodup_cons.mpr ⟨?_, nodup_carveLoop _ _ _ hsize⟩
  intro hm
  have := (mem_carveLoop hm).1
  omega

/-- A block starts in a page of its span. -/
theorem Span.page_of_block {s : Span} (hpos : 1 ≤ s._npage) {b : Nat} (hb : b ∈ s.blocks) :
    b >>> PAGE_SHIFT ∈ s.pages := by
  have hrange : s._pageid * 2 ^ PAGE_SHIFT ≤ b ∧ b < (s._pageid + s._npage) * 2 ^ PAGE_SHIFT := by
    rw [Nat.add_mul]
    simp only [blocks, Nat.shiftLeft_eq] at hb
    rcases List.mem_cons.mp hb with rfl | hb
    · have : 1 * 2 ^ PAGE_SHIFT ≤ s._npage * 2 ^ PAGE_SHIFT := Nat.mul_le_mul_right _ hpos
      have : 0 < 2 ^ PAGE_SHIFT := by decide
      omega
    · have := mem_carveLoop hb
      omega
  rw [Nat.shiftRight_eq_div_pow]
  exact Span.mem_pages.mpr ⟨(Nat.le_div_iff_mul_le (by decide)).mpr hrange.1,
    (Nat.div_lt_iff_lt_mul (by decide)).mpr hrange.2⟩

theorem ThreadCache.count_blocks (c : ThreadCache) (b : Nat) : c.blocks.count b =
    ((List.range NFREELIST).flatMap fun i => (c._freelist i).chain).count b +
      c.place.chain.count b := by
  simp [ThreadCache.blocks]

/-- The blocks of a thread after one of its free lists and its place have changed. -/
theorem ThreadCache.count_blocks_update (c : ThreadCache) {i : Nat} (hi : i < NFREELIST)
    (l : FreeList) (p : Place) (b : Nat) :
    (ThreadCache.blocks ⟨Function.update c._freelist i l, p⟩).count b +
        (c._freelist i).chain.count b + c.place.chain.count b =
      c.blocks.count b + l.chain.count b + p.chain.count b := by
  have hfun : (fun j => (Function.update c._freelist i l j).chain) =
      Function.update (fun j => (c._freelist j).chain) i l.chain := by
    funext j
    by_cases hj : j = i
    · subst hj
      simp
    · simp [hj]
  have hcount := count_flatMap_update (fun j => (c._freelist j).chain) i l.chain List.nodup_range
    (List.mem_range.mpr hi) b
  simp only [ThreadCache.count_blocks, hfun]
  omega

theorem ThreadCache.count_blocks_place (c : ThreadCache) (p : Place) (b : Nat) :
    (ThreadCache.blocks ⟨c._freelist, p⟩).count b + c.place.chain.count b =
      c.blocks.count b + p.chain.count b := by
  simp only [ThreadCache.count_blocks]
  omega

/-- A size that a user may ask for. -/
def ValidSize (size : Nat) : Prop := 1 ≤ size ∧ size ≤ MAXBYTES

/-- What a thread knows of the size class and the span it works with. -/
def Place.Consistent (span : Nat → Span) : Place → Prop
  | .idle => True
  | .fetching size _ => ValidSize size
  | .needSpan size _ => ValidSize size
  | .carving size _ r => ValidSize size ∧ (span r)._objsize = size
  | .linking size _ r => ValidSize size ∧ (span r)._objsize = size
  | .fetched size _ => ValidSize size
  | .releasing size _ => ValidSize size
  | .returning size _ _ => ValidSize size

/-- The bucket that a thread works on. -/
def Place.bucket : Place → Nat
  | .idle => 0
  | .fetching size _ => index size
  | .needSpan size _ => index size
  | .carving size _ _ => index size
  | .linking size _ _ => index size
  | .fetched size _ => index size
  | .releasing size _ => index size
  | .returning size _ _ => index size

namespace Pool

variable {T : Type}

def own (s : Pool T) (r : Nat) : List Nat := (s.cache.span r).blocks

def objlist (s : Pool T) (r : Nat) : List Nat := (s.cache.span r)._objlist

/-- A span with blocks: those on its chain are its own, and the others are counted. -/
structure Filled (x : Span) : Prop where
  chained : ∀ b ∈ x._objlist, b ∈ x.blocks
  counted : x._usecount + x._objlist.length = x.blocks.length
  size : ValidSize x._objsize

variable [Fintype T]

/-- The places a block is in. -/
def places (s : Pool T) (b : Nat) : Nat :=
  s.held.count b + ∑ t, (s.thread t).blocks.count b + (s.carved.flatMap s.objlist).count b

/-- The invariant of the pool above the page cache. Every span in use has blocks, or is in
the hands of one thread; every span with blocks is in its bucket, or about to be linked by
one thread; every block of such a span is in one place; and blocks stay in the class of
their span. -/
structure Core (s : Pool T) : Prop where
  spans : ∀ r, s.inUse.count r = s.carved.count r + ∑ t, (s.thread t).place.bare.count r
  lists : ∀ r, ((List.range NFREELIST).flatMap s._spanlist).count r +
    ∑ t, (s.thread t).place.unlinked.count r = s.carved.count r
  blocks : ∀ b, s.places b = (s.carved.flatMap s.own).count b
  filled : ∀ r ∈ s.carved, Filled (s.cache.span r)
  blank : ∀ t, ∀ r ∈ (s.thread t).place.bare, (s.cache.span r).Blank
  full : ∀ t, ∀ r ∈ (s.thread t).place.unlinked, (s.cache.span r)._usecount = 0
  place : ∀ t, (s.thread t).place.Consistent s.cache.span
  listed : ∀ i r, r ∈ s._spanlist i → i < NFREELIST ∧ index (s.cache.span r)._objsize = i
  bins : ∀ t i b, b ∈ ((s.thread t)._freelist i).chain → i < NFREELIST
  free : ∀ t i b r, b ∈ ((s.thread t)._freelist i).chain → r ∈ s.carved → b ∈ s.own r →
    index (s.cache.span r)._objsize = i
  moving : ∀ t b r, b ∈ (s.thread t).place.chain → r ∈ s.carved → b ∈ s.own r →
    index (s.cache.span r)._objsize = (s.thread t).place.bucket

structure Inv (s : Pool T) : Prop where
  sound : Sound s.cache s.inUse
  core : Core s

namespace Core

variable {s : Pool T}

theorem carved_inUse (h : Core s) {r : Nat} (hr : r ∈ s.carved) : r ∈ s.inUse := by
  have h1 := h.spans r
  have h2 := List.count_pos_iff.mpr hr
  exact List.count_pos_iff.mp (by omega)

theorem bare_inUse (h : Core s) {t : T} {r : Nat} (hr : r ∈ (s.thread t).place.bare) :
    r ∈ s.inUse := by
  have h1 := h.spans r
  have h2 := List.count_pos_iff.mpr hr
  have h3 := le_sum (fun t => (s.thread t).place.bare.count r) t
  exact List.count_pos_iff.mp (by omega)

theorem unlinked_carved (h : Core s) {t : T} {r : Nat} (hr : r ∈ (s.thread t).place.unlinked) :
    r ∈ s.carved := by
  have h1 := h.lists r
  have h2 := List.count_pos_iff.mpr hr
  have h3 := le_sum (fun t => (s.thread t).place.unlinked.count r) t
  exact List.count_pos_iff.mp (by omega)

theorem listed_carved (h : Core s) {i r : Nat} (hr : r ∈ s._spanlist i) : r ∈ s.carved := by
  have h1 := h.lists r
  have hmem : r ∈ (List.range NFREELIST).flatMap s._spanlist :=
    List.mem_flatMap.mpr ⟨i, List.mem_range.mpr (h.listed i r hr).1, hr⟩
  have h2 := List.count_pos_iff.mpr hmem
  exact List.count_pos_iff.mp (by omega)

/-- What a thread knows depends on the size classes of spans in use only. -/
theorem consistent_congr (h : Core s) {t : T} {span : Nat → Span}
    (hsize : ∀ r ∈ s.inUse, (span r)._objsize = (s.cache.span r)._objsize) :
    (s.thread t).place.Consistent span := by
  have hp := h.place t
  cases hpl : (s.thread t).place with
  | carving size num r =>
    have hr : r ∈ s.inUse := h.bare_inUse (t := t) (by simp [hpl, Place.bare])
    rw [hpl] at hp
    simp only [Place.Consistent, hsize r hr] at hp ⊢
    exact hp
  | linking size num r =>
    have hr : r ∈ s.carved := h.unlinked_carved (t := t) (by simp [hpl, Place.unlinked])
    rw [hpl] at hp
    simp only [Place.Consistent, hsize r (h.carved_inUse hr)] at hp ⊢
    exact hp
  | _ =>
    rw [hpl] at hp
    exact hp

/-- Only the spans in use matter to the pool above the page cache. -/
theorem recache (h : Core s) {cache : PageCache}
    (hspan : ∀ r ∈ s.inUse, cache.span r = s.cache.span r) : Core { s with cache := cache } := by
  have hcarved : ∀ r ∈ s.carved, cache.span r = s.cache.span r :=
    fun r hr => hspan r (h.carved_inUse hr)
  have hown : ∀ r ∈ s.carved, own { s with cache := cache } r = s.own r := by
    intro r hr
    simp only [own, hcarved r hr]
  have hobj : ∀ r ∈ s.carved, objlist { s with cache := cache } r = s.objlist r := by
    intro r hr
    simp only [objlist, hcarved r hr]
  refine ⟨h.spans, h.lists, ?_, ?_, ?_, ?_, ?_,
    ?_, h.bins, ?_, ?_⟩
  · intro b
    have hb := h.blocks b
    unfold places at hb ⊢
    simp only [List.flatMap_congr hown, List.flatMap_congr hobj]
    exact hb
  · intro r hr
    rw [hcarved r hr]
    exact h.filled r hr
  · intro t r hr
    rw [hspan r (h.bare_inUse hr)]
    exact h.blank t r hr
  · intro t r hr
    rw [hcarved r (h.unlinked_carved hr)]
    exact h.full t r hr
  · intro t
    apply h.consistent_congr
    intro r hr
    rw [hspan r hr]
  · intro i r hr
    have hr' : r ∈ s.carved := h.listed_carved hr
    rw [hcarved r hr']
    exact h.listed i r hr
  · intro t i b r hb hr hbr
    rw [hcarved r hr]
    rw [hown r hr] at hbr
    exact h.free t i b r hb hr hbr
  · intro t b r hb hr hbr
    rw [hcarved r hr]
    rw [hown r hr] at hbr
    exact h.moving t b r hb hr hbr

end Core

namespace Inv

variable {s : Pool T}

theorem nodup_inUse (h : Inv s) : s.inUse.Nodup :=
  (List.nodup_append.mp (List.nodup_append.mp h.sound.shape.objects).1).1

theorem nodup_carved (h : Inv s) : s.carved.Nodup := by
  rw [List.nodup_iff_count_le_one]
  intro r
  have h1 := h.core.spans r
  have h2 := List.nodup_iff_count_le_one.mp h.nodup_inUse r
  omega

theorem bare_not_carved (h : Inv s) {t : T} {r : Nat} (hr : r ∈ (s.thread t).place.bare) :
    r ∉ s.carved := by
  intro hc
  have h1 := h.core.spans r
  have h2 := List.count_pos_iff.mpr hr
  have h3 := le_sum (fun t => (s.thread t).place.bare.count r) t
  have h4 := List.nodup_iff_count_le_one.mp h.nodup_inUse r
  have h5 := List.count_pos_iff.mpr hc
  omega

theorem count_lists_le (h : Inv s) (r : Nat) : ((List.range NFREELIST).flatMap s._spanlist).count r +
    ∑ t, (s.thread t).place.unlinked.count r ≤ 1 := by
  rw [h.core.lists r]
  exact List.nodup_iff_count_le_one.mp h.nodup_carved r

theorem unlinked_not_listed (h : Inv s) {t : T} {r : Nat}
    (hr : r ∈ (s.thread t).place.unlinked) (i : Nat) : r ∉ s._spanlist i := by
  intro hl
  have hmem : r ∈ (List.range NFREELIST).flatMap s._spanlist :=
    List.mem_flatMap.mpr ⟨i, List.mem_range.mpr (h.core.listed i r hl).1, hl⟩
  have h1 := h.count_lists_le r
  have h2 := List.count_pos_iff.mpr hmem
  have h3 := List.count_pos_iff.mpr hr
  have h4 := le_sum (fun t => (s.thread t).place.unlinked.count r) t
  omega

theorem page_of_own (h : Inv s) {r b : Nat} (hr : r ∈ s.inUse) (hb : b ∈ s.own r) :
    b >>> PAGE_SHIFT ∈ s.cache.pages r :=
  Span.page_of_block (h.sound.shape.sized r hr).1 hb

/-- Blocks of two spans in use are different. -/
theorem own_unique (h : Inv s) {r x b : Nat} (hr : r ∈ s.inUse) (hx : x ∈ s.inUse)
    (hbr : b ∈ s.own r) (hbx : b ∈ s.own x) : r = x :=
  h.sound.shape.tiles.unique (List.mem_append_left _ hr) (List.mem_append_left _ hx)
    (h.page_of_own hr hbr) (h.page_of_own hx hbx)

theorem nodup_own (h : Inv s) : (s.carved.flatMap s.own).Nodup := by
  refine List.nodup_flatMap.mpr ⟨fun x hx => Span.nodup_blocks (h.core.filled x hx).size.1, ?_⟩
  refine h.nodup_carved.imp_of_mem fun {x y} hx hy hne b' hbx hby => hne ?_
  exact h.own_unique (h.core.carved_inUse hx) (h.core.carved_inUse hy) hbx hby

theorem places_own (h : Inv s) {r b : Nat} (hr : r ∈ s.carved) (hb : b ∈ s.own r) :
    s.places b = 1 := by
  rw [h.core.blocks b]
  exact List.count_eq_one_of_mem h.nodup_own (List.mem_flatMap.mpr ⟨r, hr, hb⟩)

theorem places_le_one (h : Inv s) (b : Nat) : s.places b ≤ 1 := by
  rw [h.core.blocks b]
  exact List.nodup_iff_count_le_one.mp h.nodup_own b

/-- Whatever is in some place is a block of a span that has blocks. -/
theorem owner (h : Inv s) {b : Nat} (hb : 0 < s.places b) : ∃ r ∈ s.carved, b ∈ s.own r := by
  rw [h.core.blocks b] at hb
  obtain ⟨r, hr, hbr⟩ := List.mem_flatMap.mp (List.count_pos_iff.mp hb)
  exact ⟨r, hr, hbr⟩

omit [Fintype T] in
theorem count_objlist_le {r : Nat} (hr : r ∈ s.carved) (b : Nat) :
    (s.objlist r).count b ≤ (s.carved.flatMap s.objlist).count b :=
  (List.sublist_flatten_of_mem (List.mem_map.mpr ⟨r, hr, rfl⟩)).count_le b

/-- Each span's chain of blocks is free of repetitions. -/
theorem nodup_objlist (h : Inv s) {r : Nat} (hr : r ∈ s.carved) : (s.objlist r).Nodup := by
  rw [List.nodup_iff_count_le_one]
  intro b
  have h1 := h.places_le_one b
  have h2 := count_objlist_le hr b
  unfold places at h1
  omega

end Inv

end Pool

end Mymuduo.Memory
