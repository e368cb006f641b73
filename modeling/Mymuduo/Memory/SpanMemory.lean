import Mymuduo.Memory.HeapSafety

namespace Mymuduo.Memory

open Lib PageHeap

namespace Segment

/-- The byte at `a` is in memory that `sbrk` gave to `new_Span`. -/
def Owns (s : Segment) (a : Nat) : Prop := ∃ b ∈ s.obtained .span, b.addr ≤ a ∧ a < b.stop

/-- All bytes of the `n` pages from page `first` on are. -/
def Contains (s : Segment) (first n : Nat) : Prop :=
  ∀ a, first <<< PAGE_SHIFT ≤ a → a < (first + n) <<< PAGE_SHIFT → s.Owns a

theorem Contains.mono {s s' : Segment} {first n : Nat} (h : s.Contains first n)
    (hsub : ∀ b ∈ s.obtained .span, b ∈ s'.obtained .span) : s'.Contains first n := by
  intro a hge hlt
  obtain ⟨b, hb, ha⟩ := h a hge hlt
  exact ⟨b, hsub b hb, ha⟩

/-- The memory for spans comes in whole pages of a 48-bit address space. -/
def Paged (s : Segment) : Prop :=
  ∀ b ∈ s.obtained .span, b.addr % 8192 = 0 ∧ b.bytes % 8192 = 0 ∧ b.stop ≤ 2 ^ 48

end Segment

namespace PageHeap

theorem shift_address (p : Nat) : p <<< PAGE_SHIFT = p * 8192 := Nat.shiftLeft_eq p 13

/-- The span built from an answer, and the memory that it is for. -/
theorem Built.contains {n ptr : Nat} {h h' : PageHeap} (hb : Built n ptr h h')
    (hptr : ptr % 8192 = 0) (hn : n < 2 ^ 50) :
    h'.mem.seg.Contains (ptr >>> PAGE_SHIFT) n := by
  intro a hge hlt
  rw [shift_address, PageCache.shift_page] at hge hlt
  rcases hb.memory with ⟨hfailed, -⟩ | ⟨-, -, hspans⟩
  · rw [hfailed] at hptr
    exact absurd hptr (by decide)
  · rw [Segment.toSigned_pages hn, Int.toNat_natCast] at hspans
    rw [Segment.Owns, hspans]
    refine ⟨_, List.mem_cons_self, ?_, ?_⟩
    · change ptr ≤ a
      omega
    · change a < ptr + n * 8192
      omega

theorem Built.memory_mono {n ptr : Nat} {h h' : PageHeap} (hb : Built n ptr h h') :
    ∀ b ∈ h.mem.seg.obtained .span, b ∈ h'.mem.seg.obtained .span := by
  intro b hmem
  rcases hb.memory with ⟨-, hspans⟩ | ⟨-, -, hspans⟩
  · rw [hspans]
    exact hmem
  · rw [hspans]
    exact List.mem_cons_of_mem _ hmem

/-- A span is inside the memory it was built from only if that begins at a page's start and
has as many bytes as the span. -/
theorem Built.aligned {n ptr : Nat} {h h' : PageHeap} (hb : Built n ptr h h') (hn : 1 ≤ n)
    (hpaged : h.mem.seg.Paged) (hbelow : h.mem.seg.Below)
    (hin : h'.mem.seg.Contains (ptr >>> PAGE_SHIFT) n) : ptr % 8192 = 0 ∧ n < 2 ^ 50 := by
  have hstop : ∀ b ∈ h.mem.seg.obtained .span, b.stop % 8192 = 0 ∧ b.stop ≤ h.mem.seg.brk ∧
      b.stop ≤ 2 ^ 48 := by
    intro b hmem
    obtain ⟨haddr, hbytes, hlimit⟩ := hpaged b hmem
    have hle := hbelow b (List.mem_of_mem_filter hmem)
    refine ⟨?_, hle, hlimit⟩
    rw [Block.stop]
    omega
  have hfirst := hin (ptr / 8192 * 8192) (by rw [shift_address, PageCache.shift_page])
    (by rw [shift_address, PageCache.shift_page]; omega)
  have hlast := hin ((ptr / 8192 + n) * 8192 - 1)
    (by rw [shift_address, PageCache.shift_page]; omega)
    (by rw [shift_address, PageCache.shift_page]; omega)
  obtain ⟨b, hmem, hge, hlt⟩ := hfirst
  obtain ⟨b', hmem', hge', hlt'⟩ := hlast
  rcases hb.memory with ⟨hfailed, hspans⟩ | ⟨hle, hlimit, hspans⟩
  · rw [hspans] at hmem
    have hold := hstop b hmem
    have hvalue : SBRK_FAILED = 2 ^ 64 - 1 := rfl
    rw [hfailed, hvalue] at hlt
    omega
  · rw [hspans] at hmem hmem'
    constructor
    · rcases List.mem_cons.mp hmem with rfl | hmem
      · simp only at hge
        omega
      · have hold := hstop b hmem
        omega
    · rcases List.mem_cons.mp hmem' with rfl | hmem'
      · simp only [Block.stop] at hlt'
        omega
      · have hold := hstop b' hmem'
        omega

section Accounts

variable {os : UserSbrk} {h h' : PageHeap} {us : List Nat} {n : Nat}

/-- Every span built is inside the memory that `sbrk` gave to `new_Span`. -/
def BuiltInside (h : PageHeap) : Prop := ∀ x ∈ h.built, h.mem.seg.Contains x.1 x.2

/-- What `sbrk` returns to `new_Span` is the start of a page, and the request has as many bytes
as its pages. -/
def PageStart (os : UserSbrk) (h : PageHeap) (n : Nat) : Prop :=
  ∀ ptr, h.answer os.toSbrk n = some ptr → ptr % 8192 = 0 ∧ askedPages n < 2 ^ 50

theorem askedPages_pos (hn : 1 ≤ n) : 1 ≤ askedPages n := by
  rw [askedPages]
  split_ifs
  · exact hn
  · decide

theorem Accounts.inside_iff (ha : Accounts os.toSbrk h n h') (hn : 1 ≤ n) (hin : h.BuiltInside)
    (hpaged : h.mem.seg.Paged) (hbelow : h.mem.seg.Below) :
    h'.BuiltInside ↔ PageStart os h n := by
  rcases ha with ⟨hnone, hun⟩ | ⟨ptr, hsome, hb⟩
  · apply iff_of_true
    · intro x hx
      rw [hun.built] at hx
      exact (hin x hx).mono hun.memory
    · intro ptr hptr
      rw [hnone] at hptr
      cases hptr
  · constructor
    · intro hin' ptr' hptr'
      obtain rfl := Option.some.inj (hsome.symm.trans hptr')
      refine hb.aligned (askedPages_pos hn) hpaged hbelow (hin' (_, _) ?_)
      rw [hb.built]
      exact List.mem_cons_self
    · intro hstart x hx
      obtain ⟨hptr, hsize⟩ := hstart ptr hsome
      rw [hb.built] at hx
      rcases List.mem_cons.mp hx with rfl | hx
      · exact hb.contains hptr hsize
      · exact (hin x hx).mono hb.memory_mono

theorem Accounts.paged (ha : Accounts os.toSbrk h n h') (hstart : PageStart os h n)
    (hlt : n < NPAGES) (hpaged : h.mem.seg.Paged) : h'.mem.seg.Paged := by
  rcases ha with ⟨-, hun⟩ | ⟨ptr, hsome, hb⟩
  · rw [Segment.Paged, hun.same hlt]
    exact hpaged
  · obtain ⟨hptr, hsize⟩ := hstart ptr hsome
    rcases hb.memory with ⟨-, hspans⟩ | ⟨-, hlimit, hspans⟩
    · rw [Segment.Paged, hspans]
      exact hpaged
    · rw [Segment.toSigned_pages hsize, Int.toNat_natCast] at hlimit hspans
      intro b hmem
      rw [hspans] at hmem
      rcases List.mem_cons.mp hmem with rfl | hmem
      · exact ⟨hptr, Nat.mul_mod_left _ _, hlimit⟩
      · exact hpaged b hmem

theorem byte_in_pages {first n a : Nat} :
    first <<< PAGE_SHIFT ≤ a ∧ a < (first + n) <<< PAGE_SHIFT ↔
      first ≤ a / 8192 ∧ a / 8192 < first + n := by
  rw [shift_address, shift_address]
  omega

/-- The spans in use and in the buckets are inside the spans that were built. -/
theorem Laid.contains (hl : Laid h us) (hin : h.BuiltInside) {r : Nat}
    (hr : r ∈ us ++ h.cache.linked) :
    h.mem.seg.Contains (h.cache.span r)._pageid (h.cache.span r)._npage := by
  intro a hge hlt
  have hpage : a / 8192 ∈ h.cache.pages r := Span.mem_pages.mpr (byte_in_pages.mp ⟨hge, hlt⟩)
  have hregion : a / 8192 ∈ h.cache.regionPages := hl.sound.shape.tiles.mem_total hr hpage
  obtain ⟨base, hbase, hmem⟩ := List.mem_flatMap.mp hregion
  have hbytes := byte_in_pages.mpr (List.mem_range'_1.mp hmem)
  exact hin _ (hl.registered base hbase) a hbytes.1 hbytes.2

end Accounts

end PageHeap

namespace HeapState

/-- Every span that was built from an answer of `sbrk`, and every span that is in use or free,
is inside the memory that `sbrk` gave to `new_Span`. -/
structure Owned (s : HeapState) : Prop where
  built : s.heap.BuiltInside
  spans : s.fault = none → ∀ r ∈ s.inUse ++ s.heap.cache.linked,
    s.heap.mem.seg.Contains (s.heap.cache.span r)._pageid (s.heap.cache.span r)._npage

/-- The step asks for no memory for spans, or gets it from the start of a page on. -/
def AnswerAligned (os : UserSbrk) (s : HeapState) : HeapOp → Prop
  | .new_Span n => PageStart os s.heap n
  | .relase _ => True

/-- The memory for spans came in whole pages so far. -/
structure PagedInv (s : HeapState) : Prop where
  inv : s.Inv
  paged : s.fault = none → s.heap.mem.seg.Paged

section Steps

variable {os : UserSbrk} {s t : HeapState} {a : HeapOp}

theorem step_alive (ht : s.step os a = some t) : s.fault = none := by
  cases a with
  | new_Span n =>
    rw [step] at ht
    split_ifs at ht with hguard
    exact hguard.1
  | relase r =>
    rw [step] at ht
    split_ifs at ht with hguard
    exact hguard.1

theorem step_new_Span {n : Nat} (halive : s.fault = none) (hn : 1 ≤ n) (hlt : n < 2 ^ 64) :
    s.step os (.new_Span n) = some (s.allotted (PageHeap.new_Span os.toSbrk 2 n s.heap)) := by
  rw [step]
  exact if_pos ⟨halive, hn, hlt⟩

theorem pos_of_step {n : Nat} (ht : s.step os (.new_Span n) = some t) : 1 ≤ n := by
  rw [step] at ht
  split_ifs at ht with hguard
  exact hguard.2.1

theorem pagedInv_step (hs : s.PagedInv) (ht : s.step os a = some t)
    (ha : s.AnswerAligned os a) : t.PagedInv := by
  refine ⟨inv_step hs.inv ht, ?_⟩
  have hpaged := hs.paged (step_alive ht)
  cases a with
  | new_Span n =>
    by_cases hlt : n < NPAGES
    · rcases step_small hs.inv ht hlt with ⟨r, h, -, haccounts, rfl, -⟩ | ⟨e, h, -, rfl⟩
      · exact fun _ => haccounts.paged ha hlt hpaged
      · exact nofun
    · obtain ⟨e, h, -, rfl⟩ := step_large hs.inv ht (Nat.le_of_not_lt hlt)
      exact nofun
  | relase r =>
    obtain ⟨h, -, he, rfl⟩ := step_relase hs.inv ht
    intro _
    rw [Segment.Paged, he.quiet.spans]
    exact hpaged

theorem step_owned (hs : s.PagedInv) (hown : s.Owned) (ht : s.step os a = some t) :
    t.Owned ↔ s.AnswerAligned os a := by
  have hl := hs.inv (step_alive ht)
  have hpaged := hs.paged (step_alive ht)
  cases a with
  | new_Span n =>
    have hiff : ∀ h, Accounts os.toSbrk s.heap n h →
        (h.BuiltInside ↔ PageStart os s.heap n) := fun h haccounts =>
      haccounts.inside_iff (pos_of_step ht) hown.built hpaged hl.below
    by_cases hlt : n < NPAGES
    · rcases step_small hs.inv ht hlt with ⟨r, h, -, haccounts, rfl, hmark⟩ | ⟨e, h, hfailed, rfl⟩
      · constructor
        · intro ht
          exact (hiff h haccounts).mp ht.built
        · intro ha
          have hin : (h.mark r).BuiltInside := (hiff h haccounts).mpr ha
          exact ⟨hin, fun _ x hx => hmark.contains hin hx⟩
      · exact ⟨fun ht => (hiff h hfailed.2).mp ht.built,
          fun ha => ⟨(hiff h hfailed.2).mpr ha, nofun⟩⟩
    · obtain ⟨e, h, hfailed, rfl⟩ := step_large hs.inv ht (Nat.le_of_not_lt hlt)
      exact ⟨fun ht => (hiff h hfailed.accounts).mp ht.built,
        fun ha => ⟨(hiff h hfailed.accounts).mpr ha, nofun⟩⟩
  | relase r =>
    obtain ⟨h, hl', he, rfl⟩ := step_relase hs.inv ht
    refine iff_of_true ?_ trivial
    have hin : h.BuiltInside := by
      intro x hx
      rw [he.built] at hx
      exact (hown.built x hx).mono fun _ hb => he.quiet.spans.symm ▸ hb
    exact ⟨hin, fun _ x hx => hl'.contains hin hx⟩

end Steps

theorem pagedInv_init (brk : Nat) : (init brk).PagedInv :=
  ⟨inv_init brk, fun _ _ hb => absurd hb List.not_mem_nil⟩

theorem owned_init (brk : Nat) : (init brk).Owned := by
  have hin : (init brk).heap.BuiltInside := fun _ hx => absurd hx List.not_mem_nil
  exact ⟨hin, fun _ r hr => (inv_init brk rfl).contains hin hr⟩

/-- In every run, all spans stay inside the memory that `sbrk` gave to `new_Span`, exactly if
each answer that `new_Span` builds a span from is the start of a page, and each such request
has as many bytes as its pages. -/
theorem spans_inside_iff (os : UserSbrk) (brk : Nat) (as : List HeapOp) :
    Always (step os) Owned (init brk) as ↔ Each (step os) (AnswerAligned os) (init brk) as :=
  always_iff_each (fun _ _ _ hs _ ht ha => pagedInv_step hs ht ha)
    (fun _ _ _ hs hown ht => step_owned hs hown ht) (pagedInv_init brk) (owned_init brk) as

/-- A request for one page in a process whose break is 16 bytes behind the start of a page. -/
theorem misaligned_span_outside : ¬ Always (step (plainSbrk (2 ^ 48) le_rfl)) Owned
    (init (2 ^ 20 + 16)) [.new_Span 1] := by
  intro h
  have hstep : (init (2 ^ 20 + 16)).step (plainSbrk (2 ^ 48) le_rfl) (.new_Span 1) = some _ :=
    step_new_Span rfl (by decide) (by decide)
  have hstart := (step_owned (pagedInv_init _) (owned_init _) hstep).mp (h.2 _ hstep)
  have hanswer : (init (2 ^ 20 + 16)).heap.answer (plainSbrk (2 ^ 48) le_rfl).toSbrk 1 =
      some 1179664 := by decide +kernel
  exact absurd (hstart _ hanswer).1 (by decide)

end HeapState

end Mymuduo.Memory
