import Mymuduo.Memory.HeapAlloc

namespace Mymuduo.Memory

open Lib

/-- The bytes of some blocks. -/
def totalBytes (bs : List Block) : Nat := (bs.map Block.bytes).sum

/-- The bytes that `Ensure` has requested. -/
def Segment.requested (s : Segment) : Nat :=
  totalBytes (s.obtained .node) + totalBytes (s.obtained .leaf)

theorem totalBytes_split (bs : List Block)
    (h : ∀ b ∈ bs, b.purpose = .node ∨ b.purpose = .leaf) :
    totalBytes (bs.filter (·.purpose = .node)) + totalBytes (bs.filter (·.purpose = .leaf)) =
      totalBytes bs := by
  induction bs with
  | nil => rfl
  | cons b bs ih =>
    have htail := ih fun b hb => h b (List.mem_cons_of_mem _ hb)
    simp only [totalBytes] at htail ⊢
    rcases h b List.mem_cons_self with hb | hb
    · simp only [List.filter_cons, hb, List.map_cons, List.sum_cons]
      simp
      omega
    · simp only [List.filter_cons, hb, List.map_cons, List.sum_cons]
      simp
      omega

namespace MapHeap

variable {m m' : MapHeap}

/-- Every byte that `bytes_used_` counts is requested as a page. -/
theorem Growth.requested {S : Nat → Prop} (h : Growth m m' S) :
    m'.seg.requested + m.map.bytes_used_ * 8192 = m.seg.requested + m'.map.bytes_used_ * 8192 := by
  obtain ⟨new, hblocks, hnew, hbytes⟩ := h.blocks
  have hsplit := totalBytes_split new hnew
  simp only [Segment.requested, Segment.obtained, hblocks, List.filter_append, totalBytes,
    List.map_append, List.sum_append] at hsplit ⊢
  omega

/-- The leaves that `Ensure` looks at are leaves of its range. -/
theorem key_of_leaf {start last k : Nat} (hle : start ≤ last) (hge : start / 2048 ≤ k / 2048)
    (hlt : k / 2048 < stopLeaf start last) :
    ∃ k', start ≤ k' ∧ k' ≤ last ∧ k' < 2 ^ 35 ∧ k' / 2048 = k / 2048 := by
  refine ⟨max start (k / 2048 * 2048), le_max_left _ _, ?_⟩
  rw [stopLeaf] at hlt
  split_ifs at hlt
  · omega
  · omega

/-- The leaves of a range exist, as far as the map reaches. -/
def Covered (m : MapHeap) (start last : Nat) : Prop :=
  ∀ k, start ≤ k → k ≤ last → k < 2 ^ 35 → m.map.HasLeaf k

theorem Ensured.same_of_covered {start last : Nat} (hle : start ≤ last)
    (h : Ensured (start / 2048) (stopLeaf start last) m m') (hcovered : m.Covered start last) :
    m' = m := by
  apply h.same
  intro k hge hlt
  obtain ⟨k', hge', hle', hmap, hleaf⟩ := key_of_leaf hle hge hlt
  exact (TCMalloc_PageMap3.hasLeaf_congr hleaf).mp (hcovered k' hge' hle' hmap)

/-- `Ensure` requests as many bytes as it counts only if it requests none. -/
theorem Ensured.requested_iff {start last : Nat} (hle : start ≤ last)
    (h : Ensured (start / 2048) (stopLeaf start last) m m') :
    m'.seg.requested + m.map.bytes_used_ = m.seg.requested + m'.map.bytes_used_ ↔
      m.Covered start last := by
  have hbytes := h.growth.requested
  constructor
  · intro heq k hge hlast hmap
    by_contra hmissing
    obtain ⟨hge', hlt'⟩ := leaf_lt_stop hge hlast hmap
    have hused := h.used k hge' hlt' hmissing
    omega
  · intro hcovered
    rw [h.same_of_covered hle hcovered]

end MapHeap

inductive GrowOp where
  | Ensure (start n : Nat)
  | refill

namespace PageHeap

section Grow

variable (os : UserSbrk)

/-- A call of `Ensure`, or the refill branch of `new_Span`, that returns. -/
def grow (h : PageHeap) : GrowOp → Option PageHeap
  | .Ensure start n =>
    if start < 2 ^ 64 ∧ n < 2 ^ 64 then
      match onMem (MapHeap.Ensure os.toSbrk start n) h with
      | .ok _ h' => some h'
      | .error _ _ => none
    else none
  | .refill =>
    match refill os.toSbrk h with
    | .ok _ h' => some h'
    | .error _ _ => none

/-- The bytes that `Ensure` requests are those by which `bytes_used_` grows, and a refill makes
only leaves that have a page of the new span. -/
structure Frugal (h : PageHeap) (a : GrowOp) (h' : PageHeap) : Prop where
  bytes : h'.mem.seg.requested + h.mem.map.bytes_used_ =
    h.mem.seg.requested + h'.mem.map.bytes_used_
  leaves : a = .refill → ∀ k, h'.mem.map.HasLeaf k → h.mem.map.HasLeaf k ∨
    ∃ x, h'.built.head? = some x ∧ ∃ p ∈ List.range' x.1 x.2, i1 p = i1 k ∧ i2 p = i2 k

/-- The first page of the region that a refill would get. -/
def refillPage (h : PageHeap) : Option Nat :=
  match New os.toSbrk h with
  | .ok _ h₁ => some (h₁.answerNow os.toSbrk (NPAGES - 1) >>> PAGE_SHIFT)
  | .error _ _ => none

/-- No leaf of the range that `Ensure` is called with is missing: a refill passes the bytes of
the new span as the number of its pages. -/
def NothingMissing (h : PageHeap) : GrowOp → Prop
  | .Ensure start n => h.mem.Covered start (MapHeap.lastKey start n)
  | .refill => ∀ base, h.refillPage os = some base →
      h.mem.Covered base (base + (NPAGES - 1) <<< PAGE_SHIFT - 1)

variable {os} {h h' : PageHeap}

/-- The segment after a region was asked for. -/
theorem segmentThen_region (os : UserSbrk) (h : PageHeap) :
    h.mem.seg.brk ≤ (h.segmentThen os.toSbrk (NPAGES - 1)).brk ∧
      ∀ p, p ≠ .span → (h.segmentThen os.toSbrk (NPAGES - 1)).obtained p = h.mem.seg.obtained p := by
  rcases region_cases os h with ⟨-, hseg⟩ | hregion
  · rw [hseg]
    exact ⟨le_rfl, fun _ _ => rfl⟩
  · have habove := hregion.above
    have hbrk := hregion.brk
    exact ⟨by omega, hregion.others⟩

theorem answer_page_lt (h : PageHeap) :
    h.answerNow os.toSbrk (NPAGES - 1) >>> PAGE_SHIFT + (NPAGES - 1) <<< PAGE_SHIFT ≤ 2 ^ 64 := by
  have hbytes : (NPAGES - 1) <<< PAGE_SHIFT = 1048576 := rfl
  rw [PageCache.shift_page, hbytes]
  rcases region_cases os h with ⟨hptr, -⟩ | hregion
  · have hvalue : SBRK_FAILED = 2 ^ 64 - 1 := rfl
    rw [hptr, hvalue]
    omega
  · have hinside := hregion.inside
    omega

/-- What a refill that returns has done to the page map. -/
theorem refill_ensured (hg : h.mem.Grown) (hr : h.grow os .refill = some h') :
    ∃ base m, h.refillPage os = some base ∧ m.map = h.mem.map ∧
      m.seg.requested = h.mem.seg.requested ∧
      MapHeap.Ensured (base / 2048)
        (MapHeap.stopLeaf base (base + (NPAGES - 1) <<< PAGE_SHIFT - 1)) m h'.mem := by
  have hspec := New_spec os.toSbrk h
  cases hnew : New os.toSbrk h with
  | error e h₁ =>
    have hcall : refill os.toSbrk h = .error e h₁ := bind_error hnew
    simp only [grow, hcall] at hr
    cases hr
  | ok b h₁ =>
    obtain ⟨-, -, hmap, he⟩ := hspec.ok hnew
    obtain ⟨hbrk, hothers⟩ := segmentThen_region os h₁
    have hgrown : (h₁.withBuilt os.toSbrk b (NPAGES - 1)).mem.Grown := (he.grown hg).raise hbrk
    have hens : Yields _ _ (h₁.ensureRegion os.toSbrk b) :=
      MapHeap.Ensure_spec os.toSbrk hgrown (by decide) (answer_page_lt h₁)
    cases hresult : h₁.ensureRegion os.toSbrk b with
    | error e m =>
      simp only [grow, refill_error hnew hresult] at hr
      cases hr
    | ok answer m =>
      simp only [grow, refill_ok hnew hresult] at hr
      obtain rfl := Option.some.inj hr
      refine ⟨_, (h₁.withBuilt os.toSbrk b (NPAGES - 1)).mem, ?_, hmap, ?_, (hens.ok hresult).2⟩
      · simp only [refillPage, hnew]
      · have hseg : (h₁.withBuilt os.toSbrk b (NPAGES - 1)).mem.seg =
            h₁.segmentThen os.toSbrk (NPAGES - 1) := rfl
        rw [hseg, Segment.requested, Segment.requested, hothers .node (by decide),
          hothers .leaf (by decide), he.obtained .node (by decide), he.obtained .leaf (by decide)]

/-- What a call of `Ensure` that returns has done. -/
theorem ensure_ensured {start n : Nat} (hg : h.mem.Grown)
    (hr : h.grow os (.Ensure start n) = some h') :
    (MapHeap.lastKey start n < start ∧ h' = h) ∨
    start ≤ MapHeap.lastKey start n ∧ MapHeap.Ensured (start / 2048)
      (MapHeap.stopLeaf start (MapHeap.lastKey start n)) h.mem h'.mem := by
  rw [grow] at hr
  split_ifs at hr with hguard
  by_cases hle : start ≤ MapHeap.lastKey start n
  · have hspec := MapHeap.Ensure_last_spec os.toSbrk hg hle
    cases hcall : MapHeap.Ensure os.toSbrk start n h.mem with
    | error e m =>
      simp only [onMem, within, hcall] at hr
      cases hr
    | ok answer m =>
      simp only [onMem, within, hcall] at hr
      obtain rfl := Option.some.inj hr
      exact Or.inr ⟨hle, (hspec.ok hcall).2⟩
  · have hlt := Nat.lt_of_not_le hle
    simp only [onMem, within, MapHeap.Ensure_wrapped os.toSbrk hlt] at hr
    exact Or.inl ⟨hlt, (Option.some.inj hr).symm⟩

theorem grown_grow {a : GrowOp} (hg : h.mem.Grown) (hr : h.grow os a = some h') : h'.mem.Grown := by
  cases a with
  | Ensure start n =>
    rcases ensure_ensured hg hr with ⟨-, rfl⟩ | ⟨-, hens⟩
    · exact hg
    · exact hens.grown
  | refill =>
    obtain ⟨base, m, -, -, -, hens⟩ := refill_ensured hg hr
    exact hens.grown

theorem ensure_frugal {start n : Nat} (hg : h.mem.Grown)
    (hr : h.grow os (.Ensure start n) = some h') :
    Frugal h (.Ensure start n) h' ↔ h.NothingMissing os (.Ensure start n) := by
  rcases ensure_ensured hg hr with ⟨hlt, rfl⟩ | ⟨hle, hens⟩
  · apply iff_of_true ⟨rfl, nofun⟩
    intro k hge hlast
    omega
  · constructor
    · intro hfrugal
      exact (hens.requested_iff hle).mp hfrugal.bytes
    · intro hcovered
      exact ⟨(hens.requested_iff hle).mpr hcovered, nofun⟩

theorem refill_frugal (hg : h.mem.Grown) (hr : h.grow os .refill = some h') :
    Frugal h .refill h' ↔ h.NothingMissing os .refill := by
  obtain ⟨base, m, hbase, hmap, hreq, hens⟩ := refill_ensured hg hr
  have hle : base ≤ base + (NPAGES - 1) <<< PAGE_SHIFT - 1 := by
    have hbytes : (NPAGES - 1) <<< PAGE_SHIFT = 1048576 := rfl
    omega
  have hiff := hens.requested_iff hle
  have hcovered : m.Covered base (base + (NPAGES - 1) <<< PAGE_SHIFT - 1) ↔
      h.NothingMissing os .refill := by
    rw [MapHeap.Covered, hmap]
    constructor
    · intro hall base' hbase'
      obtain rfl := Option.some.inj (hbase.symm.trans hbase')
      exact hall
    · intro hall
      exact hall base hbase
  rw [hmap, hreq] at hiff
  rw [← hcovered]
  constructor
  · intro hfrugal
    exact hiff.mp hfrugal.bytes
  · intro hall
    refine ⟨hiff.mpr hall, ?_⟩
    intro _ k hk
    rw [hens.same_of_covered hle hall, hmap] at hk
    exact Or.inl hk

/-- After every sequence of refills and calls of `Ensure`, the next one that returns requests
what it counts, and makes only leaves that are needed, exactly if no leaf of its range is
missing. -/
theorem ensure_frugal_iff (os : UserSbrk) (seg : Segment) (as : List GrowOp) :
    Always (grow os) (fun h => ∀ a h', h.grow os a = some h' →
      (Frugal h a h' ↔ h.NothingMissing os a)) (init seg) as := by
  have hgrown : Always (grow os) (fun h => h.mem.Grown) (init seg) as :=
    always_of_step (fun _ _ _ hg hr => grown_grow hg hr) (MapHeap.grown_init seg) as
  apply hgrown.mono
  intro h hg a h' hr
  cases a with
  | Ensure start n => exact ensure_frugal hg hr
  | refill => exact refill_frugal hg hr

/-- The first call of `Ensure`, for one page: what it counts and what it requests. -/
theorem first_ensure_requests_pages :
    ((init ⟨2 ^ 20, 0, 0, []⟩).grow (plainSbrk (2 ^ 48) le_rfl) (.Ensure 0 1)).map
        (fun h' => (h'.mem.map.bytes_used_, h'.mem.seg.requested)) = some (69760, 571473920) ∧
      ¬ ∀ h', (init ⟨2 ^ 20, 0, 0, []⟩).grow (plainSbrk (2 ^ 48) le_rfl) (.Ensure 0 1) = some h' →
        Frugal (init ⟨2 ^ 20, 0, 0, []⟩) (.Ensure 0 1) h' := by
  have hcounts : ((init ⟨2 ^ 20, 0, 0, []⟩).grow (plainSbrk (2 ^ 48) le_rfl) (.Ensure 0 1)).map
      (fun h' => (h'.mem.map.bytes_used_, h'.mem.seg.requested)) = some (69760, 571473920) := by
    decide +kernel
  refine ⟨hcounts, ?_⟩
  intro hall
  obtain ⟨h', hr, heq⟩ := Option.map_eq_some_iff.mp hcounts
  obtain ⟨hused, hrequested⟩ := Prod.mk.inj heq
  have hbytes := (hall h' hr).bytes
  rw [hused, hrequested] at hbytes
  exact absurd hbytes (by decide)

end Grow

end PageHeap

end Mymuduo.Memory
