import Mymuduo.Memory.PageRun
import Mymuduo.Memory.Sbrk

namespace Mymuduo.Memory

open Lib

namespace PageCache

/-! Spans for no bucket live beside the others: each has an entry for its first page, outside
all regions. Without these entries the page map is the one that the spans of the buckets need,
and no operation on those makes a difference between the two. -/

/-- The page cache with another page map. -/
def withMap (c : PageCache) (m : Nat → Option Nat) : PageCache := { c with _id_span_map := m }

/-- The page map `m` is that of `c` without some entries for the spans `large`. -/
def Forgets (large : List Nat) (c : PageCache) (m : Nat → Option Nat) : Prop :=
  ∀ p, m p = c._id_span_map p ∨ m p = none ∧ ∃ x ∈ large, c._id_span_map p = some x

/-- What the operations on the spans of the buckets leave of a span for no bucket. -/
structure Spared (c d : PageCache) (x : Nat) : Prop where
  span : d.span x = c.span x
  pooled : x ∉ c._freeList → x ∉ d._freeList
  allocated : x < c._memory → x < d._memory

namespace Spared

variable {c d e : PageCache} {x : Nat}

theorem refl (c : PageCache) (x : Nat) : Spared c c x := ⟨rfl, fun h => h, fun h => h⟩

theorem trans (h : Spared c d x) (h' : Spared d e x) : Spared c e x :=
  ⟨h'.span.trans h.span, fun hx => h'.pooled (h.pooled hx), fun hx => h'.allocated (h.allocated hx)⟩

end Spared

section Merge

variable {large : List Nat} {c : PageCache} {m : Nat → Option Nat}

theorem get_forgets (hf : Forgets large c m) (k : Nat) : (c.withMap m).get k = c.get k ∨
    (c.withMap m).get k = none ∧ ∃ x ∈ large, c.get k = some x := by
  by_cases hk : k >>> BITS > 0
  · apply Or.inl
    rw [get, get, if_pos hk, if_pos hk]
  · rw [get, get, if_neg hk, if_neg hk]
    exact hf k

theorem absorb_spared {r ret x : Nat} (hr : x ≠ r) (hret : x ≠ ret) (s : Span) :
    Spared c (c.absorb r ret s) x := by
  refine ⟨?_, ?_, fun h => h⟩
  · simp [absorb, setSpan, erase, Delete, hr, hret]
  · intro hx
    exact fun hmem => (List.mem_cons.mp hmem).elim hret hx

theorem linked_erase_subset {i r y : Nat} (hy : y ∈ (c.erase i r).linked) : y ∈ c.linked := by
  obtain ⟨k, hk, hy⟩ := mem_linked.mp hy
  exact mem_linked.mpr ⟨k, hk, mem_of_mem_erase hy⟩

/-- What merging leaves alone, and that it does not see the entries of large spans. -/
structure MergeSpares (large : List Nat) (c d : PageCache) : Prop where
  map : d._id_span_map = c._id_span_map
  regions : d.regions = c.regions
  linked : ∀ y ∈ d.linked, y ∈ c.linked
  spared : ∀ x ∈ large, Spared c d x

theorem MergeSpares.refl (large : List Nat) (c : PageCache) : MergeSpares large c c :=
  ⟨rfl, rfl, fun _ h => h, fun x _ => Spared.refl c x⟩

theorem MergeSpares.trans {d e : PageCache} (h : MergeSpares large c d)
    (h' : MergeSpares large d e) : MergeSpares large c e :=
  ⟨h'.map.trans h.map, h'.regions.trans h.regions, fun y hy => h.linked y (h'.linked y hy),
    fun x hx => (h.spared x hx).trans (h'.spared x hx)⟩

theorem absorb_spares (hsize : ∀ x ∈ large, NPAGES ≤ (c.span x)._npage) {r ret : Nat}
    (hfits : ¬ (c.span ret)._npage + (c.span r)._npage ≥ NPAGES) (s : Span) :
    MergeSpares large c (c.absorb r ret s) := by
  refine ⟨rfl, rfl, fun y hy => linked_erase_subset hy, ?_⟩
  intro x hx
  have hlarge := hsize x hx
  refine absorb_spared ?_ ?_ s
  · intro he
    subst he
    omega
  · intro he
    subst he
    omega

theorem round_forgets {k r : Nat} {s : Nat → Span} {g : PageCache → Option PageCache}
    {d : PageCache} (hsize : ∀ x ∈ large, NPAGES ≤ (c.span x)._npage) (hf : Forgets large c m)
    (hgo : ∀ e, MergeSpares large c e → g (e.withMap m) = some d →
      ∃ e', g e = some e' ∧ d = e'.withMap m ∧ MergeSpares large e e')
    (hd : round (c.withMap m) k r s g = some d) :
    ∃ e, round c k r s g = some e ∧ d = e.withMap m ∧ MergeSpares large c e := by
  have hstop : some (c.withMap m) = some d →
      ∃ e, some c = some e ∧ d = e.withMap m ∧ MergeSpares large c e :=
    fun h => ⟨c, rfl, (Option.some.inj h).symm, MergeSpares.refl large c⟩
  rw [round] at hd ⊢
  rcases get_forgets hf k with hsame | ⟨hnone, x, hx, hget⟩
  · rw [hsame] at hd
    cases hget : c.get k with
    | none =>
      rw [hget] at hd
      exact hstop hd
    | some ret =>
      rw [hget] at hd
      simp only at hd ⊢
      have hspan : (c.withMap m).span = c.span := rfl
      rw [hspan] at hd
      split_ifs at hd ⊢ with huse hbig
      · exact hstop hd
      · exact hstop hd
      · have hone := absorb_spares hsize hbig (s ret)
        obtain ⟨e, he, hde, hrest⟩ := hgo _ hone hd
        exact ⟨e, he, hde, hone.trans hrest⟩
  · rw [hnone] at hd
    rw [hget]
    have hlarge := hsize x hx
    simp only
    split_ifs with huse hbig
    · exact hstop hd
    · exact hstop hd
    · omega

theorem MergeSpares.size {d : PageCache} (h : MergeSpares large c d)
    (hsize : ∀ x ∈ large, NPAGES ≤ (c.span x)._npage) :
    ∀ x ∈ large, NPAGES ≤ (d.span x)._npage := by
  intro x hx
  rw [(h.spared x hx).span]
  exact hsize x hx

theorem MergeSpares.forgets {d : PageCache} (h : MergeSpares large c d) (hf : Forgets large c m) :
    Forgets large d m := by
  rw [Forgets, h.map]
  exact hf

theorem mergeBack_forgets (fuel : Nat) {r : Nat} {d : PageCache}
    (hsize : ∀ x ∈ large, NPAGES ≤ (c.span x)._npage) (hf : Forgets large c m)
    (hd : mergeBack fuel (c.withMap m) r = some d) :
    ∃ e, mergeBack fuel c r = some e ∧ d = e.withMap m ∧ MergeSpares large c e := by
  induction fuel generalizing c with
  | zero => cases hd
  | succ fuel ih =>
    exact round_forgets (k := c.prevId r) (g := (mergeBack fuel · r))
      (s := fun ret => { c.span r with
        _pageid := (c.span ret)._pageid
        _npage := (c.span r)._npage + (c.span ret)._npage })
      hsize hf (fun e he hcall => ih (he.size hsize) (he.forgets hf) hcall) hd

theorem mergeForward_forgets (fuel : Nat) {r : Nat} {d : PageCache}
    (hsize : ∀ x ∈ large, NPAGES ≤ (c.span x)._npage) (hf : Forgets large c m)
    (hd : mergeForward fuel (c.withMap m) r = some d) :
    ∃ e, mergeForward fuel c r = some e ∧ d = e.withMap m ∧ MergeSpares large c e := by
  induction fuel generalizing c with
  | zero => cases hd
  | succ fuel ih =>
    exact round_forgets (k := c.nextId r) (g := (mergeForward fuel · r))
      (s := fun ret => { c.span r with
        _npage := (c.span r)._npage + (c.span ret)._npage })
      hsize hf (fun e he hcall => ih (he.size hsize) (he.forgets hf) hcall) hd

end Merge

section Take

variable {large us : List Nat} {c : PageCache} {m : Nat → Option Nat} {n i s x : Nat}

/-- The object `x` belongs neither to a span of the buckets nor to the pool. -/
structure Aside (c : PageCache) (us : List Nat) (x : Nat) : Prop where
  allocated : x < c._memory
  unused : x ∉ us
  unlinked : x ∉ c.linked
  pooled : x ∉ c._freeList

theorem Aside.ne_newRef (h : Aside c us x) : x ≠ c.newRef := by
  intro he
  cases hfree : c._freeList with
  | nil =>
    have hnew : c.newRef = c._memory := by simp [newRef, hfree]
    exact absurd (he.trans hnew) h.allocated.ne
  | cons y ys =>
    have hnew : c.newRef = y := by simp [newRef, hfree]
    apply h.pooled
    rw [hfree, he, hnew]
    exact List.mem_cons_self

theorem Aside.New (h : Aside c us x) : x < c.New._memory ∧ x ∉ c.New._freeList := by
  refine ⟨?_, fun hx => h.pooled (List.mem_of_mem_tail hx)⟩
  have hlt := h.allocated
  simp only [PageCache.New]
  split_ifs
  · omega
  · exact hlt

/-- What taking a span from the buckets leaves alone. -/
structure TakeSpares (us : List Nat) (c d : PageCache) (r : Nat) : Prop where
  aside : ∀ x, Aside c us x → d.span x = c.span x ∧ Aside d (r :: us) x
  entries : ∀ p, p ∉ c.regionPages → d._id_span_map p = c._id_span_map p

theorem takeExact_spares (h : Shape (c.withMap m) us) (hs : s ∈ c._pagelist i) :
    TakeSpares us c (c.takeExact i s) s := by
  obtain ⟨hsize, hpos, hlt, -⟩ := h.bucket i s hs
  have hsl : s ∈ c.linked := mem_linked.mpr ⟨i, hlt, hs⟩
  have hfirst : (c.span s)._pageid ∈ c.regionPages :=
    h.tiles.mem_total (List.mem_append_right _ hsl) (h.first_mem (List.mem_append_right _ hsl))
  have hsize' : (c.span s)._npage = i := hsize
  rw [takeExact_eq c (by omega)]
  refine ⟨?_, ?_⟩
  · intro x hx
    refine ⟨rfl, hx.allocated, ?_, ?_, hx.pooled⟩
    · intro hmem
      rcases List.mem_cons.mp hmem with rfl | hmem
      · exact hx.unlinked hsl
      · exact hx.unused hmem
    · intro hmem
      exact hx.unlinked (linked_erase_subset hmem)
  · intro p hp
    have hne : p ≠ (c.span s)._pageid := by
      intro he
      exact hp (he ▸ hfirst)
    exact Function.update_of_ne hne _ _

theorem takeCut_spares (h : Shape (c.withMap m) us) (hs : s ∈ c._pagelist i) (hlt : n < i) :
    TakeSpares us c (c.takeCut n i s) c.newRef := by
  obtain ⟨hsize, hpos, hi, -⟩ := h.bucket i s hs
  have hsl : s ∈ c.linked := mem_linked.mpr ⟨i, hi, hs⟩
  have hmem : s ∈ us ++ c.linked := List.mem_append_right _ hsl
  have hne : c.newRef ≠ s := by
    intro he
    exact h.newRef_fresh (he ▸ hmem)
  have hsize' : (c.span s)._npage = i := hsize
  have hlink := takeCut_linked (i := i) hne (n := n) (by omega)
  refine ⟨?_, ?_⟩
  · intro x hx
    have hxs : x ≠ s := by
      intro he
      exact hx.unlinked (he ▸ hsl)
    have hfields : (c.takeCut n i s)._freeList = c.New._freeList ∧
        (c.takeCut n i s)._memory = c.New._memory := by
      simp only [takeCut, setAll_eq]
      exact ⟨rfl, rfl⟩
    refine ⟨by rw [takeCut_span hne, if_neg hxs, if_neg hx.ne_newRef], ?_, ?_, ?_, ?_⟩
    · rw [hfields.2]
      exact hx.New.1
    · intro hin
      rcases List.mem_cons.mp hin with rfl | hin
      · exact hx.ne_newRef rfl
      · exact hx.unused hin
    · intro hin
      rcases List.mem_cons.mp (hlink.subset hin) with rfl | hin
      · exact hxs rfl
      · exact hx.unlinked (linked_erase_subset hin)
    · rw [hfields.1]
      exact hx.New.2
  · intro p hp
    have hout : ¬ ((c.span s)._pageid ≤ p ∧ p < (c.span s)._pageid + (c.span s)._npage) := by
      intro hin
      exact hp (h.tiles.mem_total hmem (Span.mem_pages.mpr hin))
    have hlast : (c.span s).last = (c.span s)._pageid + (c.span s)._npage - 1 := rfl
    rw [takeCut_map hne (by omega), if_neg (by omega), if_neg (by omega)]

/-- Entries that a branch writes hide nothing. -/
theorem Forgets.update (hf : Forgets large c m) {d : PageCache} {m' : Nat → Option Nat}
    (h : ∀ p, m' p = d._id_span_map p ∨ m' p = m p ∧ d._id_span_map p = c._id_span_map p) :
    Forgets large d m' := by
  intro p
  rcases h p with hsame | ⟨hold, hold'⟩
  · exact Or.inl hsame
  · rw [hold, hold']
    exact hf p

/-- Taking a span makes no difference between the two page maps. -/
theorem taken_forgets (hf : Forgets large c m) (h : Shape (c.withMap m) us)
    (hs : s ∈ c._pagelist i) (hi : n ≤ i) {r : Nat} {d : PageCache}
    (hd : taken (c.withMap m) n i s = some (r, d)) :
    ∃ e, taken c n i s = some (r, e) ∧ d = e.withMap d._id_span_map ∧
      Forgets large e d._id_span_map ∧ TakeSpares us c e r := by
  obtain ⟨hsize, hpos, hlt, -⟩ := h.bucket i s hs
  have hsize' : (c.span s)._npage = i := hsize
  rw [taken] at hd ⊢
  split_ifs at hd ⊢ with hin
  · obtain ⟨rfl, rfl⟩ := Prod.mk.inj (Option.some.inj hd)
    subst hin
    have hc := takeExact_eq c (n := i) (r := s) (by omega)
    have hw := takeExact_eq (c.withMap m) (n := i) (r := s) (by rw [hsize]; exact hpos)
    refine ⟨_, rfl, ?_, hf.update ?_, takeExact_spares h hs⟩
    · rw [hc, hw]
      rfl
    · rw [hc, hw]
      intro p
      by_cases hp : p = (c.span s)._pageid
      · left
        simp [set, withMap, erase, hp]
      · right
        simp [set, withMap, erase, hp]
  · obtain ⟨rfl, rfl⟩ := Prod.mk.inj (Option.some.inj hd)
    have hne : c.newRef ≠ s := by
      intro he
      exact h.newRef_fresh (he ▸ List.mem_append_right _ (mem_linked.mpr ⟨i, hlt, hs⟩))
    refine ⟨_, rfl, ?_, hf.update ?_, takeCut_spares h hs (by omega)⟩
    · simp only [takeCut, setAll_eq]
      rfl
    · intro p
      rw [takeCut_map hne (by omega), takeCut_map (c := c.withMap m) hne (by rw [hsize]; omega)]
      have hspan : (c.withMap m).span = c.span := rfl
      rw [hspan]
      split_ifs
      · exact Or.inl rfl
      · exact Or.inl rfl
      · exact Or.inr ⟨rfl, rfl⟩

theorem new_Span_found {base : Nat} (hlt : n < NPAGES) (hfb : c.firstBucket n = some (i, s))
    (depth : Nat) : new_Span (depth + 1) c n base = taken c n i s := by
  rw [new_Span, if_neg (by omega), hfb]
  rfl

theorem new_Span_empty {base : Nat} (hlt : n < NPAGES) (hfb : c.firstBucket n = none)
    (depth : Nat) : new_Span (depth + 1) c n base = new_Span depth (c.refill base) n base := by
  rw [new_Span, if_neg (by omega), hfb]

theorem Aside.refill {b : Nat} (h : Aside c us x) :
    (c.refill b).span x = c.span x ∧ Aside (c.refill b) us x := by
  refine ⟨by rw [refill_span, if_neg h.ne_newRef], h.New.1, h.unused, ?_, h.New.2⟩
  intro hmem
  rcases List.mem_cons.mp (refill_linked.subset hmem) with rfl | hmem
  · exact h.ne_newRef rfl
  · exact h.unlinked hmem

/-- What `new_Span` leaves alone when it serves a request of a bucket's size. -/
structure ServeSpares (us : List Nat) (c d : PageCache) (n base r : Nat) : Prop where
  aside : ∀ x, Aside c us x → d.span x = c.span x ∧ Aside d (r :: us) x
  entries : ∀ p, p ∉ d.regionPages → d._id_span_map p = c._id_span_map p
  regions : c.firstBucket n ≠ none ∧ d.regions = c.regions ∨
    c.firstBucket n = none ∧ d.regions = base :: c.regions

/-- A request of a bucket's size makes no difference between the two page maps. -/
theorem new_Span_forgets {base : Nat} (hf : Forgets large c m) (h : Sound (c.withMap m) us)
    (hn : 1 ≤ n) (hlt : n < NPAGES) (hb : SbrkOk (c.withMap m) n base) :
    ∃ r d m', new_Span 2 c n base = some (r, d) ∧
      Allotted (c.withMap m) (d.withMap m') us n r ∧ Forgets large d m' ∧
      ServeSpares us c d n base r := by
  obtain ⟨r, d', hcall, hall, -⟩ := new_Span_spec h hn hlt hb
  cases hfb : c.firstBucket n with
  | some found =>
    obtain ⟨i, s⟩ := found
    obtain ⟨hi, -, hhead, -⟩ := firstBucket_eq_some hfb
    have hs : s ∈ c._pagelist i := List.mem_of_mem_head? hhead
    have hfb' : (c.withMap m).firstBucket n = some (i, s) := hfb
    rw [new_Span_found hlt hfb'] at hcall
    obtain ⟨d, htaken, hd, hforgets, hspares⟩ := taken_forgets hf h.shape hs hi hcall
    have hregions := taken_regions htaken
    refine ⟨r, d, d'._id_span_map, ?_, hd ▸ hall, hforgets, hspares.aside, ?_, ?_⟩
    · rw [new_Span_found hlt hfb, htaken]
    · intro p hp
      rw [regionPages, hregions] at hp
      exact hspares.entries p hp
    · exact Or.inl ⟨by rw [hfb]; exact Option.some_ne_none _, hregions⟩
  | none =>
    have hfb' : (c.withMap m).firstBucket n = none := hfb
    have hfound : (c.refill base).firstBucket n = some (NPAGES - 1, c.newRef) :=
      firstBucket_refill base hlt (firstBucket_eq_none hfb)
    have hfound' : ((c.withMap m).refill base).firstBucket n = some (NPAGES - 1, c.newRef) := hfound
    have hs : c.newRef ∈ (c.refill base)._pagelist (NPAGES - 1) := by simp [refill_front]
    have hshape : Shape ((c.refill base).withMap m) us := refill_shape h.shape (hb hfb')
    rw [new_Span_empty hlt hfb', new_Span_found hlt hfound'] at hcall
    obtain ⟨d, htaken, hd, hforgets, hspares⟩ :=
      taken_forgets (c := c.refill base) hf hshape hs (by omega) hcall
    have hregions := taken_regions htaken
    refine ⟨r, d, d'._id_span_map, ?_, hd ▸ hall, hforgets, ?_, ?_, ?_⟩
    · rw [new_Span_empty hlt hfb, new_Span_found hlt hfound, htaken]
    · intro x hx
      obtain ⟨hspan, haside⟩ := hx.refill (b := base)
      obtain ⟨hspan', haside'⟩ := hspares.aside x haside
      exact ⟨hspan'.trans hspan, haside'⟩
    · intro p hp
      rw [regionPages, hregions] at hp
      exact hspares.entries p hp
    · exact Or.inr ⟨hfb, hregions⟩

end Take

end PageCache

end Mymuduo.Memory
