import Mymuduo.Lib.Run
import Mymuduo.Memory.PageAlloc
import Mymuduo.Memory.PageRelease

namespace Mymuduo.Memory

open Lib

namespace PageCache

section Touch

/-! Fields other than the pages of a span outside the buckets may change. -/

variable {c : PageCache} {us free : List Nat} {r : Nat} {s : Span}

theorem setSpan_span (x : Nat) : (c.setSpan r s).span x = if x = r then s else c.span x := by
  simp [setSpan, Function.update_apply]

theorem touch_fields (hfirst : s._pageid = (c.span r)._pageid)
    (hsize : s._npage = (c.span r)._npage) (x : Nat) :
    ((c.setSpan r s).span x)._pageid = (c.span x)._pageid ∧
      ((c.setSpan r s).span x)._npage = (c.span x)._npage := by
  rw [setSpan_span]
  split_ifs with hx
  · rw [hx]
    exact ⟨hfirst, hsize⟩
  · exact ⟨rfl, rfl⟩

theorem pages_touch (hfirst : s._pageid = (c.span r)._pageid)
    (hsize : s._npage = (c.span r)._npage) (x : Nat) : (c.setSpan r s).pages x = c.pages x := by
  simp only [pages, Span.pages, touch_fields hfirst hsize x]

theorem Shape.touch (h : Shape c us) (hr : r ∈ us) (hfirst : s._pageid = (c.span r)._pageid)
    (hsize : s._npage = (c.span r)._npage) : Shape (c.setSpan r s) us := by
  refine h.rehome (List.Perm.refl _) (fun x _ => pages_touch hfirst hsize x) rfl rfl rfl
    ?_ ?_
  · intro k x hx
    have hb := h.bucket k x hx
    have hne : x ≠ r := by
      intro he
      subst he
      exact h.not_linked hr (mem_linked.mpr ⟨k, hb.2.2.1, hx⟩)
    rw [setSpan_span, if_neg hne]
    exact hb
  · intro x hx
    rw [(touch_fields hfirst hsize x).2]
    exact h.sized x hx

theorem Mapped.touch (h : Mapped c us free) (hfirst : s._pageid = (c.span r)._pageid)
    (hsize : s._npage = (c.span r)._npage) : Mapped (c.setSpan r s) us free := by
  have hlast (x : Nat) : ((c.setSpan r s).span x).last = (c.span x).last := by
    simp only [Span.last, touch_fields hfirst hsize x]
  refine ⟨?_, ?_, ?_, h.outside⟩
  · intro x hx
    rw [(touch_fields hfirst hsize x).1]
    exact h.first x hx
  · intro x hx
    rw [hlast]
    exact h.last x hx
  · intro x hx
    rw [hlast]
    exact h.lastHeld x hx

theorem Sound.touch (h : Sound c us) (hr : r ∈ us) (hfirst : s._pageid = (c.span r)._pageid)
    (hsize : s._npage = (c.span r)._npage) (huse : s._isUse = true) :
    Sound (c.setSpan r s) us := by
  refine ⟨h.shape.touch hr hfirst hsize, h.mapped.touch hfirst hsize, ?_⟩
  intro x hx
  rw [setSpan_span]
  split_ifs
  · exact huse
  · exact h.used x hx

end Touch

/-- A span from `new_Span`, marked as used in the same critical section. -/
theorem Allotted.sound {c d : PageCache} {us : List Nat} {n r : Nat} (h : Allotted c d us n r)
    (hu : ∀ x ∈ us, (c.span x)._isUse = true) {s : Span} (hfirst : s._pageid = (d.span r)._pageid)
    (hsize : s._npage = (d.span r)._npage) (huse : s._isUse = true) :
    Sound (d.setSpan r s) (r :: us) := by
  refine ⟨h.shape.touch List.mem_cons_self hfirst hsize, h.mapped.touch hfirst hsize,
    ?_⟩
  intro x hx
  rw [setSpan_span]
  split_ifs with hxr
  · exact huse
  · have hx' := (List.mem_cons.mp hx).resolve_left hxr
    rw [h.frame.spans x hx']
    exact hu x hx'

theorem sound_init : Sound init [] := by
  have hlinked : init.linked = [] := by
    simp [linked, init]
  have hregion : init.regionPages = [] := rfl
  refine ⟨⟨?_, by simp [init], by simp, ?_, ?_, by simp [hregion]⟩, ⟨?_, ?_, by simp,
    fun _ _ => rfl⟩, by simp⟩
  · rw [hlinked, hregion]
    exact ⟨List.Perm.nil, List.nodup_nil⟩
  · rw [hlinked]
    exact List.nodup_nil
  · have hfree : init._freeList = [] := rfl
    simp [hlinked, hfree]
  · simp [hlinked]
  · simp [hlinked]

/-- The pages of the spans in use and of those in the buckets are exactly the pages of the
regions, each once; and every linked span is a free one in the bucket of its size. -/
structure Partitioned (c : PageCache) (inUse : List Nat) : Prop where
  exact : ((inUse ++ c.linked).flatMap c.pages).Perm c.regionPages
  disjoint : c.regionPages.Nodup
  buckets : ∀ k r, r ∈ c._pagelist k → (c.span r)._npage = k ∧ 1 ≤ k ∧ k ≤ 128 ∧
    (c.span r)._isUse = false ∧ r ∉ c._freeList
  once : c.linked.Nodup

theorem Sound.partitioned {c : PageCache} {us : List Nat} (h : Sound c us) : Partitioned c us := by
  have hnd := List.nodup_append.mp h.shape.objects
  refine ⟨h.shape.tiles.perm, h.shape.tiles.nodup, ?_, (List.nodup_append.mp hnd.1).2.1⟩
  intro k r hr
  obtain ⟨hsize, hpos, hlt, huse, -⟩ := h.shape.bucket k r hr
  have hrl : r ∈ us ++ c.linked := List.mem_append_right _ (mem_linked.mpr ⟨k, hlt, hr⟩)
  exact ⟨hsize, hpos, Nat.le_of_lt_succ hlt, huse, fun hf => hnd.2.2 r hrl r hf rfl⟩

instance (c : PageCache) (base : Nat) : Decidable (FreshRegion c base) :=
  inferInstanceAs (Decidable (_ ∧ _))

/-- What `sbrk` must give if `new_Span` calls it. -/
def SbrkOk (c : PageCache) (n base : Nat) : Prop := c.firstBucket n = none → FreshRegion c base

instance (c : PageCache) (n base : Nat) : Decidable (SbrkOk c n base) :=
  inferInstanceAs (Decidable (_ → _))

end PageCache

open PageCache

/-- The page cache with the spans that its callers have. -/
structure PageState where
  cache : PageCache
  inUse : List Nat

inductive PageOp where
  | new_Span (n base : Nat)
  | relase (r : Nat)

namespace PageState

def init : PageState := ⟨PageCache.init, []⟩

/-- A request for 1 to 128 pages, marked as used at once, or a release of a span in use. -/
def step (s : PageState) : PageOp → Option PageState
  | .new_Span n base =>
    if 1 ≤ n ∧ n ≤ 128 ∧ SbrkOk s.cache n base then
      (PageCache.new_Span 2 s.cache n base).map fun (r, c) =>
        ⟨c.setSpan r { c.span r with _isUse := true }, r :: s.inUse⟩
    else none
  | .relase r =>
    if r ∈ s.inUse then (s.cache.relase_to_PageCache r).map fun c => ⟨c, s.inUse.erase r⟩
    else none

/-- Sound, and nobody chains blocks in a span of the cache's callers here. -/
structure Inv (s : PageState) : Prop where
  sound : Sound s.cache s.inUse
  blank : ∀ r ∈ s.inUse, (s.cache.span r).Blank

theorem inv_new {s : PageState} (h : s.Inv) {n base : Nat} (hn : 1 ≤ n) (hlt : n ≤ 128)
    (hb : SbrkOk s.cache n base) :
    ∃ r d, PageCache.new_Span 2 s.cache n base = some (r, d) ∧
      (d.span r)._npage = n ∧ CutFrom s.cache d n base r ∧
      Inv ⟨d.setSpan r { d.span r with _isUse := true }, r :: s.inUse⟩ := by
  obtain ⟨r, d, heq, hall, hfrom⟩ :=
    new_Span_spec h.sound hn (Nat.lt_succ_of_le hlt) hb
  refine ⟨r, d, heq, hall.size, hfrom, hall.sound h.sound.used rfl rfl rfl, ?_⟩
  intro x hx
  rw [setSpan_span]
  split_ifs with hxr
  · exact hall.blank
  · have hx' := (List.mem_cons.mp hx).resolve_left hxr
    rw [hall.frame.spans x hx']
    exact h.blank x hx'

theorem inv_relase {s : PageState} (h : s.Inv) {r : Nat} (hr : r ∈ s.inUse) :
    ∃ d, s.cache.relase_to_PageCache r = some d ∧ Inv ⟨d, s.inUse.erase r⟩ := by
  have hs := h.sound.reorder (List.perm_cons_erase hr)
  obtain ⟨d, heq, hd, hf, -⟩ := relase_spec hs (h.blank r hr)
  refine ⟨d, heq, hd, ?_⟩
  intro x hx
  rw [hf.spans x hx]
  exact h.blank x (List.mem_of_mem_erase hx)

theorem inv_step {s t : PageState} {a : PageOp} (h : s.Inv) (ht : s.step a = some t) : t.Inv := by
  cases a with
  | new_Span n base =>
    simp only [step] at ht
    split_ifs at ht with hg
    obtain ⟨r, d, heq, -, -, hinv⟩ := inv_new h hg.1 hg.2.1 hg.2.2
    rw [heq] at ht
    obtain rfl := Option.some.inj ht
    exact hinv
  | relase r =>
    simp only [step] at ht
    split_ifs at ht with hg
    obtain ⟨d, heq, hinv⟩ := inv_relase h hg
    rw [heq] at ht
    obtain rfl := Option.some.inj ht
    exact hinv

theorem always_inv (as : List PageOp) : Always step Inv init as := by
  apply always_of_step
  · intro s a t hs ht
    exact inv_step hs ht
  · exact ⟨sound_init, by simp [init]⟩

/-- At every point of every run of the page cache its spans partition the regions got from
`sbrk`; every further request for 1 to 128 pages returns a span of that size from the
smallest bucket that can serve, or from a new region when none can; and every release of a
span in use returns. -/
theorem pages_partitioned (as : List PageOp) :
    Always step (fun s => Partitioned s.cache s.inUse ∧
      (∀ n base, 1 ≤ n → n ≤ 128 → SbrkOk s.cache n base →
        ∃ r d, PageCache.new_Span 2 s.cache n base = some (r, d) ∧
          (d.span r)._npage = n ∧ CutFrom s.cache d n base r) ∧
      ∀ r ∈ s.inUse, ∃ d, s.cache.relase_to_PageCache r = some d) init as := by
  refine (always_inv as).mono fun s hs => ⟨hs.sound.partitioned, ?_, ?_⟩
  · intro n base hn hlt hb
    obtain ⟨r, d, heq, hsize, hfrom, -⟩ := inv_new hs hn hlt hb
    exact ⟨r, d, heq, hsize, hfrom⟩
  · intro r hr
    obtain ⟨d, heq, -⟩ := inv_relase hs hr
    exact ⟨d, heq⟩

end PageState

end Mymuduo.Memory
