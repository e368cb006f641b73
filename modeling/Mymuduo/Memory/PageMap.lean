import Mymuduo.Memory.PoolRun

namespace Mymuduo.Memory

open Lib

namespace PageCache

variable {c : PageCache} {us : List Nat} {n : Nat}

/-- Every page of `r` has its entry. -/
def MapsPages (c : PageCache) (r : Nat) : Prop := ∀ p ∈ c.pages r, c._id_span_map p = some r

instance (c : PageCache) (r : Nat) : Decidable (c.MapsPages r) :=
  inferInstanceAs (Decidable (∀ p ∈ c.pages r, _))

/-- Taking a span as it is writes the entry of its first page only, which it had. -/
theorem takeExact_mapsPages (h : Sound c us) {r : Nat} (hr : r ∈ c._pagelist n) :
    (c.takeExact n r).MapsPages r ↔ c.MapsPages r := by
  obtain ⟨hsize, hpos, hlt, -⟩ := h.shape.bucket n r hr
  have hfirst := h.mapped.first r (List.mem_append_right _ (mem_linked.mpr ⟨n, hlt, hr⟩))
  rw [takeExact_eq c (by omega)]
  apply forall₂_congr
  intro p _
  change Function.update c._id_span_map (c.span r)._pageid (some r) p = some r ↔ _
  by_cases hp : p = (c.span r)._pageid
  · rw [hp, Function.update_self, hfirst]
  · rw [Function.update_of_ne hp]

/-- A span cut from another one has the entries of all its pages. -/
theorem takeCut_mapsPages {i r : Nat} (hne : c.newRef ≠ r) (hn : n < (c.span r)._npage) :
    (c.takeCut n i r).MapsPages c.newRef := by
  intro p hp
  unfold pages at hp
  rw [takeCut_span hne, if_neg hne, if_pos rfl] at hp
  rw [takeCut_map hne hn, if_pos (Span.mem_pages.mp hp)]

/-- The span that `new_Span` gives has all its entries, unless it is the front span of the
bucket for its size and lacked some there. -/
theorem new_Span_mapsPages (h : Sound c us) (hn : 1 ≤ n) (hlt : n < NPAGES - 1) {base r : Nat}
    {d : PageCache} (hb : SbrkOk c n base) (hd : new_Span 2 c n base = some (r, d)) :
    d.MapsPages r ↔ ∀ x ∈ (c._pagelist n).head?, c.MapsPages x := by
  have hsmall : ¬ n ≥ NPAGES := by omega
  simp only [new_Span, hsmall, if_false] at hd
  cases hfb : c.firstBucket n with
  | some found =>
    obtain ⟨i, s⟩ := found
    obtain ⟨hi, hiN, hhead, hempty⟩ := firstBucket_eq_some hfb
    have hs : s ∈ c._pagelist i := List.mem_of_mem_head? hhead
    rw [hfb] at hd
    by_cases hin : i = n
    · subst hin
      obtain ⟨rfl, rfl⟩ := Prod.mk.inj (Option.some.inj ((if_pos rfl).symm.trans hd))
      rw [takeExact_mapsPages h hs]
      refine ⟨?_, fun hm => hm s hhead⟩
      intro hm x hx
      obtain rfl := Option.some.inj (hhead.symm.trans hx)
      exact hm
    · obtain ⟨rfl, rfl⟩ := Prod.mk.inj (Option.some.inj ((if_neg hin).symm.trans hd))
      have hne : c.newRef ≠ s := by
        intro he
        subst he
        exact h.shape.newRef_fresh (List.mem_append_right _ (mem_linked.mpr ⟨i, hiN, hs⟩))
      have hsize := (h.shape.bucket i s hs).1
      apply iff_of_true (takeCut_mapsPages hne (by omega))
      intro x hx
      rw [hempty n le_rfl (by omega)] at hx
      simp at hx
  | none =>
    have hempty := firstBucket_eq_none hfb
    have hshape := refill_shape h.shape (hb hfb)
    have hs : c.newRef ∈ (c.refill base)._pagelist (NPAGES - 1) := by simp [refill_front]
    have hin : ¬ NPAGES - 1 = n := by omega
    rw [hfb, firstBucket_refill base (by omega) hempty] at hd
    obtain ⟨rfl, rfl⟩ := Prod.mk.inj (Option.some.inj ((if_neg hin).symm.trans hd))
    have hne : (c.refill base).newRef ≠ c.newRef := by
      intro he
      refine hshape.newRef_fresh (List.mem_append_right _ (mem_linked.mpr ⟨NPAGES - 1, ?_, ?_⟩))
      · unfold NPAGES
        omega
      · rwa [he]
    have hsize := (hshape.bucket _ _ hs).1
    apply iff_of_true (takeCut_mapsPages hne (by omega))
    intro x hx
    rw [hempty n le_rfl (by omega)] at hx
    simp at hx

end PageCache

open PageCache

namespace Pool

variable {T : Type}

/-- The page map is right for every span in use: each of its pages and each of its blocks
leads to it, and it is not an object of `_spanPool`'s free list. -/
structure MapExact (s : Pool T) : Prop where
  pages : ∀ r ∈ s.inUse, ∀ p ∈ s.cache.pages r, s.cache.get p = some r
  objects : ∀ r ∈ s.inUse, ∀ b ∈ s.own r, s.map_object_to_Span b = some r
  alive : ∀ r ∈ s.inUse, r ∉ s.cache._freeList

/-- If `new_Span` is called next and the bucket for the wanted size has a span, then its
front span has the entries of all its pages already. -/
def HitMapped (s : Pool T) : PoolAction T → Prop
  | .next t _ => ∀ size num, (s.thread t).place = .needSpan size num →
    ∀ r ∈ (s.cache._pagelist (num_move_page size)).head?, s.cache.MapsPages r
  | _ => True

def Entries (s : Pool T) : Prop := ∀ r ∈ s.inUse, s.cache.MapsPages r

theorem Inv.mapExact_iff [Fintype T] {s : Pool T} (h : Inv s) : s.MapExact ↔ s.Entries := by
  have hget {r p : Nat} (hr : r ∈ s.inUse) (hp : p ∈ s.cache.pages r) :
      s.cache.get p = s.cache._id_span_map p :=
    get_of_lt (h.sound.shape.bounded p
      (h.sound.shape.tiles.mem_total (List.mem_append_left _ hr) hp))
  constructor
  · intro hm r hr p hp
    rw [← hget hr hp]
    exact hm.pages r hr p hp
  · intro he
    refine ⟨?_, ?_, ?_⟩
    · intro r hr p hp
      rw [hget hr hp]
      exact he r hr p hp
    · intro r hr b hb
      have hp := h.page_of_own hr hb
      exact (hget hr hp).trans (he r hr _ hp)
    · intro r hr hf
      exact (List.nodup_append.mp h.sound.shape.objects).2.2 r (List.mem_append_left _ hr) r hf rfl

theorem MapExact.mapsLive [Fintype T] {s : Pool T} (h : Inv s) (hm : s.MapExact) : s.MapsLive :=
  fun r hr b hb _ => hm.objects r (h.core.carved_inUse hr) b hb

/-- Steps that neither write the page map nor change which pages the spans in use have. -/
structure SameMap (s s' : Pool T) : Prop where
  inUse : s'.inUse = s.inUse
  map : s'.cache._id_span_map = s.cache._id_span_map
  pages : s'.cache.pages = s.cache.pages

namespace SameMap

variable {s s' s'' : Pool T}

theorem trans (h : SameMap s s') (h' : SameMap s' s'') : SameMap s s'' :=
  ⟨h'.inUse.trans h.inUse, h'.map.trans h.map, h'.pages.trans h.pages⟩

theorem entries (h : SameMap s s') : s'.Entries ↔ s.Entries := by
  simp only [Entries, MapsPages, h.inUse, h.map, h.pages]

variable [DecidableEq T]

theorem takeRange (s : Pool T) (t : T) (size num r : Nat) :
    SameMap s (s.takeRange t size num r) :=
  ⟨rfl, rfl, funext fun y => pages_touch (by rfl) (by rfl) y⟩

theorem retire (s : Pool T) (t : T) (size r : Nat) (rest : List Nat) :
    SameMap s (s.retire t size r rest) :=
  ⟨rfl, rfl, funext fun y => pages_touch (by rfl) (by rfl) y⟩

theorem fetch_range_obj (s : Pool T) (t : T) (size num : Nat) :
    SameMap s (s.fetch_range_obj t size num) := by
  unfold Pool.fetch_range_obj
  split
  · exact takeRange s t size num _
  · exact ⟨rfl, rfl, rfl⟩

theorem Allocate (s : Pool T) (t : T) (size : Nat) : SameMap s (s.Allocate t size) := by
  simp only [Pool.Allocate]
  split <;> exact ⟨rfl, rfl, rfl⟩

theorem deallocate {t : T} {ptr : Nat} (h : s.deallocate t ptr = some s') : SameMap s s' := by
  obtain ⟨r, -, rfl⟩ := Option.map_eq_some_iff.mp h
  simp only [deallocateSize]
  split_ifs <;> exact ⟨rfl, rfl, rfl⟩

theorem finishFetch {t : T} {size : Nat} {chain : List Nat}
    (h : s.finishFetch t size chain = some s') : SameMap s s' := by
  cases chain with
  | nil => simp [Pool.finishFetch] at h
  | cons obj rest =>
    obtain rfl := Option.some.inj h
    split_ifs <;> exact ⟨rfl, rfl, rfl⟩

theorem releaseBlock {t : T} {size obj : Nat} {rest : List Nat}
    (h : s.releaseBlock t size obj rest = some s') : SameMap s s' := by
  obtain ⟨r, -, rfl⟩ := Option.map_eq_some_iff.mp h
  have hback : SameMap s (s.setSpan r { s.cache.span r with
      _objlist := obj :: (s.cache.span r)._objlist
      _usecount := decrement (s.cache.span r)._usecount }) :=
    ⟨rfl, rfl, funext fun y => pages_touch (by rfl) (by rfl) y⟩
  dsimp only
  split_ifs
  · exact hback.trans (retire _ t size r rest)
  · exact hback.trans ⟨rfl, rfl, rfl⟩

end SameMap

namespace Inv

variable [Fintype T] [DecidableEq T] {s : Pool T}

theorem entries_newSpan (h : Inv s) (he : s.Entries) {t : T} {size num base : Nat}
    (hplace : (s.thread t).place = .needSpan size num)
    (hb : SbrkOk s.cache (num_move_page size) base) {s' : Pool T}
    (hs' : s.newSpan t size num base = some s') :
    s'.Entries ↔ ∀ r ∈ (s.cache._pagelist (num_move_page size)).head?, s.cache.MapsPages r := by
  have hv : ValidSize size := h.consistent hplace
  have hn := num_move_page_bounds hv.1 hv.2
  have hlt : num_move_page size < NPAGES - 1 := by
    unfold NPAGES
    omega
  obtain ⟨r, d, heq, hall, -⟩ := new_Span_spec h.sound hn.1 (by omega) hb
  simp only [newSpan, heq, Option.map_some, Option.some.injEq] at hs'
  subst hs'
  rw [← new_Span_mapsPages h.sound hn.1 hlt hb heq]
  have hpages (x : Nat) : (d.setSpan r { d.span r with _isUse := true, _objsize := size }).MapsPages
      x ↔ d.MapsPages x := by
    have hsame : (d.setSpan r { d.span r with _isUse := true, _objsize := size }).pages x =
        d.pages x := pages_touch (by rfl) (by rfl) x
    unfold MapsPages
    rw [hsame]
    rfl
  have hold : ∀ x ∈ s.inUse, d.MapsPages x := by
    intro x hx p hp
    have hp' : p ∈ s.cache.pages x := by
      unfold pages at hp ⊢
      rwa [← hall.frame.spans x hx]
    rw [hall.frame.entries x hx p hp']
    exact he x hx p hp'
  constructor
  · intro hm
    exact (hpages r).mp (hm r List.mem_cons_self)
  · intro hm x hx
    apply (hpages x).mpr
    rcases List.mem_cons.mp hx with rfl | hx
    · exact hm
    · exact hold x hx

theorem entries_returnSpan (h : Inv s) (he : s.Entries) {t : T} {size r : Nat} {rest : List Nat}
    (hplace : (s.thread t).place = .returning size r rest) {s' : Pool T}
    (hs' : s.returnSpan t size r rest = some s') : s'.Entries := by
  have hbare : r ∈ (s.thread t).place.bare := by simp [hplace, Place.bare]
  obtain ⟨d, heq, -, hf⟩ := h.relase_inUse hbare
  simp only [returnSpan, heq, Option.map_some, Option.some.injEq] at hs'
  subst hs'
  intro x hx p hp
  have hp' : p ∈ s.cache.pages x := by
    change p ∈ d.pages x at hp
    unfold pages at hp ⊢
    rwa [← hf.spans x hx]
  change d._id_span_map p = some x
  rw [hf.entries x hx p hp']
  exact he x (List.mem_of_mem_erase hx) p hp'

/-- One step keeps the page map right exactly when it meets the condition. -/
theorem entries_step (h : Inv s) (he : s.Entries) {a : PoolAction T} {s' : Pool T}
    (hs' : s.step a = some s') : s'.Entries ↔ s.HitMapped a := by
  cases a with
  | Allocate t size =>
    simp only [step] at hs'
    split_ifs at hs'
    obtain rfl := Option.some.inj hs'
    exact iff_of_true ((SameMap.Allocate s t size).entries.mpr he) trivial
  | deallocate t ptr =>
    simp only [step] at hs'
    split_ifs at hs'
    exact iff_of_true ((SameMap.deallocate hs').entries.mpr he) trivial
  | next t base =>
    simp only [step, advance] at hs'
    simp only [HitMapped]
    split at hs'
    case h_1 => simp at hs'
    case h_2 size num hplace =>
      obtain rfl := Option.some.inj hs'
      apply iff_of_true ((SameMap.fetch_range_obj s t size num).entries.mpr he)
      simp [hplace]
    case h_3 size num hplace =>
      split_ifs at hs' with hb
      rw [h.entries_newSpan he hplace hb hs']
      simp [hplace]
    case h_4 size num r hplace =>
      obtain rfl := Option.some.inj hs'
      have hsame : SameMap s (s.carve t size num r) :=
        ⟨rfl, rfl, funext fun y => pages_touch (by rfl) (by rfl) y⟩
      apply iff_of_true (hsame.entries.mpr he)
      simp [hplace]
    case h_5 size num r hplace =>
      obtain rfl := Option.some.inj hs'
      have hsame : SameMap s (s.linkSpan t size num r) :=
        ⟨rfl, rfl, funext fun y => pages_touch (by rfl) (by rfl) y⟩
      refine iff_of_true (hsame.entries.mpr he) ?_
      simp [hplace]
    case h_6 size chain hplace =>
      apply iff_of_true ((SameMap.finishFetch hs').entries.mpr he)
      simp [hplace]
    case h_7 size hplace =>
      obtain rfl := Option.some.inj hs'
      apply iff_of_true (SameMap.entries ⟨rfl, rfl, rfl⟩ |>.mpr he)
      simp [hplace]
    case h_8 size obj rest hplace =>
      apply iff_of_true ((SameMap.releaseBlock hs').entries.mpr he)
      simp [hplace]
    case h_9 size r rest hplace =>
      apply iff_of_true (h.entries_returnSpan he hplace hs')
      simp [hplace]

end Inv

variable [Fintype T] [DecidableEq T]

/-- Along every run the page map is right for every span in use in every state, exactly when
each call of `new_Span` that finds the bucket for its size filled gets a span there that has
the entries of all its pages. -/
theorem page_map_exact_iff (as : List (PoolAction T)) :
    Always step MapExact init as ↔ Each step HitMapped init as := by
  refine always_iff_each (I := Inv) ?_ ?_
    Inv.inv_init ?_ as
  · intro s a t hs hm ht _
    exact hs.inv_step (hm.mapsLive hs) ht
  · intro s a t hs hm ht
    have ht' := hs.inv_step (hm.mapsLive hs) ht
    rw [ht'.mapExact_iff]
    exact hs.entries_step (hs.mapExact_iff.mp hm) ht
  · apply Inv.inv_init.mapExact_iff.mpr
    intro r hr
    simp [init] at hr

/-- Two spans of 64 pages come from the first region. The rear one was left over by the cut,
with entries for its ends only, and its second block, with the user, has no span. -/
theorem second_span_unmapped : ∃ s : Pool Unit,
    run step init [.Allocate () 262144, .next () 1, .next () 1, .next () 1, .next () 1, .next () 1,
      .Allocate () 262144, .next () 1, .next () 1,
      .Allocate () 262144, .next () 1, .next () 1, .next () 1, .next () 1, .next () 1,
      .Allocate () 262144] = some s ∧
    1 ∈ s.inUse ∧ 97 ∈ s.cache.pages 1 ∧ s.cache.get 97 = none ∧
    794624 ∈ s.held ∧ 794624 ∈ s.own 1 ∧ s.map_object_to_Span 794624 = none := by
  have hrun : ((run step init [.Allocate () 262144, .next () 1, .next () 1, .next () 1, .next () 1,
      .next () 1, .Allocate () 262144, .next () 1, .next () 1,
      .Allocate () 262144, .next () 1, .next () 1, .next () 1, .next () 1, .next () 1,
      .Allocate () 262144]).any fun s : Pool Unit => decide (
        1 ∈ s.inUse ∧ 97 ∈ s.cache.pages 1 ∧ s.cache.get 97 = none ∧
        794624 ∈ s.held ∧ 794624 ∈ s.own 1 ∧ s.map_object_to_Span 794624 = none)) = true := by
    decide +kernel
  simpa only [Option.any_eq_true, decide_eq_true_eq] using hrun

end Pool

end Mymuduo.Memory
