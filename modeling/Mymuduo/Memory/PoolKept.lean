import Mymuduo.Memory.ConcurrentAlloc

namespace Mymuduo.Memory

open Lib PageCache

/-- A size that a user may ask for and that fits in the last block of a span of its class. -/
def Fits (size : Nat) : Prop :=
  1 ≤ size ∧ size ≤ MAXBYTES ∧
    (num_move_page (round_up size) <<< PAGE_SHIFT - 1) / round_up size * round_up size + size ≤
      num_move_page (round_up size) <<< PAGE_SHIFT

instance (size : Nat) : Decidable (Fits size) := inferInstanceAs (Decidable (_ ∧ _))

theorem Fits.isClass {size : Nat} (h : Fits size) : IsClass (round_up size) :=
  isClass_round_up h.1 h.2.1

/-- The span is one that `get_one_Span` asks for. -/
structure Span.OfClass (x : Span) : Prop where
  isClass : IsClass x._objsize
  npage : x._npage = num_move_page x._objsize

theorem Span.SameExtent.ofClass {x y : Span} (h : x.SameExtent y) (hy : y.OfClass) :
    x.OfClass := by
  constructor
  · rw [h.objsize]
    exact hy.isClass
  · rw [h.objsize, h.npage]
    exact hy.npage

/-- A block of the span's class has room for what was asked for. -/
theorem Span.OfClass.room {x : Span} (h : x.OfClass) {size b : Nat}
    (hsize : x._objsize = round_up size) (hfits : Fits size) (hb : b ∈ x.blocks) :
    x._pageid <<< PAGE_SHIFT ≤ b ∧ b + size ≤ (x._pageid + x._npage) <<< PAGE_SHIFT := by
  have hpages := num_move_page_bounds h.isClass.pos h.isClass.le
  have hbounds := Span.block_bounds (by rw [h.npage]; exact hpages.1) h.isClass.pos hb
  have hlast := hfits.2.2
  rw [h.npage, hsize] at hbounds
  rw [Span.end_eq, h.npage, hsize]
  omega

/-- A thread in `fetch_from_CentralCache` works for the size `req`, and will have a block. -/
def Place.WorksFor (req : Nat) : Place → Prop
  | .fetching size num => size = round_up req ∧ Fits req ∧ 1 ≤ num
  | .needSpan size num => size = round_up req ∧ Fits req ∧ 1 ≤ num
  | .carving size num _ => size = round_up req ∧ Fits req ∧ 1 ≤ num
  | .linking size num _ => size = round_up req ∧ Fits req ∧ 1 ≤ num
  | .fetched size chain => size = round_up req ∧ Fits req ∧ chain ≠ []
  | _ => True

namespace Pool

variable {T : Type}

/-- What the pool keeps besides `Inv`, as long as only sizes that fit are asked for. -/
structure Kept (s : Pool T) (req : T → Nat) (asked : Nat → Nat) : Prop where
  spans : ∀ r ∈ s.inUse, (s.cache.span r).OfClass
  lists : ∀ t i, ((s.thread t)._freelist i).Counted
  places : ∀ t, (s.thread t).place.WorksFor (req t)
  noted : ∀ b ∈ s.held, ∀ r ∈ s.carved, b ∈ s.own r →
    (s.cache.span r)._objsize = round_up (asked b) ∧ Fits (asked b)

namespace Kept

variable {s : Pool T} {req : T → Nat} {asked : Nat → Nat}

theorem init : Kept (init : Pool T) req asked := by
  refine ⟨?_, fun _ _ => FreeList.Counted.empty, fun _ => trivial, ?_⟩
  · simp [Pool.init]
  · simp [Pool.init]

/-- What was asked for is still known where blocks only come back. -/
theorem noted_of_subset (h : Kept s req asked) (s' : Pool T)
    (hheld : ∀ b ∈ s'.held, b ∈ s.held)
    (hcarved : ∀ r ∈ s'.carved, r ∈ s.carved ∧ (s'.cache.span r).SameExtent (s.cache.span r)) :
    ∀ b ∈ s'.held, ∀ r ∈ s'.carved, b ∈ s'.own r →
      (s'.cache.span r)._objsize = round_up (asked b) ∧ Fits (asked b) := by
  intro b hb r hr hown
  obtain ⟨hr', hext⟩ := hcarved r hr
  rw [hext.objsize]
  apply h.noted b (hheld b hb) r hr'
  rw [own] at hown ⊢
  rwa [← hext.blocks]

/-- A block of the right class is handed out. -/
theorem noted_cons (h : Kept s req asked) (obj : Nat) {size : Nat} (hfits : Fits size)
    (hobj : ∀ r ∈ s.carved, obj ∈ s.own r → (s.cache.span r)._objsize = round_up size) :
    ∀ b ∈ obj :: s.held, ∀ r ∈ s.carved, b ∈ s.own r →
      (s.cache.span r)._objsize = round_up (Function.update asked obj size b) ∧
        Fits (Function.update asked obj size b) := by
  intro b hb r hr hown
  by_cases hbo : b = obj
  · subst hbo
    rw [Function.update_self]
    exact ⟨hobj r hr hown, hfits⟩
  · rw [Function.update_of_ne hbo]
    exact h.noted b ((List.mem_cons.mp hb).resolve_left hbo) r hr hown

theorem lists_update (h : Kept s req asked) {t : T} {i : Nat} {l : FreeList} (hl : l.Counted)
    (j : Nat) : (Function.update (s.thread t)._freelist i l j).Counted := by
  by_cases hj : j = i
  · subst hj
    rw [Function.update_self]
    exact hl
  · rw [Function.update_of_ne hj]
    exact h.lists t j

theorem setSpan (h : Kept s req asked) {r : Nat} {x : Span}
    (hext : x.SameExtent (s.cache.span r)) : Kept (s.setSpan r x) req asked := by
  refine ⟨?_, h.lists, h.places, ?_⟩
  · intro y hy
    exact (s.setSpan_extent hext y).ofClass (h.spans y hy)
  · apply h.noted_of_subset (s.setSpan r x) (fun b hb => hb)
    intro y hy
    exact ⟨hy, s.setSpan_extent hext y⟩

variable [DecidableEq T]

/-- A step of one thread. -/
theorem change (h : Kept s req asked) {s' : Pool T} {t : T} {c : ThreadCache}
    {asked' : Nat → Nat} (hthread : s'.thread = Function.update s.thread t c)
    (hspans : ∀ r ∈ s'.inUse, (s'.cache.span r).OfClass)
    (hlists : ∀ i, (c._freelist i).Counted) (hplace : c.place.WorksFor (req t))
    (hnoted : ∀ b ∈ s'.held, ∀ r ∈ s'.carved, b ∈ s'.own r →
      (s'.cache.span r)._objsize = round_up (asked' b) ∧ Fits (asked' b)) :
    Kept s' req asked' := by
  refine ⟨hspans, ?_, ?_, hnoted⟩
  · intro u i
    rw [hthread]
    by_cases hu : u = t
    · subst hu
      rw [Function.update_self]
      exact hlists i
    · rw [Function.update_of_ne hu]
      exact h.lists u i
  · intro u
    rw [hthread]
    by_cases hu : u = t
    · subst hu
      rw [Function.update_self]
      exact hplace
    · rw [Function.update_of_ne hu]
      exact h.places u

/-- A thread that is in no call starts one. -/
theorem ask (h : Kept s req asked) {t : T} (hidle : (s.thread t).place = .idle) (size : Nat) :
    Kept s (Function.update req t size) asked := by
  refine ⟨h.spans, h.lists, ?_, h.noted⟩
  intro u
  by_cases hu : u = t
  · subst hu
    rw [hidle]
    trivial
  · rw [Function.update_of_ne hu]
    exact h.places u

/-- A thread goes on to its next place, and no more. -/
theorem goOn (h : Kept s req asked) {t : T} {p : Place} (hp : p.WorksFor (req t)) :
    Kept (s.setPlace t p) req asked := by
  apply h.change rfl
  · exact h.spans
  · exact h.lists t
  · exact hp
  · exact h.noted

theorem takeRange (h : Kept s req asked) {t : T} {size num r : Nat} (hsize : size = round_up (req t))
    (hfits : Fits (req t)) (hnum : 1 ≤ num) (hfull : (s.cache.span r)._objlist ≠ []) :
    Kept (s.takeRange t size num r) req asked := by
  have hset := h.setSpan (r := r) (x := { s.cache.span r with
    _objlist := (s.cache.span r)._objlist.drop num
    _usecount := (s.cache.span r)._usecount + ((s.cache.span r)._objlist.take num).length })
    ⟨rfl, rfl, rfl⟩
  refine hset.goOn (p := .fetched size ((s.cache.span r)._objlist.take num)) ⟨hsize, hfits, ?_⟩
  intro hnil
  rcases List.take_eq_nil_iff.mp hnil with hzero | hempty
  · omega
  · exact hfull hempty

theorem fetch_range_obj (h : Kept s req asked) {t : T} {size num : Nat}
    (hplace : (s.thread t).place = .fetching size num) :
    Kept (s.fetch_range_obj t size num) req asked := by
  have hwork := h.places t
  rw [hplace] at hwork
  obtain ⟨hsize, hfits, hnum⟩ := hwork
  rw [Pool.fetch_range_obj]
  cases hfind : s.findSpan (index size) with
  | some r =>
    have hfull := List.find?_some hfind
    exact h.takeRange hsize hfits hnum (by simpa using hfull)
  | none => exact h.goOn ⟨hsize, hfits, hnum⟩

theorem Allocate (h : Kept s req asked) [Fintype T] (hinv : Inv s) {t : T} {size : Nat}
    (hidle : (s.thread t).place = .idle) (hfits : Fits size) :
    Kept (s.Allocate t size) (Function.update req t size)
      (Heap.noted asked size ((s.thread t)._freelist (index (round_up size))).chain) := by
  have hask := h.ask hidle size
  simp only [Pool.Allocate]
  cases hchain : ((s.thread t)._freelist (index (round_up size))).chain with
  | cons obj rest =>
    have hpop := (h.lists t (index (round_up size))).pop
    rw [FreeList.pop, hchain] at hpop
    apply hask.change rfl
    · exact h.spans
    · exact h.lists_update hpop
    · rw [hidle]
      trivial
    · apply h.noted_cons obj hfits
      intro r hr hown
      apply index_inj (h.spans r (hinv.core.carved_inUse hr)).isClass hfits.isClass
      apply hinv.core.free t _ obj r _ hr hown
      rw [hchain]
      exact List.mem_cons_self
  | nil =>
    have hone := (h.lists t (index (round_up size))).grown
    simp only [startFetch]
    rw [setFreeList_setPlace]
    apply hask.change rfl
    · exact h.spans
    · exact h.lists_update ((h.lists t _).grow _)
    · rw [Function.update_self]
      refine ⟨rfl, hfits, Nat.le_min.mpr ⟨?_, hone⟩⟩
      rw [num_move_size]
      omega
    · exact h.noted

theorem deallocateSize (h : Kept s req asked) {t : T} (hidle : (s.thread t).place = .idle)
    (ptr size : Nat) : Kept (s.deallocateSize t ptr size) req asked := by
  have hpush := (h.lists t (index size)).push ptr
  have hnoted := h.noted_of_subset { s with held := s.held.erase ptr }
    (fun b hb => List.mem_of_mem_erase hb) fun r hr => ⟨hr, rfl, rfl, rfl⟩
  simp only [Pool.deallocateSize]
  split_ifs
  · rw [setFreeList_setPlace]
    apply h.change rfl
    · exact h.spans
    · exact h.lists_update (hpush.PopRange _)
    · trivial
    · exact hnoted
  · apply h.change rfl
    · exact h.spans
    · exact h.lists_update hpush
    · rw [hidle]
      trivial
    · exact hnoted

theorem linkSpan (h : Kept s req asked) [Fintype T] (hinv : Inv s) {t : T} {size num r : Nat}
    (hplace : (s.thread t).place = .linking size num r) :
    Kept (s.linkSpan t size num r) req asked := by
  have hwork := h.places t
  rw [hplace] at hwork
  obtain ⟨hsize, hfits, hnum⟩ := hwork
  have hunlinked : r ∈ (s.thread t).place.unlinked := by simp [hplace, Place.unlinked]
  have hfill := (hinv.core.filled r (hinv.core.unlinked_carved hunlinked)).counted
  have hzero := hinv.core.full t r hunlinked
  have hfull : (s.cache.span r)._objlist ≠ [] := by
    intro hnil
    rw [hzero, hnil, Span.blocks] at hfill
    simp at hfill
  have hlinked : Kept
      { s with
        _spanlist := Function.update s._spanlist (index size) (r :: s._spanlist (index size)) }
      req asked := ⟨h.spans, h.lists, h.places, h.noted⟩
  exact hlinked.takeRange hsize hfits hnum hfull

theorem carve (h : Kept s req asked) [Fintype T] (hinv : Inv s) {t : T} {size num r : Nat}
    (hplace : (s.thread t).place = .carving size num r) :
    Kept (s.carve t size num r) req asked := by
  have hwork := h.places t
  rw [hplace] at hwork
  have hset := h.setSpan (r := r) (x := { s.cache.span r with
    _objlist := (s.cache.span r).blocks }) ⟨rfl, rfl, rfl⟩
  have hown : (s.setSpan r { s.cache.span r with _objlist := (s.cache.span r).blocks }).own =
      s.own := s.own_setSpan ⟨rfl, rfl, rfl⟩
  have hbare : r ∈ (s.thread t).place.bare := by simp [hplace, Place.bare]
  apply hset.change rfl
  · exact hset.spans
  · exact h.lists t
  · exact hwork
  · intro b hb y hy hby
    change b ∈ (s.setSpan r _).own y at hby
    rcases List.mem_cons.mp hy with rfl | hy
    · rw [hown] at hby
      have hzero := hinv.places_bare hbare hby
      have hheld : b ∈ s.held := hb
      have hpos := List.count_pos_iff.mpr hheld
      rw [Pool.places] at hzero
      omega
    · exact hset.noted b hb y hy hby

theorem finishFetch (h : Kept s req asked) [Fintype T] (hinv : Inv s) {t : T} {size : Nat}
    {chain : List Nat} (hplace : (s.thread t).place = .fetched size chain) {s' : Pool T}
    (hs' : s.finishFetch t size chain = some s') :
    Kept s' req (Heap.noted asked (req t) chain) := by
  have hwork := h.places t
  rw [hplace] at hwork
  obtain ⟨hsize, hfits, -⟩ := hwork
  have hmoving := hinv.core.moving t
  rw [hplace] at hmoving
  cases chain with
  | nil => simp [Pool.finishFetch] at hs'
  | cons obj rest =>
    obtain rfl := Option.some.inj hs'
    have hnoted := h.noted_cons obj hfits ?_
    · split_ifs
      · apply h.change rfl
        · exact h.spans
        · exact h.lists t
        · trivial
        · exact hnoted
      · rw [setFreeList_setPlace]
        apply h.change rfl
        · exact h.spans
        · exact h.lists_update ((h.lists t _).PushRange rest)
        · trivial
        · exact hnoted
    · intro r hr hown
      apply index_inj (h.spans r (hinv.core.carved_inUse hr)).isClass hfits.isClass
      rw [← hsize]
      exact hmoving obj r List.mem_cons_self hr hown

theorem releaseBlock (h : Kept s req asked) {t : T} {size obj : Nat} {rest : List Nat}
    {s' : Pool T} (hs' : s.releaseBlock t size obj rest = some s') : Kept s' req asked := by
  obtain ⟨r, -, rfl⟩ := Option.map_eq_some_iff.mp hs'
  have hset := h.setSpan (r := r) (x := { s.cache.span r with
    _objlist := obj :: (s.cache.span r)._objlist
    _usecount := decrement (s.cache.span r)._usecount }) ⟨rfl, rfl, rfl⟩
  dsimp only
  split_ifs
  · have hdrop := hset.setSpan (r := r) (x := { (s.setSpan r { s.cache.span r with
      _objlist := obj :: (s.cache.span r)._objlist
      _usecount := decrement (s.cache.span r)._usecount }).cache.span r with _objlist := [] })
      ⟨rfl, rfl, rfl⟩
    apply hdrop.change rfl
    · exact hdrop.spans
    · exact hdrop.lists t
    · trivial
    · intro b hb y hy hby
      exact hdrop.noted b hb y (List.mem_of_mem_erase hy) hby
  · exact hset.goOn trivial

theorem newSpan (h : Kept s req asked) [Fintype T] (hinv : Inv s) {t : T} {size num base : Nat}
    (hplace : (s.thread t).place = .needSpan size num)
    (hb : SbrkOk s.cache (num_move_page size) base) {s' : Pool T}
    (hs' : s.newSpan t size num base = some s') : Kept s' req asked := by
  have hwork := h.places t
  rw [hplace] at hwork
  have hclass : IsClass size := by
    rw [hwork.1]
    exact hwork.2.1.isClass
  obtain ⟨r, d, heq, hall, hnot⟩ := hinv.new_Span_allotted hplace hb
  have hold : ∀ y ∈ s.inUse,
      (d.setSpan r { d.span r with _isUse := true, _objsize := size }).span y = s.cache.span y := by
    intro y hy
    have hne : y ≠ r := fun he => hnot (he ▸ hy)
    rw [setSpan_span, if_neg hne]
    exact hall.frame.spans y hy
  simp only [Pool.newSpan, heq, Option.map_some, Option.some.injEq] at hs'
  subst hs'
  apply h.change rfl
  · intro y hy
    rcases List.mem_cons.mp hy with rfl | hy
    · change ((d.setSpan y _).span y).OfClass
      rw [setSpan_span, if_pos rfl]
      exact ⟨hclass, hall.size⟩
    · change ((d.setSpan r _).span y).OfClass
      rw [hold y hy]
      exact h.spans y hy
  · exact h.lists t
  · exact hwork
  · intro b hb y hy hby
    have hspan := hold y (hinv.core.carved_inUse hy)
    change b ∈ ((d.setSpan r _).span y).blocks at hby
    change ((d.setSpan r _).span y)._objsize = _ ∧ _
    rw [hspan] at hby ⊢
    exact h.noted b hb y hy hby

theorem returnSpan (h : Kept s req asked) [Fintype T] (hinv : Inv s) {t : T} {size r : Nat}
    {rest : List Nat} (hplace : (s.thread t).place = .returning size r rest) {s' : Pool T}
    (hs' : s.returnSpan t size r rest = some s') : Kept s' req asked := by
  have hbare : r ∈ (s.thread t).place.bare := by simp [hplace, Place.bare]
  obtain ⟨d, heq, -, hf⟩ := hinv.relase_inUse hbare
  simp only [Pool.returnSpan, heq, Option.map_some, Option.some.injEq] at hs'
  subst hs'
  apply h.change rfl
  · intro y hy
    change (d.span y).OfClass
    rw [hf.spans y hy]
    exact h.spans y (List.mem_of_mem_erase hy)
  · exact h.lists t
  · trivial
  · intro b hb y hy hby
    have hne : y ≠ r := fun he => hinv.bare_not_carved hbare (he ▸ hy)
    have hspan := hf.spans y ((List.mem_erase_of_ne hne).mpr (hinv.core.carved_inUse hy))
    change b ∈ (d.span y).blocks at hby
    change (d.span y)._objsize = _ ∧ _
    rw [hspan] at hby ⊢
    exact h.noted b hb y hy hby

omit req asked in
@[simp] theorem place_setPlace (s : Pool T) (t : T) (p : Place) :
    ((s.setPlace t p).thread t).place = p := by
  simp [setPlace, setThread]

variable [Fintype T]

/-- A thread in a call goes through its next critical section, and comes closer to the end of
the call. -/
theorem advance (h : Kept s req asked) (hinv : Inv s) (hm : s.MapsLive) {t : T} {base : Nat}
    (hbusy : (s.thread t).place ≠ .idle)
    (hsbrk : ∀ size num, (s.thread t).place = .needSpan size num →
      SbrkOk s.cache (num_move_page size) base) :
    ∃ s', s.advance t base = some s' ∧
      Kept s' req (Heap.noted asked (req t) (s.thread t).place.handed) ∧
      (s'.thread t).place.rank < (s.thread t).place.rank := by
  rw [Pool.advance]
  cases hplace : (s.thread t).place with
  | idle => exact absurd hplace hbusy
  | fetching size num =>
    refine ⟨_, rfl, h.fetch_range_obj hplace, ?_⟩
    rw [Pool.fetch_range_obj]
    split
    · simp [Pool.takeRange, Place.rank]
    · simp [Place.rank]
  | needSpan size num =>
    have hb := hsbrk size num hplace
    obtain ⟨s', hs', -⟩ := hinv.inv_newSpan hplace hb
    refine ⟨s', (if_pos hb).trans hs', h.newSpan hinv hplace hb hs', ?_⟩
    obtain ⟨x, -, rfl⟩ := Option.map_eq_some_iff.mp hs'
    simp [Place.rank]
  | carving size num r =>
    refine ⟨_, rfl, h.carve hinv hplace, ?_⟩
    simp [Pool.carve, Place.rank]
  | linking size num r =>
    refine ⟨_, rfl, h.linkSpan hinv hplace, ?_⟩
    simp [Pool.linkSpan, Pool.takeRange, Place.rank]
  | fetched size chain =>
    have hwork := h.places t
    rw [hplace] at hwork
    cases chain with
    | nil => exact absurd rfl hwork.2.2
    | cons obj rest =>
      refine ⟨_, rfl, h.finishFetch hinv hplace rfl, ?_⟩
      simp [Place.rank]
  | releasing size chain =>
    cases chain with
    | nil =>
      refine ⟨_, rfl, h.goOn trivial, ?_⟩
      simp [Place.rank]
    | cons obj rest =>
      have hchain : obj ∈ (s.thread t).place.chain := by simp [hplace, Place.chain]
      obtain ⟨r, hr, hown, hnot, -⟩ := hinv.moving_owner hchain
      obtain ⟨s', hs'⟩ : ∃ s', s.releaseBlock t size obj rest = some s' := by
        simp only [Pool.releaseBlock, hm r hr obj hown hnot, Option.map_some]
        exact ⟨_, rfl⟩
      refine ⟨s', hs', h.releaseBlock hs', ?_⟩
      obtain ⟨x, -, rfl⟩ := Option.map_eq_some_iff.mp hs'
      dsimp only
      split_ifs
      · simp [Pool.retire, Place.rank]
        omega
      · simp [Place.rank]
  | returning size r rest =>
    have hbare : r ∈ (s.thread t).place.bare := by simp [hplace, Place.bare]
    obtain ⟨d, hd, -⟩ := hinv.relase_inUse hbare
    have hs' : s.returnSpan t size r rest =
        some ({ s with cache := d, inUse := s.inUse.erase r }.setPlace t (.releasing size rest)) := by
      simp only [Pool.returnSpan, hd, Option.map_some]
    refine ⟨_, hs', h.returnSpan hinv hplace hs', ?_⟩
    simp [Place.rank]

end Kept

instance decidableFront (s : Pool T) : (p : Place) → Decidable (∀ size num,
    p = .needSpan size num →
      ∀ r ∈ (s.cache._pagelist (num_move_page size)).head?, s.cache.MapsPages r)
  | .needSpan size _ =>
    decidable_of_iff (∀ r ∈ (s.cache._pagelist (num_move_page size)).head?, s.cache.MapsPages r)
      (by simp)
  | .idle | .fetching _ _ | .carving _ _ _ | .linking _ _ _ | .fetched _ _ | .releasing _ _
  | .returning _ _ _ => isTrue (by simp)

instance (s : Pool T) : (a : PoolAction T) → Decidable (s.HitMapped a)
  | .Allocate _ _ => isTrue trivial
  | .deallocate _ _ => isTrue trivial
  | .next t _ => decidableFront s (s.thread t).place

end Pool

end Mymuduo.Memory
