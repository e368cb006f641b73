import Mymuduo.Memory.PoolSteps

namespace Mymuduo.Memory

open Lib PageCache

namespace Pool

variable {T : Type}

/-- `map_object_to_Span` gives the owner of every block that its owner does not have. -/
def MapsLive (s : Pool T) : Prop :=
  ∀ r ∈ s.carved, ∀ b ∈ s.own r, b ∉ s.objlist r → s.map_object_to_Span b = some r

instance (s : Pool T) : Decidable s.MapsLive :=
  inferInstanceAs (Decidable (∀ r ∈ s.carved, ∀ b ∈ s.own r, _ → _))

section Threads

variable [DecidableEq T]

theorem setPlace_eq (s : Pool T) (t : T) (p : Place) : s.setPlace t p =
    s.setThread t ⟨Function.update (s.thread t)._freelist 0 ((s.thread t)._freelist 0), p⟩ := by
  rw [Function.update_eq_self]
  rfl

theorem setFreeList_setPlace (s : Pool T) (t : T) (i : Nat) (l : FreeList) (p : Place) :
    (s.setFreeList t i l).setPlace t p =
      s.setThread t ⟨Function.update (s.thread t)._freelist i l, p⟩ := by
  simp [setFreeList, setPlace, setThread]

theorem setPlace_setPlace (s : Pool T) (t : T) (p q : Place) :
    (s.setPlace t p).setPlace t q = s.setPlace t q := by
  simp [setPlace, setThread]

end Threads

namespace Inv

variable [Fintype T] {s : Pool T}

theorem inClass_of_own (h : Inv s) {r b : Nat} (hr : r ∈ s.carved) (hb : b ∈ s.own r) :
    s.InClass b (index (s.cache.span r)._objsize) := by
  intro x hx hbx
  rw [h.own_unique (h.core.carved_inUse hx) (h.core.carved_inUse hr) hbx hb]

/-- A block that a user or a thread has is a block of some span, which counts it. -/
theorem live_owner (h : Inv s) {b : Nat}
    (hb : 0 < s.held.count b + ∑ t, (s.thread t).blocks.count b) :
    ∃ r ∈ s.carved, b ∈ s.own r ∧ b ∉ s.objlist r ∧ 1 ≤ (s.cache.span r)._usecount := by
  have hpos : 0 < s.places b := by
    unfold places
    omega
  obtain ⟨r, hr, hbr⟩ := h.owner hpos
  have hnot : b ∉ s.objlist r := by
    intro hobj
    have h1 := h.places_le_one b
    have h2 := count_objlist_le hr b
    have h3 := List.count_pos_iff.mpr hobj
    unfold places at h1
    omega
  refine ⟨r, hr, hbr, hnot, ?_⟩
  have hfill := h.core.filled r hr
  have hsub : b :: s.objlist r ⊆ s.own r := List.cons_subset.mpr ⟨hbr, hfill.chained⟩
  have hnd : (b :: s.objlist r).Nodup := List.nodup_cons.mpr ⟨hnot, h.nodup_objlist hr⟩
  have hlen := (List.subperm_of_subset hnd hsub).length_le
  have hcount := hfill.counted
  rw [List.length_cons] at hlen
  unfold objlist own at hlen
  omega

/-- The same for a block that a thread has on no free list. -/
theorem moving_owner (h : Inv s) {t : T} {b : Nat} (hb : b ∈ (s.thread t).place.chain) :
    ∃ r ∈ s.carved, b ∈ s.own r ∧ b ∉ s.objlist r ∧ 1 ≤ (s.cache.span r)._usecount := by
  have hpos : 0 < (s.thread t).blocks.count b := by
    have hmem := List.count_pos_iff.mpr hb
    rw [ThreadCache.count_blocks]
    omega
  have hsum := le_sum (fun t => (s.thread t).blocks.count b) t
  exact h.live_owner (by omega)

theorem held_owner (h : Inv s) {b : Nat} (hb : b ∈ s.held) :
    ∃ r ∈ s.carved, b ∈ s.own r ∧ b ∉ s.objlist r := by
  have hpos := List.count_pos_iff.mpr hb
  obtain ⟨r, hr, hbr, hnot, -⟩ := h.live_owner (b := b) (by omega)
  exact ⟨r, hr, hbr, hnot⟩

/-- A span with blocks outside is in the bucket of its class. -/
theorem listed_of_used (h : Inv s) {r : Nat} (hr : r ∈ s.carved)
    (hu : 1 ≤ (s.cache.span r)._usecount) : r ∈ s._spanlist (index (s.cache.span r)._objsize) := by
  have hnone : ∑ t, (s.thread t).place.unlinked.count r = 0 := by
    refine Finset.sum_eq_zero fun t _ => List.count_eq_zero.mpr ?_
    intro hm
    have := h.core.full t r hm
    omega
  have h1 := h.core.lists r
  have h2 := List.count_pos_iff.mpr hr
  have hmem : r ∈ (List.range NFREELIST).flatMap s._spanlist :=
    List.count_pos_iff.mp (by omega)
  obtain ⟨i, -, hi⟩ := List.mem_flatMap.mp hmem
  rw [(h.core.listed i r hi).2]
  exact hi

variable [DecidableEq T]

/-- A thread without blocks on the way goes on. -/
theorem goOn (h : Inv s) {t : T} {p : Place} (hchain : p.chain = [])
    (hchain' : (s.thread t).place.chain = []) (hbare : p.bare = (s.thread t).place.bare)
    (hunl : p.unlinked = (s.thread t).place.unlinked) (hp : p.Consistent s.cache.span) :
    Inv (s.setPlace t p) := by
  rw [setPlace_eq]
  refine h.move s.held (i := 0) (by decide) ?_ hbare hunl hp
    (fun b hb r => h.core.free t 0 b r hb) ?_
  · intro b
    rw [hchain, hchain']
  · rw [hchain]
    simp

theorem inv_Allocate (h : Inv s) {t : T} {size : Nat} (hidle : (s.thread t).place = .idle)
    (hpos : 1 ≤ size) (hmax : size ≤ MAXBYTES) : Inv (s.Allocate t size) := by
  have hup := round_up_spec hpos hmax
  have hv : ValidSize (round_up size) := ⟨hpos.trans hup.1, hup.2⟩
  have hi : index (round_up size) < NFREELIST := index_lt hv.1 hv.2
  have hfree := h.core.free t (index (round_up size))
  simp only [Allocate]
  cases hchain : ((s.thread t)._freelist (index (round_up size))).chain with
  | cons obj rest =>
    rw [hchain] at hfree
    refine h.move (obj :: s.held) hi ?_ rfl rfl (h.core.place t) ?_ ?_
    · intro b
      simp only [hchain, List.count_cons]
      omega
    · intro b hb r
      exact hfree b r (List.mem_cons_of_mem _ hb)
    · intro b hb
      simp [hidle, Place.chain] at hb
  | nil =>
    simp only [startFetch]
    rw [setFreeList_setPlace]
    refine h.move s.held hi ?_ ?_ ?_ hv (fun b hb r => hfree b r hb) ?_
    · intro b
      simp [hidle, Place.chain]
    · simp [hidle, Place.bare]
    · simp [hidle, Place.unlinked]
    · intro b hb
      simp [Place.chain] at hb

theorem inv_deallocate (h : Inv s) (hm : s.MapsLive) {t : T} {ptr : Nat}
    (hidle : (s.thread t).place = .idle) (hheld : ptr ∈ s.held) {s' : Pool T}
    (hs' : s.deallocate t ptr = some s') : Inv s' := by
  obtain ⟨r, hr, hbr, hnot⟩ := h.held_owner hheld
  have hv := (h.core.filled r hr).size
  have hi : index (s.cache.span r)._objsize < NFREELIST := index_lt hv.1 hv.2
  simp only [deallocate, hm r hr ptr hbr hnot, Option.map_some, Option.some.injEq] at hs'
  subst hs'
  have hclass : ∀ b ∈ ptr :: ((s.thread t)._freelist (index (s.cache.span r)._objsize)).chain,
      s.InClass b (index (s.cache.span r)._objsize) := by
    intro b hb
    rcases List.mem_cons.mp hb with rfl | hb
    · exact h.inClass_of_own hr hbr
    · exact fun x => h.core.free t _ b x hb
  have herase (b : Nat) := (List.perm_cons_erase hheld).count_eq b
  simp only [List.count_cons] at herase
  simp only [deallocateSize]
  split_ifs
  · rw [setFreeList_setPlace]
    refine h.move (s.held.erase ptr) hi ?_ ?_ ?_ hv ?_
      ?_
    · intro b
      have h1 := herase b
      have h2 := congrArg (List.count b) (List.take_append_drop
        ((s.thread t)._freelist (index (s.cache.span r)._objsize))._maxSize
        (ptr :: ((s.thread t)._freelist (index (s.cache.span r)._objsize)).chain))
      simp only [List.count_append, List.count_cons] at h2
      simp only [FreeList.PopRange, FreeList.push, Place.chain, hidle, List.count_nil]
      omega
    · simp [hidle, Place.bare]
    · simp [hidle, Place.unlinked]
    · intro b hb
      exact hclass b (List.mem_of_mem_drop hb)
    · intro b hb
      exact hclass b (List.mem_of_mem_take hb)
  · refine h.move (s.held.erase ptr) hi ?_ rfl rfl (h.core.place t) hclass
      ?_
    · intro b
      have h1 := herase b
      simp only [FreeList.push, List.count_cons]
      omega
    · intro b hb
      simp [hidle, Place.chain] at hb

theorem inv_takeRange (h : Inv s) {t : T} {size num r : Nat} (hv : ValidSize size)
    (hr : r ∈ s._spanlist (index size)) (hplace : (s.thread t).place = .fetching size num) :
    Inv (s.takeRange t size num r) := by
  have hrc := h.core.listed_carved hr
  have hfill := h.core.filled r hrc
  have hindex := (h.core.listed _ r hr).2
  refine h.exchange hr ⟨rfl, rfl, rfl⟩ (h.sound.used r (h.core.carved_inUse hrc))
    ⟨fun b hb => hfill.chained b (List.mem_of_mem_drop hb), ?_, hfill.size⟩ ?_ rfl ?_
    rfl ?_ hv ?_
  · have h1 := hfill.counted
    have h2 : (s.cache.span r)._objlist.length = _ :=
      congrArg List.length (List.take_append_drop num (s.cache.span r)._objlist).symm
    rw [List.length_append] at h2
    change _ + _ + (List.drop num _).length = (s.cache.span r).blocks.length
    omega
  · intro b
    have h1 : (s.cache.span r)._objlist.count b = _ :=
      congrArg (List.count b) (List.take_append_drop num (s.cache.span r)._objlist).symm
    rw [List.count_append] at h1
    simp only [objlist, hplace, Place.chain, List.count_nil]
    omega
  · simp [hplace, Place.bare]
  · simp [hplace, Place.unlinked]
  · intro b hb
    have hb' : b ∈ s.own r := hfill.chained b (List.mem_of_mem_take hb)
    have hclass := h.inClass_of_own hrc hb'
    rw [hindex] at hclass
    exact hclass

theorem inv_fetch_range_obj (h : Inv s) {t : T} {size num : Nat}
    (hplace : (s.thread t).place = .fetching size num) : Inv (s.fetch_range_obj t size num) := by
  have hv : ValidSize size := h.consistent hplace
  unfold fetch_range_obj
  cases hfind : s.findSpan (index size) with
  | some r => exact h.inv_takeRange hv (List.mem_of_find?_eq_some hfind) hplace
  | none =>
    refine h.goOn rfl ?_ ?_ ?_ hv
    · simp [hplace, Place.chain]
    · simp [hplace, Place.bare]
    · simp [hplace, Place.unlinked]

omit [DecidableEq T] in
/-- `new_Span` serves `get_one_Span`, with a span that was not in use. -/
theorem new_Span_allotted (h : Inv s) {t : T} {size num base : Nat}
    (hplace : (s.thread t).place = .needSpan size num)
    (hb : SbrkOk s.cache (num_move_page size) base) :
    ∃ r d, PageCache.new_Span 2 s.cache (num_move_page size) base = some (r, d) ∧
      Allotted s.cache d s.inUse (num_move_page size) r ∧ r ∉ s.inUse := by
  have hv : ValidSize size := h.consistent hplace
  have hn := num_move_page_bounds hv.1 hv.2
  have hlt : num_move_page size < NPAGES := by
    unfold NPAGES
    omega
  obtain ⟨r, d, heq, hall, -⟩ := new_Span_spec h.sound hn.1 hlt hb
  have hnd := (List.nodup_append.mp (List.nodup_append.mp hall.shape.objects).1).1
  exact ⟨r, d, heq, hall, (List.nodup_cons.mp hnd).1⟩

theorem inv_newSpan (h : Inv s) {t : T} {size num base : Nat}
    (hplace : (s.thread t).place = .needSpan size num)
    (hb : SbrkOk s.cache (num_move_page size) base) :
    ∃ s', s.newSpan t size num base = some s' ∧ Inv s' := by
  have hv : ValidSize size := h.consistent hplace
  obtain ⟨r, d, heq, hall, hnot⟩ := h.new_Span_allotted hplace hb
  set x : Span := { d.span r with _isUse := true, _objsize := size } with hx
  have hself : (d.setSpan r x).span r = x := (setSpan_span r).trans (if_pos rfl)
  have hsound : Sound (d.setSpan r x) (r :: s.inUse) := hall.sound h.sound.used rfl rfl rfl
  refine ⟨{ s with cache := d.setSpan r x, inUse := r :: s.inUse }.setPlace t
    (.carving size num r), by simp only [newSpan, heq, Option.map_some, hx],
    h.acquire hsound ?_ ?_ hv ?_ hplace⟩
  · intro y hy
    have hne : y ≠ r := fun he => hnot (he ▸ hy)
    rw [setSpan_span, if_neg hne]
    exact hall.frame.spans y hy
  · rw [hself]
    exact hall.blank
  · rw [hself]

theorem inv_linkSpan (h : Inv s) {t : T} {size num r : Nat}
    (hplace : (s.thread t).place = .linking size num r) : Inv (s.linkSpan t size num r) := by
  obtain ⟨hv, -⟩ := h.consistent hplace
  have hlinked := h.link hplace
  have htake : Inv (takeRange _ t size num r) := hlinked.inv_takeRange hv ?_ ?_
  · simp only [takeRange] at htake
    simp only [linkSpan, takeRange]
    rw [← setPlace_setPlace _ t (.fetching size num)]
    exact htake
  · simp [setPlace, setThread]
  · simp [setPlace, setThread]

theorem inv_finishFetch (h : Inv s) {t : T} {size : Nat} {chain : List Nat}
    (hplace : (s.thread t).place = .fetched size chain) {s' : Pool T}
    (hs' : s.finishFetch t size chain = some s') : Inv s' := by
  have hv : ValidSize size := h.consistent hplace
  have hmoving := h.core.moving t
  rw [hplace] at hmoving
  cases chain with
  | nil => simp [finishFetch] at hs'
  | cons obj rest =>
    have heq : s' = { s.setThread t ⟨Function.update (s.thread t)._freelist (index size)
        (((s.thread t)._freelist (index size)).PushRange rest), .idle⟩ with
          held := obj :: s.held } := by
      simp only [finishFetch, Option.some.injEq] at hs'
      rw [← hs']
      split_ifs with hrest
      · have hpush : ((s.thread t)._freelist (index size)).PushRange rest =
            (s.thread t)._freelist (index size) := by
          simp [FreeList.PushRange, hrest]
        rw [hpush, Function.update_eq_self]
        rfl
      · rw [setFreeList_setPlace]
        rfl
    rw [heq]
    refine h.move (obj :: s.held) (index_lt hv.1 hv.2) ?_ ?_ ?_ trivial ?_ (by
      simp [Place.chain])
    · intro b
      simp only [hplace, Place.chain, FreeList.PushRange, List.count_cons, List.count_append,
        List.count_nil]
      omega
    · simp [hplace, Place.bare]
    · simp [hplace, Place.unlinked]
    · intro b hb
      rcases List.mem_append.mp hb with hb | hb
      · exact fun r => hmoving b r (List.mem_cons_of_mem _ hb)
      · exact fun r => h.core.free t _ b r hb

/-- One block comes back to its span. The last one lets the span go. -/
theorem inv_releaseBlock (h : Inv s) (hm : s.MapsLive) {t : T} {size obj : Nat} {rest : List Nat}
    (hplace : (s.thread t).place = .releasing size (obj :: rest)) {s' : Pool T}
    (hs' : s.releaseBlock t size obj rest = some s') : Inv s' := by
  have hv : ValidSize size := h.consistent hplace
  have hmoving := h.core.moving t
  rw [hplace] at hmoving
  have hchain : obj ∈ (s.thread t).place.chain := by simp [hplace, Place.chain]
  obtain ⟨r, hr, hbr, hnot, hu⟩ := h.moving_owner hchain
  have hindex : index (s.cache.span r)._objsize = index size :=
    hmoving obj r List.mem_cons_self hr hbr
  have hlisted : r ∈ s._spanlist (index size) := hindex ▸ h.listed_of_used hr hu
  have hfill := h.core.filled r hr
  obtain ⟨n, hn⟩ : ∃ n, (s.cache.span r)._usecount = n + 1 := ⟨_, (Nat.sub_add_cancel hu).symm⟩
  simp only [releaseBlock, hm r hr obj hbr hnot, Option.map_some, Option.some.injEq, hn,
    decrement] at hs'
  have hback : Inv ((s.setSpan r { s.cache.span r with
      _objlist := obj :: (s.cache.span r)._objlist
      _usecount := n }).setPlace t (.releasing size rest)) := by
    refine h.exchange hlisted ⟨rfl, rfl, rfl⟩ (h.sound.used r (h.core.carved_inUse hr))
      ⟨?_, ?_, hfill.size⟩ ?_ rfl ?_ rfl ?_ hv ?_
    · intro b hb
      rcases List.mem_cons.mp hb with rfl | hb
      · exact hbr
      · exact hfill.chained b hb
    · have h1 := hfill.counted
      change n + (_ + 1) = (s.cache.span r).blocks.length
      omega
    · intro b
      simp only [objlist, hplace, Place.chain, List.count_cons]
      omega
    · simp [hplace, Place.bare]
    · simp [hplace, Place.unlinked]
    · intro b hb x
      exact hmoving b x (List.mem_cons_of_mem _ hb)
  split_ifs at hs' with hzero
  · have hgone : Inv (retire _ t size r rest) := hback.drop ?_ hlisted ?_
    · simp only [retire] at hgone hs'
      rw [← hs', ← setPlace_setPlace _ t (.releasing size rest)]
      exact hgone
    · simp [setPlace, setThread]
    · change ((s.cache.setSpan r _).span r)._usecount = 0
      rw [setSpan_span, if_pos rfl]
      exact hzero
  · rw [← hs']
    exact hback

theorem inv_advance (h : Inv s) (hm : s.MapsLive) {t : T} {base : Nat} {s' : Pool T}
    (hs' : s.advance t base = some s') : Inv s' := by
  unfold advance at hs'
  split at hs'
  case h_1 => simp at hs'
  case h_2 size num hplace =>
    obtain rfl := Option.some.inj hs'
    exact h.inv_fetch_range_obj hplace
  case h_3 size num hplace =>
    split_ifs at hs' with hb
    obtain ⟨u, hu, hinv⟩ := h.inv_newSpan hplace hb
    obtain rfl := Option.some.inj (hu.symm.trans hs')
    exact hinv
  case h_4 size num r hplace =>
    obtain rfl := Option.some.inj hs'
    exact h.fill hplace
  case h_5 size num r hplace =>
    obtain rfl := Option.some.inj hs'
    exact h.inv_linkSpan hplace
  case h_6 size chain hplace => exact h.inv_finishFetch hplace hs'
  case h_7 size hplace =>
    obtain rfl := Option.some.inj hs'
    refine h.goOn rfl ?_ ?_ ?_ trivial
    · simp [hplace, Place.chain]
    · simp [hplace, Place.bare]
    · simp [hplace, Place.unlinked]
  case h_8 size obj rest hplace => exact h.inv_releaseBlock hm hplace hs'
  case h_9 size r rest hplace =>
    obtain ⟨u, hu, hinv⟩ := h.giveBack hplace
    obtain rfl := Option.some.inj (hu.symm.trans hs')
    exact hinv

/-- Every step keeps the invariant as long as the page map is right for live blocks. -/
theorem inv_step (h : Inv s) (hm : s.MapsLive) {a : PoolAction T} {s' : Pool T}
    (hs' : s.step a = some s') : Inv s' := by
  cases a with
  | Allocate t size =>
    simp only [step] at hs'
    split_ifs at hs' with hg
    obtain rfl := Option.some.inj hs'
    exact h.inv_Allocate hg.1 hg.2.1 hg.2.2
  | deallocate t ptr =>
    simp only [step] at hs'
    split_ifs at hs' with hg
    exact h.inv_deallocate hm hg.1 hg.2 hs'
  | next t base => exact h.inv_advance hm hs'

omit [DecidableEq T] in
theorem inv_init : Inv (init : Pool T) := by
  refine ⟨sound_init, ⟨?_, ?_, ?_, ?_, ?_, ?_, fun t => trivial, ?_, ?_,
    ?_, ?_⟩⟩
  · intro r
    simp [init, Place.bare]
  · intro r
    simp [init, Place.unlinked, List.count_eq_zero]
  · intro b
    simp [places, init, ThreadCache.blocks, FreeList.empty, Place.chain, List.count_eq_zero]
  · simp [init]
  · simp [init, Place.bare]
  · simp [init, Place.unlinked]
  · simp [init]
  · simp [init, FreeList.empty]
  · simp [init]
  · simp [init]

end Inv

/-- The blocks of a span that are not on its chain. A span has blocks from when
`get_one_Span` carves it until `release_list_to_Spans` drops its chain. -/
def away (s : Pool T) (r : Nat) : List Nat :=
  if r ∈ s.carved then (s.own r).filter (· ∉ s.objlist r) else []

/-- Where the blocks are. -/
structure Accounted [Fintype T] (s : Pool T) : Prop where
  spans : ∀ r ∈ s.inUse, r ∈ s.carved ∨ ∃ t, r ∈ (s.thread t).place.bare
  once : ∀ r ∈ s.carved, ∀ b ∈ s.own r, s.places b = 1
  home : ∀ r ∈ s.carved, ∀ b ∈ s.own r, ∀ x ∈ s.carved, b ∈ s.objlist x → x = r
  counted : ∀ r ∈ s.inUse ++ s.cache.linked, (s.cache.span r)._usecount = (s.away r).length
  returned : ∀ t size r rest, (s.thread t).place = .returning size r rest →
    ∀ b ∈ s.own r, b ∉ s.held ∧ ∀ u, b ∉ (s.thread u).blocks
  distinct : s.held.Nodup

namespace Inv

variable [Fintype T] {s : Pool T}

theorem spans_placed (h : Inv s) {r : Nat} (hr : r ∈ s.inUse) :
    r ∈ s.carved ∨ ∃ t, r ∈ (s.thread t).place.bare := by
  by_contra hno
  obtain ⟨hc, hb⟩ := not_or.mp hno
  have h1 := h.core.spans r
  have h2 := List.count_pos_iff.mpr hr
  have h3 := List.count_eq_zero.mpr hc
  have h4 : ∑ t, (s.thread t).place.bare.count r = 0 :=
    Finset.sum_eq_zero fun t _ => List.count_eq_zero.mpr fun hm => hb ⟨t, hm⟩
  omega

theorem usecount_away (h : Inv s) {r : Nat} (hr : r ∈ s.carved) :
    (s.cache.span r)._usecount = (s.away r).length := by
  have hfill := h.core.filled r hr
  have hperm : ((s.own r).filter (· ∈ s.objlist r)).Perm (s.objlist r) := by
    have hnd : (s.own r).Nodup := Span.nodup_blocks hfill.size.1
    apply (List.perm_ext_iff_of_nodup (hnd.filter _) (h.nodup_objlist hr)).mpr
    intro b
    rw [List.mem_filter, decide_eq_true_eq]
    exact ⟨And.right, fun hb => ⟨hfill.chained b hb, hb⟩⟩
  have hlen := hperm.length_eq
  have hsplit := List.length_eq_length_filter_add (l := s.own r) (fun b => decide (b ∈ s.objlist r))
  have hcount := hfill.counted
  simp only [away, if_pos hr, decide_not]
  unfold objlist own at *
  omega

theorem usecount_bare (h : Inv s) {r : Nat} (hr : r ∈ s.inUse ++ s.cache.linked)
    (hc : r ∉ s.carved) : (s.cache.span r)._usecount = (s.away r).length := by
  simp only [away, if_neg hc, List.length_nil]
  rcases List.mem_append.mp hr with hr | hr
  · obtain ⟨t, ht⟩ := (h.spans_placed hr).resolve_left hc
    exact (h.core.blank t r ht).2
  · exact (h.sound.shape.linked_spec hr).2.2.2.2.2

/-- The blocks of a span in the hands of a thread that has not filled it, or has dropped its
chain, are in no place. -/
theorem places_bare (h : Inv s) {t : T} {r b : Nat} (hr : r ∈ (s.thread t).place.bare)
    (hb : b ∈ s.own r) : s.places b = 0 := by
  by_contra hne
  obtain ⟨x, hx, hbx⟩ := h.owner (Nat.pos_of_ne_zero hne)
  obtain rfl := h.own_unique (h.core.bare_inUse hr) (h.core.carved_inUse hx) hb hbx
  exact h.bare_not_carved hr hx

theorem accounted (h : Inv s) : Accounted s := by
  refine ⟨fun r hr => h.spans_placed hr, fun r hr b hb => h.places_own hr hb,
    ?_, ?_, ?_, ?_⟩
  · intro r hr b hb x hx hbx
    exact h.own_unique (h.core.carved_inUse hx) (h.core.carved_inUse hr)
      ((h.core.filled x hx).chained b hbx) hb
  · intro r hr
    by_cases hc : r ∈ s.carved
    · exact h.usecount_away hc
    · exact h.usecount_bare hr hc
  · intro t size r rest hplace b hb
    have hzero : s.places b = 0 := h.places_bare (t := t) (by simp [hplace, Place.bare]) hb
    refine ⟨?_, ?_⟩
    · intro hh
      have hpos := List.count_pos_iff.mpr hh
      unfold places at hzero
      omega
    · intro u hu
      have hpos := List.count_pos_iff.mpr hu
      have hle := s.count_thread_le u b
      omega
  · rw [List.nodup_iff_count_le_one]
    intro b
    have hle := h.places_le_one b
    unfold places at hle
    omega

end Inv

variable [Fintype T] [DecidableEq T]

/-- At every point of every interleaving, as long as `map_object_to_Span` is right for live
blocks: the blocks of every span that has blocks are each in one place, that of a chain only
on their own span's; every span counts its blocks that are not on its chain; no block of a
span on its way to `relase_to_PageCache` is anywhere; and no block is handed out twice. -/
theorem blocks_accounted (as : List (PoolAction T)) (h : Always step MapsLive init as) :
    Always step Accounted init as := by
  have hinv : Always step Inv init as := by
    refine always_of_always ?_ Inv.inv_init h
    intro s a t hs hm ht
    exact hs.inv_step hm ht
  exact hinv.mono fun s hs => hs.accounted

/-- One thread asks for 128 KiB: its class has two blocks in a span. -/
def firstUse : List (PoolAction Unit) :=
  [.Allocate () 131072, .next () 1, .next () 1, .next () 1, .next () 1, .next () 1]

theorem blocks_accounted_firstUse : Always step Accounted init firstUse :=
  blocks_accounted firstUse (by decide +kernel)

/-- Four blocks, the last two from a second span. -/
def fourUses : List (PoolAction Unit) :=
  firstUse ++ [.Allocate () 131072, .next () 1, .next () 1] ++ firstUse ++ [.Allocate () 131072]

/-- All four come back, and `release_list_to_Spans` gets the last two of them first. -/
def fourFrees : List (PoolAction Unit) :=
  [.deallocate () 8192, .deallocate () 139264, .deallocate () 270336, .deallocate () 401408,
    .next () 1, .next () 1]

/-- Between its critical section and that of `relase_to_PageCache` the second span is in use,
its chain is dropped, and its first block, which was with the user, is in no place. -/
theorem dropped_chain_nowhere : ∃ s s' : Pool Unit,
    run step init fourUses = some s ∧ run step s fourFrees = some s' ∧
    Always step MapsLive init (fourUses ++ fourFrees) ∧
    3 ∈ s.carved ∧ 270336 ∈ s.own 3 ∧ 270336 ∈ s.held ∧
    3 ∈ s'.inUse ∧ (s'.cache.span 3)._isUse = true ∧ 270336 ∈ s'.own 3 ∧ s'.places 270336 = 0 ∧
    (s'.cache.span 3)._usecount = 0 ∧ 270336 ∉ s'.objlist 3 := by
  have hrun : ((run step init fourUses).any fun s =>
      decide (3 ∈ s.carved ∧ 270336 ∈ s.own 3 ∧ 270336 ∈ s.held) &&
        (run step s fourFrees).any fun s' => decide (3 ∈ s'.inUse ∧
          (s'.cache.span 3)._isUse = true ∧ 270336 ∈ s'.own 3 ∧ s'.places 270336 = 0 ∧
          (s'.cache.span 3)._usecount = 0 ∧ 270336 ∉ s'.objlist 3)) = true := by
    decide +kernel
  simp only [Option.any_eq_true, Bool.and_eq_true, decide_eq_true_eq] at hrun
  obtain ⟨s, hs, ⟨hcarved, hown, hheld⟩, s', hs', hlast⟩ := hrun
  exact ⟨s, s', hs, hs', by decide +kernel, hcarved, hown, hheld, hlast⟩

end Pool

end Mymuduo.Memory
