import Mymuduo.Memory.Carve
import Mymuduo.Memory.PoolRun
import Mymuduo.Memory.SlowStart

namespace Mymuduo.Memory

open Lib PageCache

/-- The size class that a thread works on. -/
def Place.size : Place → Nat
  | .idle => 0
  | .fetching size _ => size
  | .needSpan size _ => size
  | .carving size _ _ => size
  | .linking size _ _ => size
  | .fetched size _ => size
  | .releasing size _ => size
  | .returning size _ _ => size

/-- How many blocks the thread is to bring. -/
def Place.num : Place → Nat
  | .fetching _ num => num
  | .needSpan _ num => num
  | .carving _ num _ => num
  | .linking _ num _ => num
  | _ => 1

/-- What a thread works with is a class of whole words, and a number that can be counted down. -/
def Place.Countable (p : Place) : Prop := 8 ∣ p.size ∧ 1 ≤ p.num

theorem Place.countable_idle : Place.idle.Countable := ⟨Nat.dvd_zero 8, le_rfl⟩

/-- The kernel gives no memory at the null pointer. -/
def PoolAction.NotNull {T : Type} : PoolAction T → Prop
  | .next _ base => base ≠ 0
  | _ => True

instance {T : Type} : (a : PoolAction T) → Decidable a.NotNull
  | .next _ base => inferInstanceAs (Decidable (base ≠ 0))
  | .Allocate _ _ => isTrue trivial
  | .deallocate _ _ => isTrue trivial

namespace Span

/-- The first address behind a span. -/
def stop (x : Span) : Nat := (x._pageid + x._npage) <<< PAGE_SHIFT

theorem eight_dvd_page (k : Nat) : 8 ∣ k <<< PAGE_SHIFT := by
  rw [Nat.shiftLeft_eq]
  exact Dvd.dvd.mul_left (by decide) k

/-- The blocks of a span lie on a grid of words. -/
theorem eight_dvd_block {x : Span} (hpos : 1 ≤ x._npage) (hsize : 1 ≤ x._objsize)
    (hgrid : 8 ∣ x._objsize) {b : Nat} (hb : b ∈ x.blocks) : 8 ∣ b := by
  rw [blocks_eq hpos hsize] at hb
  obtain ⟨i, -, rfl⟩ := List.mem_map.mp hb
  exact (Nat.dvd_add_right (eight_dvd_page _)).mpr (Dvd.dvd.mul_left hgrid i)

/-- The first word of a block is inside the span, even where the block itself is not. -/
theorem word_inside {x : Span} (hpos : 1 ≤ x._npage) (hsize : 1 ≤ x._objsize)
    (hgrid : 8 ∣ x._objsize) {b : Nat} (hb : b ∈ x.blocks) :
    x._pageid <<< PAGE_SHIFT ≤ b ∧ b + 8 ≤ x.stop := by
  have height := eight_dvd_block hpos hsize hgrid hb
  have hbounds := block_bounds hpos hsize hb
  have hbytes := bytes_pos hpos
  have hstop := end_eq x
  have hdvd : 8 ∣ x.stop := eight_dvd_page _
  have hle := Nat.div_mul_le_self (x._npage <<< PAGE_SHIFT - 1) x._objsize
  refine ⟨hbounds.1, ?_⟩
  rw [stop] at hdvd ⊢
  omega

theorem page_of_byte {x : Span} {a : Nat} (hge : x._pageid <<< PAGE_SHIFT ≤ a) (hlt : a < x.stop) :
    a >>> PAGE_SHIFT ∈ x.pages := by
  rw [stop] at hlt
  rw [Nat.shiftLeft_eq] at hge hlt
  rw [Nat.shiftRight_eq_div_pow]
  exact mem_pages.mpr ⟨(Nat.le_div_iff_mul_le (by decide)).mpr hge,
    (Nat.div_lt_iff_lt_mul (by decide)).mpr hlt⟩

/-- Blocks of one span are a block apart. -/
theorem blocks_apart {x : Span} (hpos : 1 ≤ x._npage) (hsize : 1 ≤ x._objsize) {a b : Nat}
    (ha : a ∈ x.blocks) (hb : b ∈ x.blocks) (hne : a ≠ b) :
    a + x._objsize ≤ b ∨ b + x._objsize ≤ a := by
  rw [blocks_eq hpos hsize] at ha hb
  obtain ⟨i, -, rfl⟩ := List.mem_map.mp ha
  obtain ⟨j, -, rfl⟩ := List.mem_map.mp hb
  rcases Nat.lt_trichotomy i j with hij | rfl | hij
  · have hle := Nat.mul_le_mul_right x._objsize hij
    rw [Nat.succ_mul] at hle
    omega
  · exact absurd rfl hne
  · have hle := Nat.mul_le_mul_right x._objsize hij
    rw [Nat.succ_mul] at hle
    omega

end Span

namespace Pool

variable {T : Type}

/-- Everything lies on a grid of words and nothing at the null pointer, and the free lists count
what they have. -/
structure Grid (s : Pool T) : Prop where
  spans : ∀ r ∈ s.carved, 8 ∣ (s.cache.span r)._objsize
  places : ∀ t, (s.thread t).place.Countable
  regions : ∀ base ∈ s.cache.regions, base ≠ 0
  lists : ∀ t i, ((s.thread t)._freelist i).Counted

namespace Grid

theorem init : Grid (init : Pool T) := by
  refine ⟨?_, fun _ => Place.countable_idle, ?_, fun _ _ => FreeList.Counted.empty⟩
  · intro r hr
    exact absurd hr List.not_mem_nil
  · intro base hbase
    exact absurd hbase List.not_mem_nil

variable {s s' : Pool T}

/-- One thread changes, and spans with blocks keep their size. -/
theorem change [DecidableEq T] (h : Grid s) {t : T} {c : ThreadCache}
    (hthread : s'.thread = Function.update s.thread t c) (hplace : c.place.Countable)
    (hlists : ∀ i, (c._freelist i).Counted)
    (hspans : ∀ r ∈ s'.carved, 8 ∣ (s'.cache.span r)._objsize)
    (hregions : ∀ base ∈ s'.cache.regions, base ≠ 0) : Grid s' := by
  have hother : ∀ u, u ≠ t → s'.thread u = s.thread u := by
    intro u hu
    rw [hthread, Function.update_of_ne hu]
  have hself : s'.thread t = c := by rw [hthread, Function.update_self]
  refine ⟨hspans, ?_, hregions, ?_⟩
  · intro u
    by_cases hu : u = t
    · rw [hu, hself]
      exact hplace
    · rw [hother u hu]
      exact h.places u
  · intro u
    by_cases hu : u = t
    · rw [hu, hself]
      exact hlists
    · rw [hother u hu]
      exact h.lists u

theorem span_facts [Fintype T] (h : Inv s) {r : Nat} (hr : r ∈ s.inUse) : 1 ≤ (s.cache.span r)._npage ∧
    ∀ p ∈ s.cache.pages r, p ∈ s.cache.regionPages :=
  ⟨(h.sound.shape.sized r hr).1,
    fun _ hp => h.sound.shape.tiles.mem_total (List.mem_append_left _ hr) hp⟩

/-- The addresses of spans in use are proper ones. -/
theorem span_bounds [Fintype T] (hg : Grid s) (h : Inv s) {r : Nat} (hr : r ∈ s.inUse) :
    (s.cache.span r)._pageid ≠ 0 ∧ (s.cache.span r).stop ≤ 2 ^ 48 := by
  obtain ⟨hpos, hpages⟩ := span_facts h hr
  have hfirst : (s.cache.span r)._pageid ∈ s.cache.regionPages :=
    hpages _ (Span.mem_pages.mpr ⟨le_rfl, by omega⟩)
  have hlast : (s.cache.span r)._pageid + (s.cache.span r)._npage - 1 ∈ s.cache.regionPages :=
    hpages _ (Span.mem_pages.mpr ⟨by omega, by omega⟩)
  obtain ⟨base, hbase, hmem⟩ := List.mem_flatMap.mp hfirst
  have hnull := hg.regions base hbase
  have hge := (List.mem_range'_1.mp hmem).1
  have hlt := h.sound.shape.bounded _ hlast
  refine ⟨by omega, ?_⟩
  rw [Span.stop, Nat.shiftLeft_eq]
  have hpow : 2 ^ 48 = 2 ^ BITS * 2 ^ PAGE_SHIFT := by decide
  rw [hpow]
  exact Nat.mul_le_mul_right _ (by omega)

section Steps

variable {t : T} {size num r ptr base : Nat}

theorem setSpan (hg : Grid s) {x : Span} (hx : x.SameExtent (s.cache.span r)) :
    Grid (s.setSpan r x) := by
  refine ⟨?_, hg.places, hg.regions, hg.lists⟩
  intro y hy
  rw [(s.setSpan_extent hx y).objsize]
  exact hg.spans y hy

variable [DecidableEq T]

theorem goOn (hg : Grid s) {p : Place} (hp : p.Countable) : Grid (s.setPlace t p) :=
  hg.change rfl hp (hg.lists t) hg.spans hg.regions

theorem setFreeList (hg : Grid s) {i : Nat} {l : FreeList} (hl : l.Counted) :
    Grid (s.setFreeList t i l) := by
  refine hg.change rfl (hg.places t) ?_ hg.spans hg.regions
  intro j
  by_cases hj : j = i
  · simp only [hj, Function.update_self]
    exact hl
  · simp only [Function.update_of_ne hj]
    exact hg.lists t j

theorem Allocate (hg : Grid s) (hmax : size ≤ MAXBYTES) : Grid (s.Allocate t size) := by
  have hcounted := hg.lists t (index (round_up size))
  simp only [Pool.Allocate]
  cases hchain : ((s.thread t)._freelist (index (round_up size))).chain with
  | cons obj rest =>
    have hpop := hcounted.pop
    rw [FreeList.pop, hchain] at hpop
    have hset := hg.setFreeList (t := t) (i := index (round_up size)) hpop
    exact ⟨hset.spans, hset.places, hset.regions, hset.lists⟩
  | nil =>
    have hgrow := hcounted.grow (min (num_move_size (round_up size))
      ((s.thread t)._freelist (index (round_up size)))._maxSize)
    exact (hg.setFreeList hgrow).goOn ⟨eight_dvd_round_up hmax, le_min (num_move_size_pos _) hcounted.grown⟩

theorem takeRange (hg : Grid s) (hsize : 8 ∣ size) : Grid (s.takeRange t size num r) := by
  have hset : Grid (s.setSpan r { s.cache.span r with
      _objlist := (s.cache.span r)._objlist.drop num
      _usecount := (s.cache.span r)._usecount + ((s.cache.span r)._objlist.take num).length }) :=
    hg.setSpan ⟨rfl, rfl, rfl⟩
  exact hset.goOn ⟨hsize, le_rfl⟩

theorem releaseBlock (hg : Grid s) {obj : Nat} {rest : List Nat} (hsize : 8 ∣ size)
    (hs' : s.releaseBlock t size obj rest = some s') : Grid s' := by
  rw [Pool.releaseBlock, Option.map_eq_some_iff] at hs'
  obtain ⟨r, -, rfl⟩ := hs'
  have hset : Grid (s.setSpan r { s.cache.span r with
      _objlist := obj :: (s.cache.span r)._objlist
      _usecount := decrement (s.cache.span r)._usecount }) := hg.setSpan ⟨rfl, rfl, rfl⟩
  simp only
  split_ifs
  · have hempty := hset.setSpan (r := r) (x := { (Pool.setSpan _ _ _).cache.span r with
      _objlist := [] }) ⟨rfl, rfl, rfl⟩
    refine hempty.change rfl ⟨hsize, le_rfl⟩ (hg.lists t) ?_ hempty.regions
    intro y hy
    exact hempty.spans y (List.mem_of_mem_erase hy)
  · exact hset.goOn ⟨hsize, le_rfl⟩

theorem finishFetch (hg : Grid s) {chain : List Nat}
    (hs' : s.finishFetch t size chain = some s') : Grid s' := by
  cases chain with
  | nil => exact absurd hs' (Option.some_ne_none s').symm
  | cons obj rest =>
    rw [Pool.finishFetch] at hs'
    obtain rfl := Option.some.inj hs'
    have hheld : Grid { s with held := obj :: s.held } :=
      ⟨hg.spans, hg.places, hg.regions, hg.lists⟩
    refine goOn ?_ Place.countable_idle
    split
    · exact hheld
    · exact hheld.setFreeList ((hg.lists t (index size)).PushRange rest)

variable [Fintype T]

theorem deallocate (hg : Grid s) (h : Inv s) (hm : s.MapsLive) (hheld : ptr ∈ s.held)
    (hs' : s.deallocate t ptr = some s') : Grid s' := by
  obtain ⟨r, hr, hown, hnot⟩ := h.held_owner hheld
  rw [Pool.deallocate, hm r hr ptr hown hnot] at hs'
  obtain rfl := Option.some.inj hs'
  have hfreed : Grid { s with held := s.held.erase ptr } :=
    ⟨hg.spans, hg.places, hg.regions, hg.lists⟩
  have hpush := (hg.lists t (index (s.cache.span r)._objsize)).push ptr
  simp only [deallocateSize]
  split_ifs
  · exact (hfreed.setFreeList (hpush.PopRange _)).goOn ⟨hg.spans r hr, le_rfl⟩
  · exact hfreed.setFreeList hpush

theorem newSpan (hg : Grid s) (h : Inv s) (hplace : (s.thread t).place = .needSpan size num)
    (hb : SbrkOk s.cache (num_move_page size) base) (hbase : base ≠ 0)
    (hs' : s.newSpan t size num base = some s') : Grid s' := by
  have hv : ValidSize size := h.consistent hplace
  have hn := num_move_page_bounds hv.1 hv.2
  have hlt : num_move_page size < NPAGES := by
    rw [NPAGES]
    omega
  have hcount := hg.places t
  rw [hplace] at hcount
  obtain ⟨r, d, heq, hall, hfrom⟩ := new_Span_spec h.sound hn.1 hlt hb
  have hnd := (List.nodup_append.mp (List.nodup_append.mp hall.shape.objects).1).1
  have hnot : r ∉ s.inUse := (List.nodup_cons.mp hnd).1
  rw [Pool.newSpan, heq] at hs'
  obtain rfl := Option.some.inj hs'
  refine hg.change rfl hcount (hg.lists t) ?_ ?_
  · intro y hy
    have huse : y ∈ s.inUse := h.core.carved_inUse hy
    have hne : y ≠ r := fun he => hnot (he ▸ huse)
    change 8 ∣ ((d.setSpan r _).span y)._objsize
    rw [setSpan_span, if_neg hne, hall.frame.spans y huse]
    exact hg.spans y hy
  · intro k hk
    change k ∈ d.regions at hk
    rcases hfrom with ⟨-, -, -, -, -, -, -, hregions⟩ | ⟨-, -, hregions⟩
    · rw [hregions] at hk
      exact hg.regions k hk
    · rw [hregions, List.mem_cons] at hk
      rcases hk with rfl | hk
      · exact hbase
      · exact hg.regions k hk

theorem carve (hg : Grid s) (h : Inv s) (hplace : (s.thread t).place = .carving size num r) :
    Grid (s.carve t size num r) := by
  have hcount := hg.places t
  rw [hplace] at hcount
  have hclass : (s.cache.span r)._objsize = size := (h.consistent hplace).2
  have hset : Grid (s.setSpan r { s.cache.span r with _objlist := (s.cache.span r).blocks }) :=
    hg.setSpan ⟨rfl, rfl, rfl⟩
  refine hset.change rfl hcount (hg.lists t) ?_ hg.regions
  intro y hy
  rcases List.mem_cons.mp hy with rfl | hy
  · change 8 ∣ ((s.cache.setSpan y _).span y)._objsize
    rw [setSpan_span, if_pos rfl]
    change 8 ∣ (s.cache.span y)._objsize
    rw [hclass]
    exact hcount.1
  · exact hset.spans y hy

theorem returnSpan (hg : Grid s) (h : Inv s) {rest : List Nat}
    (hplace : (s.thread t).place = .returning size r rest)
    (hs' : s.returnSpan t size r rest = some s') : Grid s' := by
  have hcount := hg.places t
  rw [hplace] at hcount
  have hbare : r ∈ (s.thread t).place.bare := by simp [hplace, Place.bare]
  have hp := List.perm_cons_erase (h.core.bare_inUse hbare)
  have hs : Sound s.cache (r :: s.inUse.erase r) := h.sound.reorder hp
  obtain ⟨d, heq, -, hf, hregions⟩ := relase_spec hs (h.core.blank t r hbare)
  rw [Pool.returnSpan, heq] at hs'
  obtain rfl := Option.some.inj hs'
  refine hg.change rfl ⟨hcount.1, le_rfl⟩ (hg.lists t) ?_ ?_
  · intro y hy
    have hne : y ≠ r := fun he => h.bare_not_carved hbare (he ▸ hy)
    have huse : y ∈ s.inUse.erase r := (List.mem_erase_of_ne hne).mpr (h.core.carved_inUse hy)
    change 8 ∣ (d.span y)._objsize
    rw [hf.spans y huse]
    exact hg.spans y hy
  · intro k hk
    change k ∈ d.regions at hk
    rw [hregions] at hk
    exact hg.regions k hk

theorem advance (hg : Grid s) (h : Inv s) (hbase : base ≠ 0)
    (hs' : s.advance t base = some s') : Grid s' := by
  have hcount := hg.places t
  rw [Pool.advance] at hs'
  cases hplace : (s.thread t).place with
  | idle =>
    rw [hplace] at hs'
    exact absurd hs' (Option.some_ne_none s').symm
  | fetching size num =>
    rw [hplace] at hs' hcount
    obtain rfl := Option.some.inj hs'
    rw [fetch_range_obj]
    split
    · exact hg.takeRange hcount.1
    · exact hg.goOn hcount
  | needSpan size num =>
    simp only [hplace] at hs'
    split_ifs at hs' with hb
    exact hg.newSpan h hplace hb hbase hs'
  | carving size num r =>
    rw [hplace] at hs'
    obtain rfl := Option.some.inj hs'
    exact hg.carve h hplace
  | linking size num r =>
    rw [hplace] at hs' hcount
    obtain rfl := Option.some.inj hs'
    have hlinked : Grid { s with
        _spanlist := Function.update s._spanlist (index size) (r :: s._spanlist (index size)) } :=
      ⟨hg.spans, hg.places, hg.regions, hg.lists⟩
    exact hlinked.takeRange hcount.1
  | fetched size chain =>
    rw [hplace] at hs'
    exact hg.finishFetch hs'
  | releasing size chain =>
    rw [hplace] at hs' hcount
    cases chain with
    | nil =>
      obtain rfl := Option.some.inj hs'
      exact hg.goOn Place.countable_idle
    | cons obj rest => exact hg.releaseBlock hcount.1 hs'
  | returning size r rest =>
    rw [hplace] at hs'
    exact hg.returnSpan h hplace hs'

theorem step {a : PoolAction T} (hg : Grid s) (h : Inv s) (hm : s.MapsLive)
    (hbase : a.NotNull) (hs' : s.step a = some s') : Grid s' := by
  cases a with
  | Allocate t size =>
    rw [Pool.step] at hs'
    split_ifs at hs' with hok
    obtain rfl := Option.some.inj hs'
    exact hg.Allocate hok.2.2
  | deallocate t ptr =>
    rw [Pool.step] at hs'
    split_ifs at hs' with hok
    exact hg.deallocate h hm hok.2 hs'
  | next t base => exact hg.advance h hbase hs'

end Steps

end Grid

/-- Every span that has blocks after a step was in use before it, at the same place. -/
def SameSpans (s s' : Pool T) : Prop :=
  ∀ r ∈ s'.carved, r ∈ s.inUse ∧ (s'.cache.span r).SameExtent (s.cache.span r)

section Extents

variable [Fintype T] [DecidableEq T] {s s' : Pool T} {t : T} {size num r base : Nat}

omit [DecidableEq T] in
theorem Inv.sameSpans (h : Inv s) (hcarved : s'.carved = s.carved)
    (hspans : ∀ r ∈ s.inUse, (s'.cache.span r).SameExtent (s.cache.span r)) : SameSpans s s' := by
  intro r hr
  rw [hcarved] at hr
  have huse := h.core.carved_inUse hr
  exact ⟨huse, hspans r huse⟩

theorem Inv.sameSpans_takeRange (h : Inv s) (t : T) (size num r : Nat) :
    SameSpans s (s.takeRange t size num r) := by
  have hset := s.setSpan_extent (r := r) (x := { s.cache.span r with
    _objlist := (s.cache.span r)._objlist.drop num
    _usecount := (s.cache.span r)._usecount + ((s.cache.span r)._objlist.take num).length })
    ⟨rfl, rfl, rfl⟩
  exact h.sameSpans rfl (fun y _ => hset y)

theorem Inv.sameSpans_releaseBlock (h : Inv s) {obj : Nat} {rest : List Nat}
    (hs' : s.releaseBlock t size obj rest = some s') : SameSpans s s' := by
  obtain ⟨r, -, rfl⟩ := Option.map_eq_some_iff.mp hs'
  have hset : ∀ y, ((s.setSpan r { s.cache.span r with
      _objlist := obj :: (s.cache.span r)._objlist
      _usecount := decrement (s.cache.span r)._usecount }).cache.span y).SameExtent
        (s.cache.span y) :=
    s.setSpan_extent ⟨rfl, rfl, rfl⟩
  simp only
  split_ifs
  · intro y hy
    have htwice := setSpan_extent (s.setSpan r { s.cache.span r with
      _objlist := obj :: (s.cache.span r)._objlist
      _usecount := decrement (s.cache.span r)._usecount }) (r := r)
      (x := { (s.setSpan r _).cache.span r with _objlist := [] }) ⟨rfl, rfl, rfl⟩ y
    exact ⟨h.core.carved_inUse (List.mem_of_mem_erase hy), htwice.pageid.trans (hset y).pageid,
      htwice.npage.trans (hset y).npage, htwice.objsize.trans (hset y).objsize⟩
  · exact h.sameSpans rfl (fun y _ => hset y)

theorem Inv.sameSpans_advance (h : Inv s) (hs' : s.advance t base = some s') : SameSpans s s' := by
  have hrefl : ∀ y ∈ s.inUse, (s.cache.span y).SameExtent (s.cache.span y) :=
    fun _ _ => ⟨rfl, rfl, rfl⟩
  rw [Pool.advance] at hs'
  cases hplace : (s.thread t).place with
  | idle =>
    rw [hplace] at hs'
    exact absurd hs' (Option.some_ne_none s').symm
  | fetching size num =>
    rw [hplace] at hs'
    obtain rfl := Option.some.inj hs'
    rw [fetch_range_obj]
    split
    · exact h.sameSpans_takeRange t size num _
    · exact h.sameSpans rfl hrefl
  | needSpan size num =>
    simp only [hplace] at hs'
    split_ifs at hs' with hb
    obtain ⟨r, d, heq, hall, hnot⟩ := h.new_Span_allotted hplace hb
    rw [newSpan, heq] at hs'
    obtain rfl := Option.some.inj hs'
    apply h.sameSpans
    · rfl
    · intro y hy
      have hne : y ≠ r := fun he => hnot (he ▸ hy)
      change ((d.setSpan r _).span y).SameExtent _
      rw [setSpan_span, if_neg hne, hall.frame.spans y hy]
      exact ⟨rfl, rfl, rfl⟩
  | carving size num r =>
    rw [hplace] at hs'
    obtain rfl := Option.some.inj hs'
    have hset := s.setSpan_extent (r := r) (x := { s.cache.span r with
      _objlist := (s.cache.span r).blocks }) ⟨rfl, rfl, rfl⟩
    intro y hy
    refine ⟨?_, hset y⟩
    rcases List.mem_cons.mp hy with rfl | hy
    · exact h.core.bare_inUse (t := t) (by simp [hplace, Place.bare])
    · exact h.core.carved_inUse hy
  | linking size num r =>
    rw [hplace] at hs'
    obtain rfl := Option.some.inj hs'
    exact h.sameSpans_takeRange t size num r
  | fetched size chain =>
    rw [hplace] at hs'
    cases chain with
    | nil => exact absurd hs' (Option.some_ne_none s').symm
    | cons obj rest =>
      obtain rfl := Option.some.inj hs'
      split <;> exact h.sameSpans rfl hrefl
  | releasing size chain =>
    rw [hplace] at hs'
    cases chain with
    | nil =>
      obtain rfl := Option.some.inj hs'
      exact h.sameSpans rfl hrefl
    | cons obj rest => exact h.sameSpans_releaseBlock hs'
  | returning size r rest =>
    simp only [hplace] at hs'
    have hbare : r ∈ (s.thread t).place.bare := by simp [hplace, Place.bare]
    obtain ⟨d, heq, -, hf⟩ := h.relase_inUse hbare
    rw [returnSpan, heq] at hs'
    obtain rfl := Option.some.inj hs'
    intro y hy
    have hne : y ≠ r := fun he => h.bare_not_carved hbare (he ▸ hy)
    have huse := h.core.carved_inUse hy
    refine ⟨huse, ?_⟩
    change (d.span y).SameExtent _
    rw [hf.spans y ((List.mem_erase_of_ne hne).mpr huse)]
    exact ⟨rfl, rfl, rfl⟩

theorem Inv.sameSpans_step (h : Inv s) {a : PoolAction T} (hs' : s.step a = some s') :
    SameSpans s s' := by
  cases a with
  | Allocate t size =>
    rw [step] at hs'
    split_ifs at hs'
    obtain rfl := Option.some.inj hs'
    rw [Allocate]
    split <;> exact h.sameSpans rfl (fun _ _ => ⟨rfl, rfl, rfl⟩)
  | deallocate t ptr =>
    rw [step] at hs'
    split_ifs at hs'
    obtain ⟨r, -, rfl⟩ := Option.map_eq_some_iff.mp hs'
    rw [deallocateSize]
    split <;> exact h.sameSpans rfl (fun _ _ => ⟨rfl, rfl, rfl⟩)
  | next t base => exact h.sameSpans_advance hs'

end Extents

end Pool

end Mymuduo.Memory
