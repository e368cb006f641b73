import Mymuduo.Memory.LinkedSteps
import Mymuduo.Memory.PoolKept

namespace Mymuduo.Memory

open Lib PageCache

/-- A thread that is back from `fetch_range_obj` knows the last block and how many there are. -/
def Pointers.Cursor {T : Type} (p : Pointers T) (t : T) : Place → Prop
  | .fetched _ chain => (∃ l, chain = l ++ [p.end_ t]) ∧ p.actualNum t = chain.length
  | _ => True

namespace LinkedPool

variable {T : Type}

/-- A block that no user has from before a step until after it. -/
structure Writable (s : LinkedPool T) (q : Pool T) (c : Nat) : Prop where
  owned : ∃ r, s.pool.Gridded r ∧ c ∈ s.pool.own r
  free : c ∈ s.pool.held → c ∉ q.held

/-- What a step that ends in the pool `q` does to the pointers. -/
structure Moves (s : LinkedPool T) (q : Pool T) (p : Pointers T) : Prop where
  links : p.Links q.listAt
  cursor : ∀ t, p.Cursor t (q.thread t).place
  writes : ∃ W, s.ptrs.Writes p W ∧ ∀ c ∈ W, Writable s q c

variable [Fintype T]

/-- The invariant of the pool with its memory. -/
structure Good (s : LinkedPool T) : Prop where
  inv : s.pool.Inv
  grid : s.pool.Grid
  entries : s.pool.Entries
  links : s.ptrs.Links s.pool.listAt
  cursor : ∀ t, s.ptrs.Cursor t (s.pool.thread t).place

namespace Good

variable {s : LinkedPool T} {q : Pool T} {p : Pointers T} {t : T} {size num r : Nat}

theorem mapsLive (h : Good s) : s.pool.MapsLive :=
  (h.inv.mapExact_iff.mpr h.entries).mapsLive h.inv

theorem writable (h : Good s) {v : Var T} : ∀ c ∈ s.pool.listAt v, Writable s q c := by
  intro c hc
  obtain ⟨r, hr, hown⟩ := h.inv.listed_owner hc
  exact ⟨⟨r, h.grid.gridded h.inv hr, hown⟩, fun hheld => absurd hheld (h.inv.not_held hc)⟩

/-- A step of one thread. -/
theorem moves (h : Good s) (hthread : ∀ u, u ≠ t → q.thread u = s.pool.thread u)
    (hlinks : p.Links q.listAt) (hcursor : p.Cursor t (q.thread t).place)
    (hother : ∀ u, u ≠ t → p.end_ u = s.ptrs.end_ u ∧ p.actualNum u = s.ptrs.actualNum u)
    {W : List Nat} (hwrites : s.ptrs.Writes p W) (hW : ∀ c ∈ W, Writable s q c) : Moves s q p := by
  refine ⟨hlinks, ?_, W, hwrites, hW⟩
  intro u
  by_cases hu : u = t
  · rw [hu]
    exact hcursor
  · rw [hthread u hu]
    have hold := h.cursor u
    cases hplace : (s.pool.thread u).place with
    | fetched size chain =>
      rw [hplace] at hold
      rw [Pointers.Cursor, (hother u hu).1, (hother u hu).2]
      exact hold
    | _ => trivial

/-- A step that leaves the pointers alone. -/
theorem stays (h : Good s) (hthread : ∀ u, u ≠ t → q.thread u = s.pool.thread u)
    (hlists : q.listAt = s.pool.listAt) (hcursor : s.ptrs.Cursor t (q.thread t).place) :
    Moves s q s.ptrs :=
  h.moves hthread (hlists ▸ h.links) hcursor (fun _ _ => ⟨rfl, rfl⟩) (.refl [] s.ptrs.mem)
    (fun _ hc => absurd hc List.not_mem_nil)

theorem findSpan (h : Good s) (i : Nat) : s.findSpan i = s.pool.findSpan i := by
  rw [LinkedPool.findSpan, Pool.findSpan]
  apply List.find?_congr
  intro r hr
  have hcarved := h.inv.core.listed_carved hr
  have hchain := h.links.chain (._objlist r)
  rw [Pool.listAt_objlist hcarved] at hchain
  have hzero : s.ptrs.var (._objlist r) = 0 ↔ (s.pool.cache.span r)._objlist = [] :=
    hchain.eq_zero_iff
  rw [Bool.eq_iff_iff, bne_iff_ne, bne_iff_ne]
  exact not_congr hzero

theorem init (mem : ByteMem) : Good (init mem : LinkedPool T) := by
  refine ⟨Pool.Inv.inv_init, Pool.Grid.init, ?_, ?_, fun _ => trivial⟩
  · intro r hr
    exact absurd hr List.not_mem_nil
  · have hnil := Chains.nil sizeofPtr mem (K := Var T)
    rw [← Pool.listAt_init] at hnil
    exact hnil

/-- A user's byte is in no link. -/
theorem write (h : Good s) {b x : Nat} (v : UInt8) (hb : b ∈ s.pool.held) (hx : s.pool.Usable b x) :
    Good { s with ptrs := { s.ptrs with mem := Function.update s.ptrs.mem x v } } := by
  refine ⟨h.inv, h.grid, h.entries, ⟨?_, h.links.spread⟩, ?_⟩
  · intro k
    apply (h.links.chain k).congr
    intro c hc
    obtain ⟨r, hr, hown⟩ := h.inv.listed_owner hc
    have hne : c ≠ b := fun he => h.inv.not_held hc (he ▸ hb)
    have hapart := (h.grid.gridded h.inv hr).word_apart h.grid h.inv hown hx hne
    apply ByteMem.load_congr
    intro y hcy hyc
    apply Function.update_of_ne
    omega
  · intro t
    have hold := h.cursor t
    cases hplace : (s.pool.thread t).place with
    | fetched size chain =>
      rw [hplace] at hold
      exact hold
    | _ => trivial

variable [DecidableEq T]

theorem Allocate (h : Good s) (hidle : (s.pool.thread t).place = .idle) :
    ∃ p, s.move (.Allocate t size) = some p ∧ Moves s (s.pool.Allocate t size) p := by
  have hchain := h.links.chain (._head t (index (round_up size)))
  have hzero := hchain.eq_zero_iff
  have hlist : s.pool.listAt (._head t (index (round_up size))) =
    ((s.pool.thread t)._freelist (index (round_up size))).chain := rfl
  simp only [move, Pool.Allocate]
  rw [hlist] at hchain hzero
  cases hl : ((s.pool.thread t)._freelist (index (round_up size))).chain with
  | nil =>
    rw [hl] at hzero
    refine ⟨s.ptrs, if_pos (hzero.mpr rfl), ?_⟩
    have hsame : (s.pool.startFetch t (index (round_up size)) (round_up size)).listAt =
        s.pool.listAt := by
      rw [Pool.startFetch, Pool.listAt_goOn, Pool.listAt_setFreeList]
      · exact Function.update_eq_self (._head t (index (round_up size))) s.pool.listAt
      · simp [Pool.setFreeList, Pool.setThread, Place.chain, hidle]
    refine h.stays (t := t) ?_ hsame ?_
    · intro u hu
      rw [Pool.startFetch, Pool.thread_setPlace hu, Pool.thread_setFreeList hu]
    · rw [Pool.startFetch, Pool.place_setPlace]
      trivial
  | cons obj rest =>
    rw [hl] at hlist hzero
    have hne : s.ptrs.var (._head t (index (round_up size))) ≠ 0 :=
      fun h0 => List.cons_ne_nil obj rest (hzero.mp h0)
    refine ⟨_, if_neg hne, ?_⟩
    obtain ⟨hlinks, hwrites⟩ := h.links.pop hlist
    refine h.moves (t := t) (fun u hu => Function.update_of_ne hu _ _) ?_ ?_
      (fun _ _ => ⟨rfl, rfl⟩) hwrites (fun _ hc => absurd hc List.not_mem_nil)
    · have hlists := s.pool.listAt_setFreeList t (index (round_up size))
        { (s.pool.thread t)._freelist (index (round_up size)) with
          chain := rest, _size := ((s.pool.thread t)._freelist (index (round_up size)))._size - 1 }
      rw [← hlists] at hlinks
      exact hlinks
    · simp only [Pool.place_setFreeList]
      exact h.cursor t

theorem deallocate (h : Good s) (hidle : (s.pool.thread t).place = .idle) {ptr : Nat}
    (hheld : ptr ∈ s.pool.held) (hq : s.pool.deallocate t ptr = some q) :
    ∃ p, s.move (.deallocate t ptr) = some p ∧ Moves s q p := by
  obtain ⟨r, hr, hown, hnot⟩ := h.inv.held_owner hheld
  have hmap := h.mapsLive r hr ptr hown hnot
  have hgrid := h.grid.gridded h.inv hr
  have hcounted := h.grid.lists t (index (s.pool.cache.span r)._objsize)
  have hnew : ∀ v, ptr ∉ s.pool.listAt v := fun v hv => h.inv.not_held hv hheld
  have hgone : ptr ∉ s.pool.held.erase ptr := h.inv.accounted.distinct.not_mem_erase
  obtain ⟨hpush, hwrites⟩ := h.links.push (v := ._head t (index (s.pool.cache.span r)._objsize))
    hnew (hgrid.block h.grid h.inv hown)
  rw [Pool.deallocate, hmap] at hq
  obtain rfl := Option.some.inj hq
  have hW : ∀ c ∈ ptr :: s.pool.listAt (._head t (index (s.pool.cache.span r)._objsize)),
      Writable s (s.pool.deallocateSize t ptr (s.pool.cache.span r)._objsize) c := by
    intro c hc
    rcases List.mem_cons.mp hc with rfl | hc
    · refine ⟨⟨r, hgrid, hown⟩, fun _ => ?_⟩
      simp only [Pool.deallocateSize]
      split_ifs <;> exact hgone
    · exact h.writable c hc
  simp only [move, hmap, Option.map_some, Option.some.injEq, exists_eq_left', Pool.deallocateSize]
    at hW ⊢
  have hsize : (((s.pool.thread t)._freelist (index (s.pool.cache.span r)._objsize)).push ptr)._size =
      ((s.pool.thread t)._freelist (index (s.pool.cache.span r)._objsize))._size + 1 := rfl
  have hmax : (((s.pool.thread t)._freelist (index (s.pool.cache.span r)._objsize)).push ptr)._maxSize =
      ((s.pool.thread t)._freelist (index (s.pool.cache.span r)._objsize))._maxSize := rfl
  rw [hsize, hmax] at hW ⊢
  split_ifs at hW ⊢ with hlong
  · have hempty : Function.update s.pool.listAt (._head t (index (s.pool.cache.span r)._objsize))
        (ptr :: s.pool.listAt (._head t (index (s.pool.cache.span r)._objsize))) (.start t) = [] := by
      rw [Function.update_of_ne (by simp)]
      simp [Pool.listAt, hidle, Place.chain]
    have hrange := hpush.PopRange (i := index (s.pool.cache.span r)._objsize) hempty hcounted.grown
    rw [Function.update_self, Function.update_idem] at hrange
    obtain ⟨hlinks, hwrites'⟩ := hrange (by
      change _ ≤ (_ :: ((s.pool.thread t)._freelist _).chain).length
      rw [List.length_cons, ← hcounted.size]
      exact hlong.le)
    refine h.moves (t := t) ?_ ?_ ?_ (fun _ _ => ⟨rfl, rfl⟩)
      ((hwrites.mono (by simp)).trans hwrites') hW
    · intro u hu
      rw [Pool.thread_setPlace hu, Pool.thread_setFreeList hu]
    · rw [Pool.listAt_setPlace, Pool.listAt_setFreeList]
      exact hlinks
    · rw [Pool.place_setPlace]
      trivial
  · refine h.moves (t := t) (fun u hu => Pool.thread_setFreeList hu _ _ _) ?_ ?_
      (fun _ _ => ⟨rfl, rfl⟩) hwrites (fun c hc => hW c (List.mem_singleton.mp hc ▸ List.mem_cons_self))
    · rw [Pool.listAt_setFreeList]
      exact hpush
    · rw [Pool.place_setFreeList]
      exact h.cursor t

/-- `fetch_range_obj` with a span that has blocks on its chain. The pool `s'` has the pointers of
`s` and may list the span already. -/
theorem takeRange (h : Good s) {s' : Pool T} (hlists : s'.listAt = s.pool.listAt)
    (hthread : s'.thread = s.pool.thread) (hstart : (s.pool.thread t).place.chain = [])
    (hnum : 1 ≤ num) (hr : r ∈ s'.carved) (hobj : s'.objlist r ≠ []) :
    Moves s (s'.takeRange t size num r) (s.ptrs.takeRange t num r) := by
  have hlist : s.pool.listAt (._objlist r) = s'.objlist r := by
    rw [← hlists, Pool.listAt_objlist hr]
  obtain ⟨hlinks, hwrites, hend, hcount⟩ := h.links.takeRange (t := t) (r := r) hstart hnum
    (hlist ▸ hobj)
  rw [hlist] at hlinks hend hcount
  refine h.moves (t := t) ?_ ?_ ?_ ?_ hwrites h.writable
  · intro u hu
    rw [Pool.takeRange, Pool.thread_setPlace hu]
    exact congrFun hthread u
  · rw [Pool.takeRange, Pool.listAt_setPlace, Pool.listAt_setSpan _ _ hr, hlists]
    exact hlinks
  · rw [Pool.takeRange, Pool.place_setPlace]
    exact ⟨hend, hcount⟩
  · intro u hu
    exact ⟨Function.update_of_ne hu _ _, Function.update_of_ne hu _ _⟩

theorem fetch_range_obj (h : Good s) (hplace : (s.pool.thread t).place = .fetching size num) :
    ∃ p, s.advance t = some p ∧ Moves s (s.pool.fetch_range_obj t size num) p := by
  have hchain : (s.pool.thread t).place.chain = [] := by
    rw [hplace]
    rfl
  have hcount := h.grid.places t
  rw [hplace] at hcount
  simp only [LinkedPool.advance, hplace, h.findSpan, Pool.fetch_range_obj]
  cases hfind : s.pool.findSpan (index size) with
  | none =>
    refine ⟨s.ptrs, rfl, h.stays (fun u hu => Pool.thread_setPlace hu _ _) ?_ ?_⟩
    · exact Pool.listAt_goOn hchain.symm
    · rw [Pool.place_setPlace]
      trivial
  | some r =>
    have hr := h.inv.core.listed_carved (List.mem_of_find?_eq_some hfind)
    have hobj : s.pool.objlist r ≠ [] := by
      have hfound := List.find?_some hfind
      exact bne_iff_ne.mp hfound
    exact ⟨_, rfl, h.takeRange rfl rfl hchain hcount.2 hr hobj⟩

theorem linkSpan (h : Good s) (hplace : (s.pool.thread t).place = .linking size num r) :
    Moves s (s.pool.linkSpan t size num r) (s.ptrs.takeRange t num r) := by
  have hchain : (s.pool.thread t).place.chain = [] := by
    rw [hplace]
    rfl
  have hcount := h.grid.places t
  rw [hplace] at hcount
  have hunlinked : r ∈ (s.pool.thread t).place.unlinked := by simp [hplace, Place.unlinked]
  have hr := h.inv.core.unlinked_carved hunlinked
  have hobj : s.pool.objlist r ≠ [] := by
    have hcounted := (h.inv.core.filled r hr).counted
    rw [h.inv.core.full t r hunlinked, Nat.zero_add] at hcounted
    intro hnil
    rw [Pool.objlist] at hnil
    rw [hnil, Span.blocks] at hcounted
    exact absurd hcounted (by simp)
  have hlists : Pool.listAt { s.pool with
      _spanlist := Function.update s.pool._spanlist (index size)
        (r :: s.pool._spanlist (index size)) } = s.pool.listAt :=
    Pool.listAt_congr rfl rfl (fun _ _ => rfl)
  exact h.takeRange hlists rfl hchain hcount.2 hr hobj

/-- What the page cache does leaves the spans with blocks alone. -/
theorem stays_recache (h : Good s) {s' : Pool T} (hthread : s'.thread = s.pool.thread)
    (hcarved : s'.carved = s.pool.carved)
    (hobj : ∀ x ∈ s.pool.carved, s'.objlist x = s.pool.objlist x) {pl : Place}
    (hchain : pl.chain = (s.pool.thread t).place.chain)
    (hnot : ∀ size chain, pl ≠ .fetched size chain) :
    Moves s (s'.setPlace t pl) s.ptrs := by
  refine h.stays (t := t) ?_ ?_ ?_
  · intro u hu
    rw [Pool.thread_setPlace hu, hthread]
  · rw [Pool.listAt_goOn (by rw [hchain, hthread])]
    exact Pool.listAt_congr hthread hcarved hobj
  · rw [Pool.place_setPlace]
    cases pl with
    | fetched size chain => exact absurd rfl (hnot size chain)
    | _ => trivial

theorem newSpan (h : Good s) (hplace : (s.pool.thread t).place = .needSpan size num) {base : Nat}
    (hb : SbrkOk s.pool.cache (num_move_page size) base)
    (hq : s.pool.newSpan t size num base = some q) : Moves s q s.ptrs := by
  obtain ⟨r, d, heq, hall, hnot⟩ := h.inv.new_Span_allotted hplace hb
  rw [Pool.newSpan, heq] at hq
  obtain rfl := Option.some.inj hq
  apply h.stays_recache
  · rfl
  · rfl
  · intro x hx
    have huse := h.inv.core.carved_inUse hx
    have hne : x ≠ r := fun he => hnot (he ▸ huse)
    change ((d.setSpan r _).span x)._objlist = _
    rw [setSpan_span, if_neg hne, hall.frame.spans x huse]
    rfl
  · rw [hplace]
    rfl
  · simp

theorem returnSpan (h : Good s) {rest : List Nat}
    (hplace : (s.pool.thread t).place = .returning size r rest)
    (hq : s.pool.returnSpan t size r rest = some q) : Moves s q s.ptrs := by
  have hbare : r ∈ (s.pool.thread t).place.bare := by simp [hplace, Place.bare]
  obtain ⟨d, heq, -, hf⟩ := h.inv.relase_inUse hbare
  rw [Pool.returnSpan, heq] at hq
  obtain rfl := Option.some.inj hq
  apply h.stays_recache
  · rfl
  · rfl
  · intro x hx
    have hne : x ≠ r := fun he => h.inv.bare_not_carved hbare (he ▸ hx)
    have huse := (List.mem_erase_of_ne hne).mpr (h.inv.core.carved_inUse hx)
    change (d.span x)._objlist = _
    rw [hf.spans x huse]
    rfl
  · rw [hplace]
    rfl
  · simp

theorem carve (h : Good s) (hplace : (s.pool.thread t).place = .carving size num r) :
    Moves s (s.pool.carve t size num r) (s.ptrs.carve r (s.pool.cache.span r)) := by
  have hchain : (s.pool.thread t).place.chain = [] := by
    rw [hplace]
    rfl
  have hbare : r ∈ (s.pool.thread t).place.bare := by simp [hplace, Place.bare]
  have huse := h.inv.core.bare_inUse hbare
  obtain ⟨hvalid, hclass⟩ : ValidSize size ∧ (s.pool.cache.span r)._objsize = size :=
    h.inv.consistent hplace
  have hcount := h.grid.places t
  rw [hplace] at hcount
  have hgrid : s.pool.Gridded r := ⟨huse, hclass ▸ hcount.1, hclass ▸ hvalid.1⟩
  obtain ⟨hpos, -⟩ := Pool.Grid.span_facts h.inv huse
  obtain ⟨hid, hstop⟩ := h.grid.span_bounds h.inv huse
  have hnew : ∀ b ∈ (s.pool.cache.span r).blocks, ∀ v, b ∉ s.pool.listAt v := by
    intro b hb v hv
    have hlt := h.inv.listed_places hv
    rw [h.inv.places_bare hbare hb] at hlt
    exact absurd hlt (Nat.not_lt_zero _)
  obtain ⟨hlinks, hwrites⟩ := h.links.carve hpos hgrid.pos hgrid.words hid hstop hnew r
  refine h.moves (t := t) ?_ ?_ ?_ (fun _ _ => ⟨rfl, rfl⟩) hwrites ?_
  · exact fun u hu => Function.update_of_ne hu _ _
  · rw [Pool.listAt_carve hchain]
    exact hlinks
  · rw [Pool.carve, Pool.place_setPlace]
    trivial
  · intro b hb
    refine ⟨⟨r, hgrid, hb⟩, ?_⟩
    intro hheld
    obtain ⟨x, hx, hown, -⟩ := h.inv.held_owner hheld
    have hxr := h.inv.own_unique (h.inv.core.carved_inUse hx) huse hown hb
    exact absurd (hxr ▸ hx) (h.inv.bare_not_carved hbare)

theorem finishFetch (h : Good s) {chain : List Nat}
    (hplace : (s.pool.thread t).place = .fetched size chain)
    (hq : s.pool.finishFetch t size chain = some q) :
    Moves s q (s.ptrs.finishFetch t (index size)) := by
  have hlist : s.pool.listAt (.start t) = chain := by
    simp only [Pool.listAt, hplace, Place.chain]
  obtain ⟨hend, hcount⟩ : s.ptrs.Cursor t (.fetched size chain) := hplace ▸ h.cursor t
  rw [← hlist] at hend hcount
  cases chain with
  | nil => exact absurd hq (Option.some_ne_none q).symm
  | cons obj rest =>
    obtain ⟨hlinks, hwrites⟩ := h.links.finishFetch (i := index size) hlist hend hcount
    have hpointers : ∀ u, (s.ptrs.finishFetch t (index size)).end_ u = s.ptrs.end_ u ∧
        (s.ptrs.finishFetch t (index size)).actualNum u = s.ptrs.actualNum u := by
      intro u
      rw [Pointers.finishFetch]
      split <;> exact ⟨rfl, rfl⟩
    rw [Pool.finishFetch] at hq
    obtain rfl := Option.some.inj hq
    refine h.moves (t := t) ?_ ?_ ?_ (fun u _ => hpointers u) hwrites h.writable
    · intro u hu
      rw [Pool.thread_setPlace hu]
      split
      · rfl
      · exact Pool.thread_setFreeList hu _ _ _
    · rw [Pool.listAt_setPlace]
      have hheld : Pool.listAt { s.pool with held := obj :: s.pool.held } = s.pool.listAt :=
        Pool.listAt_congr rfl rfl (fun _ _ => rfl)
      split
      · rename_i hrest
        rw [hrest, List.nil_append, Function.update_eq_self] at hlinks
        rw [hheld]
        exact hlinks
      · rw [Pool.listAt_setFreeList, hheld]
        exact hlinks
    · rw [Pool.place_setPlace]
      trivial

theorem releaseBlock (h : Good s) {obj : Nat} {rest : List Nat}
    (hplace : (s.pool.thread t).place = .releasing size (obj :: rest))
    (hq : s.pool.releaseBlock t size obj rest = some q) :
    ∃ p, s.advance t = some p ∧ Moves s q p := by
  have hmem : obj ∈ (s.pool.thread t).place.chain := by
    rw [hplace]
    exact List.mem_cons_self
  have hlist : s.pool.listAt (.start t) = obj :: rest := by
    simp only [Pool.listAt, hplace, Place.chain]
  have hchain := h.links.chain (.start t)
  rw [hlist] at hchain
  have hstart : s.ptrs.var (.start t) = obj := hchain.1
  have hobj := h.grid.listed_block h.inv (v := .start t) hmem
  obtain ⟨r, hr, hown, hnot, -⟩ := h.inv.moving_owner hmem
  have hmap := h.mapsLive r hr obj hown hnot
  rw [Pool.releaseBlock, hmap] at hq
  obtain rfl := Option.some.inj hq
  obtain ⟨hlinks, hwrites⟩ := h.links.releaseBlock hlist r hobj
    (Pool.decrement (s.pool.cache.span r)._usecount = 0)
  refine ⟨s.ptrs.releaseBlock t r (Pool.decrement (s.pool.cache.span r)._usecount = 0), ?_, ?_⟩
  · simp only [LinkedPool.advance, hplace]
    rw [if_neg (hstart ▸ hobj.2.1), hstart, hmap]
    rfl
  have hpointers : ∀ u last, (s.ptrs.releaseBlock t r last).end_ u = s.ptrs.end_ u ∧
      (s.ptrs.releaseBlock t r last).actualNum u = s.ptrs.actualNum u := by
    intro u last
    cases last <;> exact ⟨rfl, rfl⟩
  have hne : Var._objlist r ≠ .start t := by simp
  rw [Function.update_comm hne.symm, Pool.listAt_objlist hr] at hlinks
  by_cases hlast : Pool.decrement (s.pool.cache.span r)._usecount = 0
  · simp only [hlast, decide_true, if_pos] at hlinks hwrites ⊢
    refine h.moves (t := t) ?_ ?_ ?_ (fun u _ => hpointers u true) hwrites h.writable
    · exact fun u hu => Function.update_of_ne hu _ _
    · rw [Pool.listAt_retire, Pool.listAt_setSpan _ _ hr, Function.update_idem]
      · exact hlinks
      · exact h.inv.nodup_carved
    · rw [Pool.retire, Pool.place_setPlace]
      trivial
  · simp only [hlast, decide_false, if_neg, Bool.false_eq_true, not_false_eq_true] at hlinks hwrites ⊢
    refine h.moves (t := t) ?_ ?_ ?_ (fun u _ => hpointers u false) hwrites h.writable
    · intro u hu
      rw [Pool.thread_setPlace hu]
      rfl
    · rw [Pool.listAt_setPlace, Pool.listAt_setSpan _ _ hr]
      exact hlinks
    · rw [Pool.place_setPlace]
      trivial

/-- Whatever the pool does, the pointers can follow, and they then lead to the lists again. -/
theorem move (h : Good s) {a : PoolAction T} (hq : s.pool.step a = some q) :
    ∃ p, s.move a = some p ∧ Moves s q p := by
  cases a with
  | Allocate t size =>
    rw [Pool.step] at hq
    split_ifs at hq with hok
    obtain rfl := Option.some.inj hq
    exact h.Allocate hok.1
  | deallocate t ptr =>
    rw [Pool.step] at hq
    split_ifs at hq with hok
    exact h.deallocate hok.1 hok.2 hq
  | next t base =>
    rw [Pool.step, Pool.advance] at hq
    change ∃ p, s.advance t = some p ∧ _
    cases hplace : (s.pool.thread t).place with
    | idle =>
      rw [hplace] at hq
      exact absurd hq (Option.some_ne_none q).symm
    | fetching size num =>
      rw [hplace] at hq
      obtain rfl := Option.some.inj hq
      exact h.fetch_range_obj hplace
    | needSpan size num =>
      simp only [hplace] at hq
      split_ifs at hq with hb
      exact ⟨s.ptrs, by simp only [LinkedPool.advance, hplace], h.newSpan hplace hb hq⟩
    | carving size num r =>
      rw [hplace] at hq
      obtain rfl := Option.some.inj hq
      exact ⟨_, by simp only [LinkedPool.advance, hplace], h.carve hplace⟩
    | linking size num r =>
      rw [hplace] at hq
      obtain rfl := Option.some.inj hq
      exact ⟨_, by simp only [LinkedPool.advance, hplace], h.linkSpan hplace⟩
    | fetched size chain =>
      rw [hplace] at hq
      exact ⟨_, by simp only [LinkedPool.advance, hplace], h.finishFetch hplace hq⟩
    | releasing size chain =>
      rw [hplace] at hq
      cases chain with
      | nil =>
        obtain rfl := Option.some.inj hq
        have hzero : s.ptrs.var (.start t) = 0 := by
          have hchain := h.links.chain (.start t)
          simp only [Pool.listAt, hplace, Place.chain] at hchain
          exact hchain
        refine ⟨s.ptrs, by simp only [LinkedPool.advance, hplace, if_pos hzero], ?_⟩
        refine h.stays (fun u hu => Pool.thread_setPlace hu _ _) (Pool.listAt_goOn ?_) ?_
        · rw [hplace]
          rfl
        · rw [Pool.place_setPlace]
          trivial
      | cons obj rest => exact h.releaseBlock hplace hq
    | returning size r rest =>
      rw [hplace] at hq
      exact ⟨s.ptrs, by simp only [LinkedPool.advance, hplace], h.returnSpan hplace hq⟩

theorem call (h : Good s) {a : PoolAction T} {p : Pointers T} (hbase : a.NotNull)
    (hmap : s.pool.HitMapped a) (hq : s.pool.step a = some q) (hp : Moves s q p) :
    Good ⟨q, p⟩ :=
  ⟨h.inv.inv_step h.mapsLive hq, h.grid.step h.inv h.mapsLive hbase hq,
    (h.inv.entries_step h.entries hq).mpr hmap, hp.links, hp.cursor⟩

end Good

variable [DecidableEq T]

/-- The page map's condition on calls. -/
def HitMapped (s : LinkedPool T) : LinkedAction T → Prop
  | .call a => s.pool.HitMapped a
  | .write _ _ _ => True

instance (s : LinkedPool T) : (a : LinkedAction T) → Decidable (s.HitMapped a)
  | .call a => inferInstanceAs (Decidable (s.pool.HitMapped a))
  | .write _ _ _ => isTrue trivial

/-- The chains that the pointers lead to are the lists of the pool. -/
structure Linked (s : LinkedPool T) : Prop where
  free : ∀ t i, NullChain (NEXT_OBJ s.ptrs.mem) (s.ptrs.var (._head t i))
    ((s.pool.thread t)._freelist i).chain
  span : ∀ r ∈ s.pool.carved, NullChain (NEXT_OBJ s.ptrs.mem) (s.ptrs.var (._objlist r))
    (s.pool.objlist r)
  bare : ∀ r ∉ s.pool.carved, s.ptrs.var (._objlist r) = 0
  moving : ∀ t, NullChain (NEXT_OBJ s.ptrs.mem) (s.ptrs.var (.start t)) (s.pool.thread t).place.chain

omit [DecidableEq T] in
theorem Good.linked {s : LinkedPool T} (h : Good s) : Linked s := by
  refine ⟨fun t i => h.links.chain (._head t i), ?_, ?_, fun t => h.links.chain (.start t)⟩
  · intro r hr
    have hchain := h.links.chain (._objlist r)
    rw [Pool.listAt_objlist hr] at hchain
    exact hchain
  · intro r hr
    have hchain := h.links.chain (._objlist r)
    rw [Pool.listAt, if_neg hr] at hchain
    exact hchain

theorem Good.step {s s' : LinkedPool T} {a : LinkedAction T} (h : Good s)
    (hs' : s.step a = some s') (hmap : s.HitMapped a) : Good s' := by
  cases a with
  | call a =>
    rw [LinkedPool.step] at hs'
    split_ifs at hs' with hbase
    obtain ⟨q, hq, hs'⟩ := Option.bind_eq_some_iff.mp hs'
    obtain ⟨p, hp, hmoves⟩ := h.move hq
    rw [hp] at hs'
    obtain rfl := Option.some.inj hs'
    exact h.call hbase hmap hq hmoves
  | write b x v =>
    rw [LinkedPool.step] at hs'
    split_ifs at hs' with hok
    obtain rfl := Option.some.inj hs'
    exact h.write v hok.1 hok.2

theorem Good.always {s : LinkedPool T} {as : List (LinkedAction T)} (h : Good s)
    (hmap : Each LinkedPool.step HitMapped s as) : Always LinkedPool.step Good s as :=
  always_of_each (fun _ _ _ hs ht hc => hs.step ht hc) h hmap

/-- In every interleaving whose calls of `new_Span` are all `HitMapped`, whatever users write to the
`Usable` bytes of their blocks: the links in memory, from each `_head`, from each `_objlist` and from
each call's `start`, lead through the blocks of that list, and to null behind them. -/
theorem links_follow_lists (mem : ByteMem) (as : List (LinkedAction T))
    (h : Each step HitMapped (init mem) as) : Always step Linked (init mem) as :=
  ((Good.init mem).always h).mono fun _ hs => hs.linked

theorem Good.follow {s : LinkedPool T} (h : Good s) {as : List (PoolAction T)}
    (hmap : Each Pool.step (fun s a => a.NotNull ∧ s.HitMapped a) s.pool as) {q : Pool T}
    (hq : run Pool.step s.pool as = some q) :
    ∃ p, run LinkedPool.step s (as.map .call) = some ⟨q, p⟩ := by
  induction as generalizing s with
  | nil =>
    obtain rfl := Option.some.inj hq
    exact ⟨s.ptrs, rfl⟩
  | cons a as ih =>
    obtain ⟨u, hu, hq⟩ := Option.bind_eq_some_iff.mp hq
    obtain ⟨⟨hbase, hhit⟩, hrest⟩ := hmap u hu
    obtain ⟨p, hp, hmoves⟩ := h.move hu
    have hstep : s.step (.call a) = some ⟨u, p⟩ := by
      rw [LinkedPool.step, if_pos hbase, hu, hp]
      rfl
    obtain ⟨p', hp'⟩ := ih (h.call hbase hhit hu hmoves) hrest hq
    refine ⟨p', ?_⟩
    rw [List.map_cons, run, hstep]
    exact hp'

/-- One step changes no byte of a block that stays with its user, unless its user does. -/
theorem Good.kept_step {s s' : LinkedPool T} {a : LinkedAction T} (h : Good s)
    (hs' : s.step a = some s') {b x : Nat} (hb : b ∈ s.pool.held) (hb' : b ∈ s'.pool.held)
    (hx : s.pool.Usable b x) (hquiet : ∀ y v, a ≠ .write b y v) :
    s'.ptrs.mem x = s.ptrs.mem x := by
  cases a with
  | call a =>
    rw [LinkedPool.step] at hs'
    split_ifs at hs' with hbase
    obtain ⟨q, hq, hs'⟩ := Option.bind_eq_some_iff.mp hs'
    obtain ⟨p, hp, hmoves⟩ := h.move hq
    rw [hp] at hs'
    obtain rfl := Option.some.inj hs'
    obtain ⟨W, hwrites, hW⟩ := hmoves.writes
    apply hwrites
    intro c hc
    obtain ⟨⟨r, hr, hown⟩, hfree⟩ := hW c hc
    have hne : c ≠ b := by
      rintro rfl
      exact hfree hb hb'
    exact hr.word_apart h.grid h.inv hown hx hne
  | write c y v =>
    rw [LinkedPool.step] at hs'
    split_ifs at hs' with hok
    obtain rfl := Option.some.inj hs'
    apply Function.update_of_ne
    rintro rfl
    have hbc := Pool.Usable.inj h.grid h.inv hx hok.2
    exact hquiet x v (hbc ▸ rfl)

theorem Good.usable_step {s s' : LinkedPool T} {a : LinkedAction T} (h : Good s) (h' : Good s')
    (hs' : s.step a = some s') {b x : Nat} (hb' : b ∈ s'.pool.held) (hx : s.pool.Usable b x) :
    s'.pool.Usable b x := by
  cases a with
  | call a =>
    rw [LinkedPool.step] at hs'
    split_ifs at hs' with hbase
    obtain ⟨q, hq, hs'⟩ := Option.bind_eq_some_iff.mp hs'
    obtain ⟨p, -, rfl⟩ := Option.map_eq_some_iff.mp hs'
    exact hx.step h.inv h'.inv (h.inv.sameSpans_step hq) hb'
  | write c y v =>
    rw [LinkedPool.step] at hs'
    split_ifs at hs' with hok
    obtain rfl := Option.some.inj hs'
    exact hx

theorem Good.kept_run {s s' : LinkedPool T} {bs : List (LinkedAction T)} (h : Good s)
    (hmap : Each LinkedPool.step HitMapped s bs) (hr : run LinkedPool.step s bs = some s')
    {b x : Nat} (hheld : Always LinkedPool.step (fun u => b ∈ u.pool.held) s bs)
    (hx : s.pool.Usable b x) (hquiet : ∀ y v, .write b y v ∉ bs) :
    s'.ptrs.mem x = s.ptrs.mem x := by
  induction bs generalizing s with
  | nil =>
    obtain rfl := Option.some.inj hr
    rfl
  | cons a bs ih =>
    obtain ⟨u, hu, hr⟩ := Option.bind_eq_some_iff.mp hr
    obtain ⟨hhit, hrest⟩ := hmap u hu
    have hgood := h.step hu hhit
    have hb' := (hheld.2 u hu).head
    rw [ih hgood hrest hr (hheld.2 u hu) (h.usable_step hgood hu hb' hx)
      (fun y v hm => hquiet y v (List.mem_cons_of_mem a hm))]
    refine h.kept_step hu hheld.1 hb' hx ?_
    rintro y v rfl
    exact hquiet y v List.mem_cons_self

/-- For as long as a user has a block, in every interleaving with other threads' calls and other
users' writes, the bytes of the block that are `Usable` stay as the user wrote them, if the calls of
`new_Span` are all `HitMapped`. What the last block of a span has behind the span's end is not
`Usable`. -/
theorem user_bytes_kept (mem : ByteMem) (as bs : List (LinkedAction T))
    (h : Each step HitMapped (init mem) (as ++ bs)) {s s' : LinkedPool T}
    (hs : run step (init mem) as = some s) (hs' : run step s bs = some s') {b x : Nat}
    (hheld : Always step (fun u => b ∈ u.pool.held) s bs) (hx : s.pool.Usable b x)
    (hquiet : ∀ y v, .write b y v ∉ bs) : s'.ptrs.mem x = s.ptrs.mem x := by
  have hgood := ((Good.init mem).always h.left).last hs
  exact hgood.kept_run (h.right hs) hs' hheld hx hquiet

/-- One thread asks for a block of 128 KiB and gets the first of two; the other one stays on its
span's chain. -/
def oneUse : List (LinkedAction Unit) := Pool.firstUse.map .call

/-- The user writes where the link was, and the thread asks for the other block. -/
def nextUse : List (LinkedAction Unit) :=
  [.write 8192 8192 1, .call (.Allocate () 131072), .call (.next () 1), .call (.next () 1)]

theorem links_follow_lists_nextUse : Always step Linked (init fun _ => 0) (oneUse ++ nextUse) :=
  links_follow_lists (fun _ => 0) (oneUse ++ nextUse) (by decide +kernel)

/-- The other block has been written to and given away, and 8192 has its byte still. -/
theorem user_bytes_kept_nextUse : ∃ s s' : LinkedPool Unit,
    run step (init fun _ => 0) (oneUse ++ [.write 8192 8192 1]) = some s ∧
      run step s (nextUse.drop 1) = some s' ∧ s'.ptrs.mem 8192 = s.ptrs.mem 8192 := by
  have hrun : ((run step (init fun _ => 0) (oneUse ++ [.write 8192 8192 1])).any fun s =>
      decide (Always step (fun u : LinkedPool Unit => 8192 ∈ u.pool.held) s (nextUse.drop 1) ∧
        s.pool.Usable 8192 8192) && (run step s (nextUse.drop 1)).isSome) = true := by
    decide +kernel
  simp only [Option.any_eq_true, Bool.and_eq_true, decide_eq_true_eq] at hrun
  obtain ⟨s, hs, ⟨hheld, hx⟩, hsome⟩ := hrun
  obtain ⟨s', hs'⟩ := Option.isSome_iff_exists.mp hsome
  exact ⟨s, s', hs, hs', user_bytes_kept (fun _ => 0) _ _ (by decide +kernel) hs hs' hheld hx
    (by simp [nextUse])⟩

end LinkedPool

end Mymuduo.Memory
