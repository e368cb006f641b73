import Mymuduo.Memory.LinkedPool

namespace Mymuduo.Memory

open Lib PageCache

section Loops

variable {m : ByteMem} {p k n : Nat} {l : List Nat}

/-- The loop of `fetch_range_obj` ends at the last of the blocks to take, and has counted them. -/
theorem fetchLoop_spec (h : NullChain (NEXT_OBJ m) p (p :: l)) (n k : Nat) :
    ∃ l₁ e, (p :: l).take (n + 1) = l₁ ++ [e] ∧ fetchLoop m n p k = (e, k + l₁.length) := by
  induction n generalizing p k l with
  | zero => exact ⟨[], p, rfl, rfl⟩
  | succ n ih =>
    obtain ⟨-, -, hrest⟩ := h
    cases l with
    | nil => exact ⟨[], p, rfl, if_pos hrest⟩
    | cons a l =>
      have ha : NEXT_OBJ m p = a := hrest.1
      have hne : NEXT_OBJ m p ≠ 0 := ha ▸ hrest.2.1
      rw [ha] at hrest
      obtain ⟨l₁, e, htake, hloop⟩ := ih hrest (k + 1)
      refine ⟨p :: l₁, e, congrArg (p :: ·) htake, ?_⟩
      rw [fetchLoop, if_neg hne, ha, hloop, List.length_cons]
      congr 1
      omega

/-- The walk of `PopRange` over blocks that are there. -/
theorem walk_spec (h : NullChain (NEXT_OBJ m) p l) (hn : 1 ≤ n) (hle : n ≤ l.length) :
    ∃ l₁ e, l.take n = l₁ ++ [e] ∧ (NEXT_OBJ m)^[Pool.decrement n] p = e := by
  cases n with
  | zero => exact absurd hn (by decide)
  | succ n =>
    have hlt : n < l.length := hle
    have hsplit : l = l.take n ++ l[n] :: l.drop (n + 1) := by
      rw [List.getElem_cons_drop, List.take_append_drop]
    refine ⟨l.take n, l[n], (List.take_append_getElem hlt).symm, ?_⟩
    rw [hsplit] at h
    have hwalk := h.iterate
    rw [List.length_take_of_le (Nat.le_of_lt hlt)] at hwalk
    exact hwalk

theorem dvd_carveLoop {fuel start stop size c : Nat} (hsize : n ∣ size) (hstart : n ∣ start)
    (hc : c ∈ carveLoop fuel start stop size) : n ∣ c := by
  induction fuel generalizing start with
  | zero => exact absurd hc List.not_mem_nil
  | succ fuel ih =>
    rw [carveLoop] at hc
    split_ifs at hc
    · rcases List.mem_cons.mp hc with rfl | hc
      · exact hstart
      · exact ih (hstart.add hsize) hc
    · exact absurd hc List.not_mem_nil

theorem lastLink (m : ByteMem) (hp : p ≠ 0) :
    NullChain (NEXT_OBJ (setNEXT_OBJ m p 0)) p [p] ∧
      ByteMem.SameBut sizeofPtr [p] m (setNEXT_OBJ m p 0) :=
  ⟨⟨rfl, hp, m.load_store p (by decide)⟩, .store m 0 List.mem_cons_self⟩

/-- The loop of `get_one_Span` makes a chain of the addresses it goes over, and writes nothing but
their links. -/
theorem carveLinks_spec (fuel : Nat) {tail start stop size : Nat} (hsize : sizeofPtr ∣ size)
    (hpos : 1 ≤ size) (htail : sizeofPtr ∣ tail) (hstart : sizeofPtr ∣ start) (hne : tail ≠ 0)
    (hlt : tail < start) (hstop : stop ≤ 256 ^ sizeofPtr) (m : ByteMem) :
    NullChain (NEXT_OBJ (carveLinks fuel m tail start stop size)) tail
        (tail :: carveLoop fuel start stop size) ∧
      ByteMem.SameBut sizeofPtr (tail :: carveLoop fuel start stop size) m
        (carveLinks fuel m tail start stop size) := by
  induction fuel generalizing m tail start with
  | zero => exact lastLink m hne
  | succ fuel ih =>
    rw [carveLinks, carveLoop]
    by_cases hgo : start < stop
    · rw [if_pos hgo, if_pos hgo]
      have hnext : NEXT_OBJ (setNEXT_OBJ m tail start) tail = start :=
        m.load_store tail (hgo.trans_le hstop)
      obtain ⟨hchain, hsame⟩ := ih hstart (hstart.add hsize) (by omega) (by omega)
        (setNEXT_OBJ m tail start)
      simp only [hnext]
      have hall : ∀ c ∈ start :: carveLoop fuel (start + size) stop size,
          sizeofPtr ∣ c ∧ tail < c := by
        intro c hc
        rcases List.mem_cons.mp hc with rfl | hc
        · exact ⟨hstart, hlt⟩
        · have hge := (mem_carveLoop hc).1
          exact ⟨dvd_carveLoop hsize (hstart.add hsize) hc, by omega⟩
      -- the links written later are those of later blocks
      have hkept : NEXT_OBJ (carveLinks fuel (setNEXT_OBJ m tail start) start (start + size) stop
          size) tail = start := by
        have hload := hsame.load (fun c hc => (hall c hc).1) htail
          (fun hm => absurd (hall tail hm).2 (lt_irrefl tail))
        exact hload.trans hnext
      refine ⟨hchain.cons hne hkept, ?_⟩
      exact (ByteMem.SameBut.store m start List.mem_cons_self).trans
        (hsame.mono (List.subset_cons_self _ _))
    · rw [if_neg hgo, if_neg hgo]
      exact lastLink m hne

end Loops

namespace Pool

variable {T : Type}

/-- The list that a variable points to. -/
def listAt (s : Pool T) : Var T → List Nat
  | ._head t i => ((s.thread t)._freelist i).chain
  | ._objlist r => if r ∈ s.carved then s.objlist r else []
  | .start t => (s.thread t).place.chain

section Lists

variable {s : Pool T} {t : T} {i r : Nat} {l : FreeList} {p : Place}

theorem listAt_init : (init : Pool T).listAt = fun _ => [] := by
  funext v
  cases v <;> rfl

theorem listAt_objlist (hr : r ∈ s.carved) : s.listAt (._objlist r) = s.objlist r := if_pos hr

theorem listAt_congr {s' : Pool T} (hthread : s'.thread = s.thread) (hcarved : s'.carved = s.carved)
    (hobj : ∀ r ∈ s.carved, s'.objlist r = s.objlist r) : s'.listAt = s.listAt := by
  funext v
  cases v with
  | _head u j => simp only [listAt, hthread]
  | start u => simp only [listAt, hthread]
  | _objlist x =>
    by_cases hx : x ∈ s.carved
    · rw [listAt_objlist hx, listAt_objlist (hcarved ▸ hx), hobj x hx]
    · simp only [listAt, hcarved, if_neg hx]

variable [DecidableEq T]

theorem listAt_setFreeList (s : Pool T) (t : T) (i : Nat) (l : FreeList) :
    (s.setFreeList t i l).listAt = Function.update s.listAt (._head t i) l.chain := by
  funext v
  cases v with
  | _head u j =>
    by_cases hu : u = t
    · subst hu
      by_cases hj : j = i
      · subst hj
        simp [listAt, setFreeList, setThread]
      · simp [listAt, setFreeList, setThread, hj]
    · simp [listAt, setFreeList, setThread, hu]
  | _objlist x => rfl
  | start u =>
    by_cases hu : u = t
    · subst hu
      simp [listAt, setFreeList, setThread]
    · simp [listAt, setFreeList, setThread, hu]

theorem listAt_setPlace (s : Pool T) (t : T) (p : Place) :
    (s.setPlace t p).listAt = Function.update s.listAt (.start t) p.chain := by
  funext v
  cases v with
  | _head u j =>
    by_cases hu : u = t
    · subst hu
      simp [listAt, setPlace, setThread]
    · simp [listAt, setPlace, setThread, hu]
  | _objlist x => rfl
  | start u =>
    by_cases hu : u = t
    · subst hu
      simp [listAt, setPlace, setThread]
    · simp [listAt, setPlace, setThread, hu]

@[simp]
theorem place_setPlace (s : Pool T) (t : T) (p : Place) : ((s.setPlace t p).thread t).place = p := by
  simp [setPlace, setThread]

@[simp]
theorem place_setFreeList (s : Pool T) (t : T) (i : Nat) (l : FreeList) :
    ((s.setFreeList t i l).thread t).place = (s.thread t).place := by
  simp [setFreeList, setThread]

theorem thread_setPlace {u : T} (hu : u ≠ t) (s : Pool T) (p : Place) :
    (s.setPlace t p).thread u = s.thread u :=
  Function.update_of_ne hu _ _

theorem thread_setFreeList {u : T} (hu : u ≠ t) (s : Pool T) (i : Nat) (l : FreeList) :
    (s.setFreeList t i l).thread u = s.thread u :=
  Function.update_of_ne hu _ _

/-- A thread goes on with the blocks it has on the way. -/
theorem listAt_goOn (hp : p.chain = (s.thread t).place.chain) :
    (s.setPlace t p).listAt = s.listAt := by
  rw [listAt_setPlace, hp]
  exact Function.update_eq_self (.start t) s.listAt

/-- The blocks of one span change. -/
theorem listAt_respan {s' : Pool T} {l : List Nat} (hthread : s'.thread = s.thread)
    (hr : s'.listAt (._objlist r) = l) (hcarved : ∀ x, x ≠ r → (x ∈ s'.carved ↔ x ∈ s.carved))
    (hobj : ∀ x, x ≠ r → s'.objlist x = s.objlist x) :
    s'.listAt = Function.update s.listAt (._objlist r) l := by
  funext v
  cases v with
  | _head u j =>
    rw [Function.update_of_ne (by simp)]
    simp only [listAt, hthread]
  | start u =>
    rw [Function.update_of_ne (by simp)]
    simp only [listAt, hthread]
  | _objlist x =>
    by_cases hx : x = r
    · rw [hx, Function.update_self]
      exact hr
    · rw [Function.update_of_ne (fun he => hx (Var._objlist.inj he))]
      simp only [listAt, hcarved x hx, hobj x hx]

theorem listAt_setSpan (s : Pool T) {r : Nat} (x : Span) (hr : r ∈ s.carved) :
    (s.setSpan r x).listAt = Function.update s.listAt (._objlist r) x._objlist := by
  refine listAt_respan rfl ?_ (fun _ _ => Iff.rfl) ?_
  · rw [listAt_objlist (s := s.setSpan r x) hr, objlist_setSpan, Function.update_self]
  · intro y hy
    rw [objlist_setSpan, Function.update_of_ne hy]

theorem listAt_carve (hchain : (s.thread t).place.chain = []) (size num : Nat) :
    (s.carve t size num r).listAt =
      Function.update s.listAt (._objlist r) (s.cache.span r).blocks := by
  simp only [carve]
  rw [listAt_goOn]
  · refine listAt_respan rfl ?_ ?_ ?_
    · rw [listAt_objlist List.mem_cons_self]
      exact (congrFun (s.objlist_setSpan r _) r).trans (Function.update_self _ _ _)
    · intro x hx
      exact List.mem_cons.trans (or_iff_right hx)
    · intro x hx
      exact (congrFun (s.objlist_setSpan r _) x).trans (Function.update_of_ne hx _ _)
  · exact hchain.symm

theorem listAt_retire (hnodup : s.carved.Nodup) (size : Nat) (rest : List Nat) :
    (s.retire t size r rest).listAt =
      Function.update (Function.update s.listAt (._objlist r) []) (.start t) rest := by
  simp only [retire]
  rw [listAt_setPlace]
  congr 1
  refine listAt_respan rfl (if_neg hnodup.not_mem_erase) ?_ ?_
  · intro x hx
    exact List.mem_erase_of_ne hx
  · intro x hx
    exact (congrFun (s.objlist_setSpan r _) x).trans (Function.update_of_ne hx _ _)

end Lists

/-- A span in use whose blocks are whole words. -/
structure Gridded (s : Pool T) (r : Nat) : Prop where
  used : r ∈ s.inUse
  words : 8 ∣ (s.cache.span r)._objsize
  pos : 1 ≤ (s.cache.span r)._objsize

section Blocks

variable [Fintype T] {s : Pool T} {v : Var T} {r b c x : Nat}

/-- A block in a list is one more than those that users have. -/
theorem Inv.listed_places (h : Inv s) (hb : b ∈ s.listAt v) : s.held.count b < s.places b := by
  cases v with
  | _head t i =>
    have hmem := ThreadCache.mem_blocks (h.core.bins t i b hb) hb
    have hpos := List.count_pos_iff.mpr hmem
    have hsum := le_sum (fun t => (s.thread t).blocks.count b) t
    rw [places]
    omega
  | start t =>
    have hpos : 0 < (s.thread t).blocks.count b := by
      have hmem := List.count_pos_iff.mpr hb
      rw [ThreadCache.count_blocks]
      exact Nat.add_pos_right _ hmem
    have hsum := le_sum (fun t => (s.thread t).blocks.count b) t
    rw [places]
    omega
  | _objlist r =>
    rw [listAt] at hb
    split_ifs at hb with hr
    · have hpos := List.count_pos_iff.mpr hb
      have hle := count_objlist_le hr b
      rw [places]
      omega
    · exact absurd hb List.not_mem_nil

theorem Inv.not_held (h : Inv s) (hb : b ∈ s.listAt v) : b ∉ s.held := by
  intro hheld
  have hlt := h.listed_places hb
  have hone := h.places_le_one b
  have hpos := List.count_pos_iff.mpr hheld
  omega

theorem Inv.listed_owner (h : Inv s) (hb : b ∈ s.listAt v) : ∃ r ∈ s.carved, b ∈ s.own r :=
  h.owner (Nat.zero_lt_of_lt (h.listed_places hb))

theorem Grid.gridded (hg : Grid s) (h : Inv s) (hr : r ∈ s.carved) : Gridded s r :=
  ⟨h.core.carved_inUse hr, hg.spans r hr, (h.core.filled r hr).size.1⟩

namespace Gridded

/-- Blocks are proper addresses of words. -/
theorem block (hr : Gridded s r) (hg : Grid s) (h : Inv s) (hb : b ∈ s.own r) :
    sizeofPtr ∣ b ∧ b ≠ 0 ∧ b < 256 ^ sizeofPtr := by
  obtain ⟨hpos, -⟩ := Grid.span_facts h hr.used
  obtain ⟨hid, hstop⟩ := hg.span_bounds h hr.used
  obtain ⟨hge, hle⟩ := Span.word_inside hpos hr.pos hr.words hb
  refine ⟨Span.eight_dvd_block hpos hr.pos hr.words hb, ?_, ?_⟩
  · have hfirst : 0 < (s.cache.span r)._pageid <<< PAGE_SHIFT := by
      rw [Nat.shiftLeft_eq]
      exact Nat.mul_pos (Nat.pos_of_ne_zero hid) (by decide)
    omega
  · have hpow : (2 : Nat) ^ 48 ≤ 256 ^ sizeofPtr := by decide
    omega

/-- The link of a block is in no byte of another block that its user may use. -/
theorem word_apart (hr : Gridded s r) (hg : Grid s) (h : Inv s) (hc : c ∈ s.own r)
    (hx : s.Usable b x) (hne : c ≠ b) : x < c ∨ c + sizeofPtr ≤ x := by
  obtain ⟨r', hr', hb, hbx, hxb, hstop⟩ := hx
  have hgrid' := hg.gridded h hr'
  obtain ⟨hpos, -⟩ := Grid.span_facts h hr.used
  obtain ⟨hpos', -⟩ := Grid.span_facts h hgrid'.used
  have hword := Span.word_inside hpos hr.pos hr.words hc
  have hword' := Span.word_inside hpos' hgrid'.pos hgrid'.words hb
  have hptr : sizeofPtr = 8 := rfl
  by_contra hin
  have hpage := Span.page_of_byte (x := s.cache.span r) (a := x) (by omega) (by omega)
  have hpage' := Span.page_of_byte (x := s.cache.span r') (a := x) (by omega) hstop
  obtain rfl := h.sound.shape.tiles.unique (List.mem_append_left _ hr.used)
    (List.mem_append_left _ hgrid'.used) hpage hpage'
  have height : 8 ≤ (s.cache.span r)._objsize := Nat.le_of_dvd hr.pos hr.words
  have hapart := Span.blocks_apart hpos hr.pos hc hb hne
  omega

end Gridded

/-- Different blocks have no byte in common that may be used. -/
theorem Usable.inj (hg : Grid s) (h : Inv s) (hb : s.Usable b x) (hc : s.Usable c x) : b = c := by
  obtain ⟨r, hr, hown, hbx, hxb, hstop⟩ := hb
  obtain ⟨r', hr', hown', hcx, hxc, hstop'⟩ := hc
  have hgrid := hg.gridded h hr
  have hgrid' := hg.gridded h hr'
  obtain ⟨hpos, -⟩ := Grid.span_facts h hgrid.used
  obtain ⟨hpos', -⟩ := Grid.span_facts h hgrid'.used
  have hword := Span.word_inside hpos hgrid.pos hgrid.words hown
  have hword' := Span.word_inside hpos' hgrid'.pos hgrid'.words hown'
  have hpage := Span.page_of_byte (x := s.cache.span r) (a := x) (by omega) hstop
  have hpage' := Span.page_of_byte (x := s.cache.span r') (a := x) (by omega) hstop'
  obtain rfl := h.sound.shape.tiles.unique (List.mem_append_left _ hgrid.used)
    (List.mem_append_left _ hgrid'.used) hpage hpage'
  by_contra hne
  have hapart := Span.blocks_apart hpos hgrid.pos hown hown' hne
  omega

/-- What a user may use of a block stays the same for as long as the user has it. -/
theorem Usable.step {s' : Pool T} (h : Inv s) (h' : Inv s') (hsame : SameSpans s s')
    (hheld : b ∈ s'.held) (hx : s.Usable b x) : s'.Usable b x := by
  obtain ⟨r, hr, hown, hbx, hxb, hstop⟩ := hx
  obtain ⟨r', hr', hown', -⟩ := h'.held_owner hheld
  obtain ⟨huse, hext⟩ := hsame r' hr'
  rw [own, hext.blocks] at hown'
  obtain rfl := h.own_unique huse (h.core.carved_inUse hr) hown' hown
  refine ⟨r', hr', ?_, hbx, ?_, ?_⟩
  · rw [own, hext.blocks]
    exact hown
  · rw [hext.objsize]
    exact hxb
  · rw [Span.stop, hext.pageid, hext.npage]
    exact hstop

theorem Grid.listed_block (hg : Grid s) (h : Inv s) (hb : b ∈ s.listAt v) :
    sizeofPtr ∣ b ∧ b ≠ 0 ∧ b < 256 ^ sizeofPtr := by
  obtain ⟨r, hr, hown⟩ := h.listed_owner hb
  exact (hg.gridded h hr).block hg h hown

end Blocks

end Pool

namespace Pointers

variable {T : Type} [DecidableEq T] {p : Pointers T} {lists : Var T → List Nat} {t : T}
  {v : Var T} {i r n obj e : Nat} {l l₁ l₂ : List Nat}

/-- The variables point to the chains of these lists. -/
def Links (p : Pointers T) (lists : Var T → List Nat) : Prop :=
  Chains sizeofPtr p.mem p.var lists

/-- From `p` to `q`, only links of the blocks `W` are written. -/
def Writes (p q : Pointers T) (W : List Nat) : Prop := ByteMem.SameBut sizeofPtr W p.mem q.mem

theorem Links.push (h : p.Links lists) (hnew : ∀ v, obj ∉ lists v)
    (hobj : sizeofPtr ∣ obj ∧ obj ≠ 0 ∧ obj < 256 ^ sizeofPtr) :
    (p.push v obj).Links (Function.update lists v (obj :: lists v)) ∧ p.Writes (p.push v obj) [obj] :=
  ⟨Chains.push h v hnew hobj.2.1 hobj.1 hobj.2.2, .store p.mem _ (List.mem_singleton_self obj)⟩

theorem Links.pop (h : p.Links lists) (hl : lists v = obj :: l) :
    (p.pop v).Links (Function.update lists v l) ∧ p.Writes (p.pop v) [] :=
  ⟨Chains.pop h hl, .refl [] p.mem⟩

theorem Links.cut (h : p.Links lists) (hv : v ≠ .start t) (hempty : lists (.start t) = [])
    (hl : (lists v).take n = l ++ [e]) :
    (p.cut v t e).Links (Function.update (Function.update lists v ((lists v).drop n)) (.start t)
      ((lists v).take n)) ∧ p.Writes (p.cut v t e) (lists v) := by
  have hsplit : lists v = l ++ e :: (lists v).drop n := by
    rw [List.append_cons, ← hl, List.take_append_drop]
  have hmem : e ∈ lists v := hsplit ▸ List.mem_append_right l List.mem_cons_self
  refine ⟨?_, .store p.mem 0 hmem⟩
  rw [hl]
  exact Chains.cut h hv hempty hsplit

theorem Links.PopRange (h : p.Links lists) (hempty : lists (.start t) = []) (hn : 1 ≤ n)
    (hle : n ≤ (lists (._head t i)).length) :
    (p.PopRange t i n).Links (Function.update (Function.update lists (._head t i)
      ((lists (._head t i)).drop n)) (.start t) ((lists (._head t i)).take n)) ∧
      p.Writes (p.PopRange t i n) (lists (._head t i)) := by
  obtain ⟨l₁, e, htake, hwalk⟩ := walk_spec (Chains.chain h (._head t i)) hn hle
  rw [Pointers.PopRange, hwalk]
  exact h.cut (by simp) hempty htake

theorem Links.takeRange (h : p.Links lists) (hempty : lists (.start t) = []) (hn : 1 ≤ n)
    (hl : lists (._objlist r) ≠ []) :
    (p.takeRange t n r).Links (Function.update (Function.update lists (._objlist r)
      ((lists (._objlist r)).drop n)) (.start t) ((lists (._objlist r)).take n)) ∧
      p.Writes (p.takeRange t n r) (lists (._objlist r)) ∧
      (∃ l, (lists (._objlist r)).take n = l ++ [(p.takeRange t n r).end_ t]) ∧
      (p.takeRange t n r).actualNum t = ((lists (._objlist r)).take n).length := by
  obtain ⟨k, rfl⟩ : ∃ k, n = k + 1 := ⟨n - 1, by omega⟩
  have hchain := Chains.chain h (._objlist r)
  have hstart : p.var (._objlist r) ≠ 0 := fun h0 => hl (hchain.eq_zero_iff.mp h0)
  obtain ⟨rest, hrest, -⟩ := hchain.uncons hstart
  rw [hrest] at hchain
  obtain ⟨l₁, e, htake, hloop⟩ := fetchLoop_spec hchain k 1
  rw [← hrest] at htake
  have hcut := h.cut (by simp) hempty htake
  have hend : (p.takeRange t (k + 1) r).end_ t = e := by
    simp only [Pointers.takeRange, Pool.decrement, hloop, Function.update_self]
  have hnum : (p.takeRange t (k + 1) r).actualNum t = 1 + l₁.length := by
    simp only [Pointers.takeRange, Pool.decrement, hloop, Function.update_self]
  have hmem : (p.takeRange t (k + 1) r).mem = (p.cut (._objlist r) t e).mem ∧
      (p.takeRange t (k + 1) r).var = (p.cut (._objlist r) t e).var := by
    simp only [Pointers.takeRange, Pool.decrement, hloop, and_self]
  refine ⟨?_, ?_, ⟨l₁, ?_⟩, ?_⟩
  · rw [Links, hmem.1, hmem.2]
    exact hcut.1
  · rw [Writes, hmem.1]
    exact hcut.2
  · rw [hend, htake]
  · rw [hnum, htake, List.length_append, List.length_singleton]
    omega

theorem Links.PushRange (h : p.Links lists) (hl : lists (.start t) = l ++ [e]) :
    (p.PushRange t i e).Links (Function.update (Function.update lists (._head t i)
      (lists (.start t) ++ lists (._head t i))) (.start t) []) ∧
      p.Writes (p.PushRange t i e) (lists (.start t)) := by
  have hmem : e ∈ lists (.start t) := hl ▸ List.mem_append_right l (List.mem_singleton_self e)
  exact ⟨Chains.join h (by simp) hl, .store p.mem _ hmem⟩

theorem Links.finishFetch (h : p.Links lists) (hl : lists (.start t) = obj :: l)
    (hend : ∃ l', lists (.start t) = l' ++ [p.end_ t])
    (hnum : p.actualNum t = (lists (.start t)).length) :
    (p.finishFetch t i).Links (Function.update (Function.update lists (._head t i)
      (l ++ lists (._head t i))) (.start t) []) ∧
      p.Writes (p.finishFetch t i) (lists (.start t)) := by
  have hne : Var._head t i ≠ .start t := by simp
  rw [hl, List.length_cons] at hnum
  rw [Pointers.finishFetch]
  cases l with
  | nil =>
    have hone : p.actualNum t = 1 := hnum
    rw [if_pos hone, List.nil_append, Function.update_eq_self]
    exact ⟨Chains.clear h (.start t), .refl _ p.mem⟩
  | cons a l =>
    have hmany : p.actualNum t ≠ 1 := by
      rw [hnum, List.length_cons]
      omega
    rw [if_neg hmany]
    have hpop := (h.pop hl).1
    have hrest : ∃ l', a :: l = l' ++ [p.end_ t] := by
      obtain ⟨l', hl'⟩ := hend
      rw [hl] at hl'
      cases l' with
      | nil => exact absurd (congrArg List.length hl') (by simp)
      | cons b l' =>
        rw [List.cons_append, List.cons.injEq] at hl'
        exact ⟨l', hl'.2⟩
    obtain ⟨l', hl'⟩ := hrest
    have hpush := hpop.PushRange (t := t) (i := i) (l := l') (e := p.end_ t)
      (by rw [Function.update_self, hl'])
    rw [Function.update_self, Function.update_of_ne hne] at hpush
    refine ⟨?_, ?_⟩
    · have hlists := hpush.1
      rw [Function.update_comm hne, Function.update_idem, Function.update_comm hne.symm] at hlists
      exact hlists
    · rw [hl]
      exact hpush.2.mono (List.subset_cons_self _ _)

theorem Links.releaseBlock (h : p.Links lists) (hl : lists (.start t) = obj :: l) (r : Nat)
    (hobj : sizeofPtr ∣ obj ∧ obj ≠ 0 ∧ obj < 256 ^ sizeofPtr) (last : Bool) :
    (p.releaseBlock t r last).Links (Function.update (Function.update lists (.start t) l)
      (._objlist r) (if last then [] else obj :: lists (._objlist r))) ∧
      p.Writes (p.releaseBlock t r last) (lists (.start t)) := by
  have hne : Var._objlist r ≠ .start t := by simp
  have hstart : p.var (.start t) = obj := by
    have hchain := Chains.chain h (.start t)
    rw [hl] at hchain
    exact hchain.1
  have hpop := (h.pop hl).1
  have hnew : ∀ v, obj ∉ Function.update lists (.start t) l v := by
    intro v
    have hnodup := h.spread.nodup (.start t)
    rw [hl] at hnodup
    by_cases hv : v = .start t
    · rw [hv, Function.update_self]
      exact (List.nodup_cons.mp hnodup).1
    · rw [Function.update_of_ne hv]
      exact fun hm => hv (h.spread.apart v (.start t) obj hm (hl ▸ List.mem_cons_self))
  have hpush := hpop.push (v := ._objlist r) hnew hobj
  rw [Function.update_of_ne hne] at hpush
  have hwrites : ∀ q : Pointers T, q.mem = ((p.pop (.start t)).push (._objlist r) obj).mem →
      p.Writes q (lists (.start t)) := by
    intro q hq
    rw [Writes, hq, hl]
    exact hpush.2.mono (List.cons_subset_cons obj (List.nil_subset l))
  rw [Pointers.releaseBlock, hstart]
  cases last with
  | false => exact ⟨hpush.1, hwrites _ rfl⟩
  | true =>
    have hclear := Chains.clear hpush.1 (._objlist r)
    rw [Function.update_idem] at hclear
    exact ⟨hclear, hwrites _ rfl⟩

theorem Links.carve (h : p.Links lists) {x : Span} (hpos : 1 ≤ x._npage) (hsize : 1 ≤ x._objsize)
    (hwords : 8 ∣ x._objsize) (hid : x._pageid ≠ 0) (hstop : x.stop ≤ 2 ^ 48)
    (hnew : ∀ b ∈ x.blocks, ∀ v, b ∉ lists v) (r : Nat) :
    (p.carve r x).Links (Function.update lists (._objlist r) x.blocks) ∧
      p.Writes (p.carve r x) x.blocks := by
  have hpage := Span.eight_dvd_page x._pageid
  have hfirst : x._pageid <<< PAGE_SHIFT ≠ 0 := by
    rw [Nat.shiftLeft_eq]
    exact Nat.mul_ne_zero hid (by decide)
  have hlast : x._pageid <<< PAGE_SHIFT + x._npage <<< PAGE_SHIFT ≤ 256 ^ sizeofPtr := by
    have hpow : (2 : Nat) ^ 48 ≤ 256 ^ sizeofPtr := by decide
    rw [← Span.end_eq]
    exact hstop.trans hpow
  obtain ⟨hchain, hsame⟩ := carveLinks_spec (x._npage <<< PAGE_SHIFT) hwords hsize hpage
    (Dvd.dvd.add hpage hwords) hfirst (Nat.lt_add_of_pos_right hsize) hlast p.mem
  have haligned : ∀ b ∈ x.blocks, sizeofPtr ∣ b :=
    fun b hb => Span.eight_dvd_block hpos hsize hwords hb
  have hbounded : ∀ b ∈ x.blocks, b < 256 ^ sizeofPtr := by
    intro b hb
    have hpow : (2 : Nat) ^ 48 ≤ 256 ^ sizeofPtr := by decide
    have hle := (Span.word_inside hpos hsize hwords hb).2
    omega
  exact ⟨Chains.adopt h (._objlist r) hchain hsame (Span.nodup_blocks hsize) hnew haligned hbounded,
    hsame⟩

end Pointers

end Mymuduo.Memory
