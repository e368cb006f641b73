import Mymuduo.Memory.PoolKept

namespace Mymuduo.Memory

open Lib PageCache

namespace Heap

open Pool

variable {T : Type}

section Frame

variable [DecidableEq T] {p q : Pool T} {t : T}

theorem allocate_thread (p : Pool T) (t : T) (size : Nat) :
    ∃ c, (p.Allocate t size).thread = Function.update p.thread t c := by
  simp only [Pool.Allocate]
  split
  · exact ⟨_, rfl⟩
  · simp only [startFetch]
    rw [setFreeList_setPlace]
    exact ⟨_, rfl⟩

theorem deallocateSize_thread (p : Pool T) (t : T) (ptr size : Nat) :
    ∃ c, (p.deallocateSize t ptr size).thread = Function.update p.thread t c := by
  simp only [Pool.deallocateSize]
  split_ifs
  · rw [setFreeList_setPlace]
    exact ⟨_, rfl⟩
  · exact ⟨_, rfl⟩

/-- A critical section of `t` changes no other thread. -/
theorem advance_thread {base : Nat} (h : p.advance t base = some q) :
    ∃ c, q.thread = Function.update p.thread t c := by
  rw [Pool.advance] at h
  split at h
  next => cases h
  next size num _ =>
    obtain rfl := Option.some.inj h
    rw [Pool.fetch_range_obj]
    split <;> exact ⟨_, rfl⟩
  next size num _ =>
    split_ifs at h
    obtain ⟨x, -, rfl⟩ := Option.map_eq_some_iff.mp h
    exact ⟨_, rfl⟩
  next =>
    obtain rfl := Option.some.inj h
    exact ⟨_, rfl⟩
  next =>
    obtain rfl := Option.some.inj h
    exact ⟨_, rfl⟩
  next size chain _ =>
    cases chain with
    | nil => cases h
    | cons obj rest =>
      obtain rfl := Option.some.inj h
      dsimp only
      split_ifs
      · exact ⟨_, rfl⟩
      · rw [setFreeList_setPlace]
        exact ⟨_, rfl⟩
  next =>
    obtain rfl := Option.some.inj h
    exact ⟨_, rfl⟩
  next =>
    obtain ⟨r, -, rfl⟩ := Option.map_eq_some_iff.mp h
    dsimp only
    split_ifs <;> exact ⟨_, rfl⟩
  next =>
    obtain ⟨c, -, rfl⟩ := Option.map_eq_some_iff.mp h
    exact ⟨_, rfl⟩

theorem advance_answers {base : Nat} (hin : (p.thread t).place.allocates = true)
    (h : p.advance t base = some q) :
    (q.thread t).place.allocates = true ∧ q.held = p.held ∨
      (q.thread t).place = .idle ∧ ∃ obj rest, (p.thread t).place.handed = obj :: rest ∧
        q.held = obj :: p.held := by
  rw [Pool.advance] at h
  cases hplace : (p.thread t).place with
  | fetching size num =>
    simp only [hplace] at h
    obtain rfl := Option.some.inj h
    refine Or.inl ?_
    rw [Pool.fetch_range_obj]
    split <;> exact ⟨by simp [takeRange, setPlace, setThread, Place.allocates], rfl⟩
  | needSpan size num =>
    simp only [hplace] at h
    split_ifs at h
    obtain ⟨x, -, rfl⟩ := Option.map_eq_some_iff.mp h
    exact Or.inl ⟨by simp [setPlace, setThread, Place.allocates], rfl⟩
  | carving size num r =>
    simp only [hplace] at h
    obtain rfl := Option.some.inj h
    exact Or.inl ⟨by simp [carve, setPlace, setThread, Place.allocates], rfl⟩
  | linking size num r =>
    simp only [hplace] at h
    obtain rfl := Option.some.inj h
    exact Or.inl ⟨by simp [linkSpan, takeRange, setPlace, setThread, Place.allocates], rfl⟩
  | fetched size chain =>
    simp only [hplace] at h
    cases chain with
    | nil => cases h
    | cons obj rest =>
      obtain rfl := Option.some.inj h
      refine Or.inr ⟨by simp [setPlace, setThread], obj, rest, rfl, ?_⟩
      dsimp only [setPlace, setThread]
      split_ifs <;> rfl
  | _ =>
    rw [hplace] at hin
    cases hin

end Frame

section Leaves

variable [DecidableEq T] {s s' : Heap T} {t u : T}

theorem leaves_Allocate (hu : u ≠ t) (size : Nat) : s.Leaves (s.Allocate t size) u := by
  rw [Heap.Allocate]
  split_ifs
  · obtain ⟨c, hc⟩ := allocate_thread s.pool t size
    refine ⟨rfl, ?_, rfl⟩
    simp only [hc, Function.update_of_ne hu]
  · exact ⟨rfl, rfl, rfl⟩

omit [DecidableEq T] in
theorem leaves_allocLarge (size base : Nat) : s.Leaves (s.allocLarge size base) u := by
  rw [allocLarge]
  split_ifs
  · exact ⟨rfl, rfl, rfl⟩
  · split <;> exact ⟨rfl, rfl, rfl⟩

theorem leaves_ConcurrentAlloc (asserts : Bool) (hu : u ≠ t) (size base : Nat) :
    s.Leaves (s.ConcurrentAlloc asserts t size base) u := by
  rw [Heap.ConcurrentAlloc]
  split_ifs
  · exact ⟨rfl, rfl, rfl⟩
  · exact leaves_allocLarge size base
  · dsimp only
    split
    next => exact ⟨Function.update_of_ne hu _ _, rfl, Function.update_of_ne hu _ _⟩
    next =>
      obtain ⟨hrequest, hthread, hin⟩ := leaves_Allocate hu size
        (s := { s with request := Function.update s.request t size })
      exact ⟨hrequest.trans (Function.update_of_ne hu _ _), hthread, hin⟩

theorem leaves_ConcurrentFree (asserts : Bool) (hu : u ≠ t) (ptr : Nat) :
    s.Leaves (s.ConcurrentFree asserts t ptr) u := by
  rw [Heap.ConcurrentFree]
  split
  next => exact ⟨rfl, rfl, rfl⟩
  next r _ =>
    dsimp only
    split_ifs
    · rw [freeLarge]
      split <;> exact ⟨rfl, rfl, rfl⟩
    · exact ⟨rfl, rfl, rfl⟩
    · exact ⟨rfl, rfl, rfl⟩
    · obtain ⟨c, hc⟩ := deallocateSize_thread s.pool t ptr (s.pool.cache.span r)._objsize
      refine ⟨rfl, ?_, rfl⟩
      simp only [hc, Function.update_of_ne hu]
    · exact ⟨rfl, rfl, rfl⟩

theorem leaves_next (hu : u ≠ t) (base : Nat) : s.Leaves (s.next t base) u := by
  rw [Heap.next]
  split
  next p _ =>
    rw [Heap.nextNew]
    split
    next => exact ⟨rfl, rfl, rfl⟩
    next c hc =>
      have hin : c.inNew u = s.caches.inNew u := TcPool.next_other hc hu
      dsimp only
      split_ifs
      · obtain ⟨hrequest, hthread, hin'⟩ := leaves_Allocate hu (s.request t)
          (s := { s with caches := c })
        exact ⟨hrequest, hthread, hin'.trans hin⟩
      · exact ⟨rfl, rfl, hin⟩
  next =>
    rw [Heap.nextSection]
    split
    next => exact ⟨rfl, rfl, rfl⟩
    next p hp =>
      obtain ⟨c, hc⟩ := advance_thread hp
      refine ⟨rfl, ?_, rfl⟩
      simp only [hc, Function.update_of_ne hu]

/-- A step of one thread is none in the calls of the others. -/
theorem leaves_step {asserts : Bool} {a : HeapAction T} (h : s.step asserts a = some s')
    (hu : u ≠ a.thread) : s.Leaves s' u := by
  cases a with
  | ConcurrentAlloc t size base =>
    simp only [Heap.step] at h
    split_ifs at h
    obtain rfl := Option.some.inj h
    exact leaves_ConcurrentAlloc asserts hu size base
  | ConcurrentFree t ptr =>
    simp only [Heap.step] at h
    split_ifs at h
    obtain rfl := Option.some.inj h
    exact leaves_ConcurrentFree asserts hu ptr
  | next t base =>
    simp only [Heap.step] at h
    split_ifs at h
    obtain rfl := Option.some.inj h
    exact leaves_next hu base

end Leaves

section Answers

variable [DecidableEq T] {s : Heap T} {t : T} {size base : Nat}

/-- `Allocate` has a block on its free list, or goes on to the central cache. -/
theorem answers_Allocate (hidle : s.Idle t) (hsize : s.request t = size)
    (halive : (s.Allocate t size).fault = none) : s.Answers (s.Allocate t size) t size := by
  rw [Heap.Allocate] at halive ⊢
  split_ifs at halive ⊢
  · simp only [Answers, Idle, Allocates, Pool.Allocate]
    cases hchain : ((s.pool.thread t)._freelist (index (round_up size))).chain with
    | nil =>
      refine Or.inl ⟨Or.inr ?_, hsize, rfl⟩
      simp [startFetch, setPlace, setThread, Place.allocates]
    | cons obj rest =>
      refine Or.inr ⟨⟨?_, hidle.2⟩, obj, rfl, Function.update_self _ _ _⟩
      simpa [setFreeList, setThread] using hidle.1
  · cases halive

omit [DecidableEq T] in
theorem answers_allocLarge (hidle : s.Idle t) (halive : (s.allocLarge size base).fault = none) :
    s.Answers (s.allocLarge size base) t size := by
  rw [allocLarge] at halive ⊢
  split_ifs at halive ⊢
  · cases halive
  · split at halive
    next => cases halive
    next r c _ =>
      exact Or.inr ⟨hidle, _, rfl, Function.update_self _ _ _⟩

theorem answers_ConcurrentAlloc {asserts : Bool} (hidle : s.Idle t)
    (halive : (s.ConcurrentAlloc asserts t size base).fault = none) :
    s.Answers (s.ConcurrentAlloc asserts t size base) t size := by
  rw [Heap.ConcurrentAlloc] at halive ⊢
  split_ifs at halive ⊢
  · cases halive
  · exact answers_allocLarge hidle halive
  · have hself : Function.update s.request t size t = size := Function.update_self _ _ _
    cases htls : s.caches.tls_threadcache t with
    | none =>
      refine Or.inl ⟨Or.inl ?_, ?_, ?_⟩
      · simp [htls, TcPool.moveTo]
      · simp [htls]
      · simp [htls]
    | some a =>
      simp only [htls] at halive ⊢
      exact answers_Allocate (s := { s with request := Function.update s.request t size }) hidle
        hself halive

end Answers

variable [Fintype T]

/-- What a step has to meet: the size asked for is not 0, not above `MAXBYTES`, and fits in
the last block of a span of its class, and a thread makes its first call while no other one is in
`TcPool.New()`; a thread that frees has allocated before, and in a build with asserts its free list
has room for the block; and a span that `new_Span` takes as it is has the entries of all its
pages. -/
def Meets (asserts : Bool) (s : Heap T) : HeapAction T → Prop
  | .ConcurrentAlloc t size _ => Fits size ∧
    (s.caches.tls_threadcache t = none → ∀ u, s.caches.inNew u = none)
  | .ConcurrentFree t ptr => s.caches.tls_threadcache t ≠ none ∧
    (asserts = true → ∀ r ∈ s.pool.map_object_to_Span ptr,
      ((s.pool.thread t)._freelist (index (s.pool.cache.span r)._objsize))._size <
        ((s.pool.thread t)._freelist (index (s.pool.cache.span r)._objsize))._maxSize)
  | .next t base => s.pool.HitMapped (.next t base)

instance (asserts : Bool) (s : Heap T) : (a : HeapAction T) → Decidable (s.Meets asserts a)
  | .ConcurrentAlloc _ _ _ => inferInstanceAs (Decidable (_ ∧ (_ → ∀ _, _)))
  | .ConcurrentFree _ _ => inferInstanceAs (Decidable (_ ∧ (_ → ∀ _ ∈ _, _)))
  | .next t base => inferInstanceAs (Decidable (s.pool.HitMapped (.next t base)))

/-- The invariant of the runs whose steps meet the condition. -/
structure Good (s : Heap T) : Prop where
  alive : s.fault = none
  inv : Inv s.pool
  entries : s.pool.Entries
  kept : Kept s.pool s.request s.asked
  caches : s.caches.Inv
  first : ∀ t, s.caches.inNew t ≠ none → (s.pool.thread t).place = .idle ∧ Fits (s.request t)

namespace Good

variable {s : Heap T}

theorem mapExact (h : Good s) : s.pool.MapExact := h.inv.mapExact_iff.mpr h.entries

theorem init : Good (init : Heap T) := by
  refine ⟨rfl, Inv.inv_init, ?_, Kept.init, TcPool.inv_init, fun _ ht => absurd rfl ht⟩
  intro r hr
  simp [Heap.init, Pool.init] at hr

/-- The span of a block that a user has. -/
theorem owner (h : Good s) {ptr : Nat} (hptr : ptr ∈ s.pool.held) :
    ∃ r ∈ s.pool.carved, ptr ∈ s.pool.own r ∧ s.pool.map_object_to_Span ptr = some r := by
  obtain ⟨r, hr, hown, -⟩ := h.inv.held_owner hptr
  exact ⟨r, hr, hown, h.mapExact.objects r (h.inv.core.carved_inUse hr) ptr hown⟩

theorem serves [DecidableEq T] (h : Good s) {ptr : Nat} (hptr : ptr ∈ s.pool.held) :
    ∃ r, s.Serves ptr r := by
  obtain ⟨r, hr, hown, hfound⟩ := h.owner hptr
  have hinUse := h.inv.core.carved_inUse hr
  obtain ⟨hsize, hfits⟩ := h.kept.noted ptr hptr r hr hown
  have hroom := (h.kept.spans r hinUse).room hsize hfits hown
  refine ⟨r, hfound, h.inv.sound.used r hinUse, hroom.1, hroom.2, ?_⟩
  intro hlarge
  have hmax := hfits.2.1
  omega

variable [DecidableEq T]

omit [DecidableEq T] in
/-- A thread in a critical section's call is not in `New`. -/
theorem not_inNew (h : Good s) {t : T} (hbusy : (s.pool.thread t).place ≠ .idle) :
    s.caches.inNew t = none := by
  by_contra hin
  exact hbusy (h.first t hin).1

theorem advance (h : Good s) {t : T} {base : Nat} (hbusy : (s.pool.thread t).place ≠ .idle)
    (hsbrk : s.sbrkOk t base) :
    ∃ p, s.pool.advance t base = some p ∧
      Kept p s.request (noted s.asked (s.request t) (s.pool.thread t).place.handed) ∧
      (p.thread t).place.rank < (s.pool.thread t).place.rank := by
  apply h.kept.advance h.inv (h.mapExact.mapsLive h.inv) hbusy
  intro size num hplace
  simpa [sbrkOk, hplace, h.not_inNew hbusy] using hsbrk

/-- A step of the pool keeps its invariant and its page map. -/
theorem poolStep (h : Good s) {a : PoolAction T} {p : Pool T} (hp : s.pool.step a = some p)
    (hit : s.pool.HitMapped a) : Inv p ∧ p.Entries :=
  ⟨h.inv.inv_step (h.mapExact.mapsLive h.inv) hp, (h.inv.entries_step h.entries hp).mpr hit⟩

omit [Fintype T] in
/-- A step of `t` that is not in `New` leaves those that are at their first call. -/
theorem first_other {request : T → Nat} {caches : TcPool T} {thread thread' : T → ThreadCache}
    {t : T} {c : ThreadCache}
    (h : ∀ u, caches.inNew u ≠ none → (thread u).place = .idle ∧ Fits (request u))
    (hthread : thread' = Function.update thread t c) (ht : caches.inNew t = none) :
    ∀ u, caches.inNew u ≠ none → (thread' u).place = .idle ∧ Fits (request u) := by
  intro u hu
  have hut : u ≠ t := by
    rintro rfl
    exact hu ht
  rw [hthread, Function.update_of_ne hut]
  exact h u hu

/-- `Allocate`, for a thread that has its cache. -/
theorem allocate (h : Good s) {t : T} (hidle : (s.pool.thread t).place = .idle)
    (ht : s.caches.inNew t = none) (hfits : Fits (s.request t)) :
    Good (s.Allocate t (s.request t)) := by
  have hindex := index_lt hfits.isClass.pos hfits.isClass.le
  have hp : s.pool.step (.Allocate t (s.request t)) = some (s.pool.Allocate t (s.request t)) :=
    if_pos ⟨hidle, hfits.1, hfits.2.1⟩
  obtain ⟨hinv, hentries⟩ := h.poolStep hp trivial
  have hkept := h.kept.Allocate h.inv hidle hfits
  rw [Function.update_eq_self] at hkept
  obtain ⟨c, hc⟩ := allocate_thread s.pool t (s.request t)
  rw [Heap.Allocate, if_pos hindex]
  exact ⟨h.alive, hinv, hentries, hkept, h.caches, first_other h.first hc ht⟩

omit [Fintype T] in
theorem allocate_rank {t : T} (hidle : (s.pool.thread t).place = .idle)
    (ht : s.caches.inNew t = none) (hfits : Fits (s.request t)) :
    (s.Allocate t (s.request t)).rank t ≤ 5 := by
  have hindex := index_lt hfits.isClass.pos hfits.isClass.le
  rw [Heap.Allocate, if_pos hindex]
  simp only [rank, ht, Pool.Allocate]
  split
  · simp [setFreeList, setThread, hidle, Place.rank]
  · simp [startFetch, setPlace, setThread, Place.rank]

/-- A thread that asks notes what it asks for. -/
theorem ask (h : Good s) {t : T} (hidle : s.Idle t) (size : Nat) :
    Good { s with request := Function.update s.request t size } := by
  refine ⟨h.alive, h.inv, h.entries, h.kept.ask hidle.1 size, h.caches, ?_⟩
  intro u hu
  have hut : u ≠ t := by
    rintro rfl
    exact hu hidle.2
  obtain ⟨hplace, hfit⟩ := h.first u hu
  refine ⟨hplace, ?_⟩
  simp only [Function.update_of_ne hut]
  exact hfit

theorem concurrentAlloc (h : Good s) {asserts : Bool} {t : T} {size base : Nat} (hidle : s.Idle t)
    (hmeets : s.Meets asserts (.ConcurrentAlloc t size base)) :
    Good (s.ConcurrentAlloc asserts t size base) := by
  obtain ⟨hfits, hfirst⟩ := hmeets
  have hsmall : ¬ size > MAXBYTES := Nat.not_lt.mpr hfits.2.1
  have hask := h.ask hidle size
  have hself : Function.update s.request t size t = size := Function.update_self _ _ _
  have hasked : Fits (Function.update s.request t size t) := by
    rw [hself]
    exact hfits
  rw [ConcurrentAlloc, if_neg hsmall]
  dsimp only
  split
  next htls =>
    have hnone := hfirst htls
    refine ⟨hask.alive, hask.inv, hask.entries, hask.kept, h.caches.enter hnone t, ?_⟩
    intro u hu
    have hut : u = t := by
      by_contra hne
      exact hu ((Function.update_of_ne hne _ _).trans (hnone u))
    rw [hut]
    exact ⟨hidle.1, hasked⟩
  next =>
    have halloc := hask.allocate hidle.1 hidle.2 hasked
    dsimp only at halloc
    rw [hself] at halloc
    exact halloc

theorem concurrentFree (h : Good s) {asserts : Bool} {t : T} {ptr : Nat} (hidle : s.Idle t)
    (hptr : ptr ∈ s.pool.held) (hmeets : s.Meets asserts (.ConcurrentFree t ptr)) :
    Good (s.ConcurrentFree asserts t ptr) := by
  obtain ⟨r, hr, hown, hfound⟩ := h.owner hptr
  obtain ⟨htls, hroom⟩ := hmeets
  have hclass := (h.kept.spans r (h.inv.core.carved_inUse hr)).isClass
  have hsmall : ¬ (s.pool.cache.span r)._objsize > MAXBYTES := Nat.not_lt.mpr hclass.le
  have hindex := index_lt hclass.pos hclass.le
  have hp : s.pool.step (.deallocate t ptr) =
      some (s.pool.deallocateSize t ptr (s.pool.cache.span r)._objsize) := by
    simp only [Pool.step, if_pos (And.intro hidle.1 hptr), Pool.deallocate, hfound, Option.map_some]
  obtain ⟨hinv, hentries⟩ := h.poolStep hp trivial
  have hpop := (h.kept.lists t (index (s.pool.cache.span r)._objsize)).not_refused ptr
    fun hasserts => hroom hasserts r hfound
  obtain ⟨c, hc⟩ := deallocateSize_thread s.pool t ptr (s.pool.cache.span r)._objsize
  simp only [ConcurrentFree, hfound, if_neg hsmall, if_neg htls, hindex, not_true_eq_false,
    if_false, if_neg hpop]
  exact ⟨h.alive, hinv, hentries, h.kept.deallocateSize hidle.1 ptr _, h.caches,
    first_other h.first hc hidle.2⟩

theorem nextSection (h : Good s) {t : T} {base : Nat} (hbusy : (s.pool.thread t).place ≠ .idle)
    (hsbrk : s.sbrkOk t base) (hit : s.pool.HitMapped (.next t base)) :
    Good (s.nextSection t base) := by
  obtain ⟨p, hp, hkept, -⟩ := h.advance hbusy hsbrk
  obtain ⟨hinv, hentries⟩ := h.poolStep (a := .next t base) hp hit
  obtain ⟨c, hc⟩ := advance_thread hp
  simp only [Heap.nextSection, hp]
  exact ⟨h.alive, hinv, hentries, hkept, h.caches, first_other h.first hc (h.not_inNew hbusy)⟩

/-- A statement of `New`; the last one is followed by `Allocate`. -/
theorem nextNew (h : Good s) {t : T} {base : Nat} {p : NewStep} (hp : s.caches.inNew t = some p)
    (hsbrk : s.sbrkOk t base) :
    Good (s.nextNew t base p) ∧ (s.nextNew t base p).rank t < s.rank t := by
  have hin : s.caches.inNew t ≠ none := by simp [hp]
  obtain ⟨hidle, hfits⟩ := h.first t hin
  have hfresh : p = .sbrk → s.caches.SbrkFresh base := by
    rintro rfl
    simpa [sbrkOk, hp] using hsbrk
  obtain ⟨c, hc, hinv, hnearer⟩ := h.caches.next hp hfresh
  have hrank : s.rank t = p.rank + 5 := by simp only [rank, hp]
  have hfirst : ∀ u, c.inNew u ≠ none → (s.pool.thread u).place = .idle ∧ Fits (s.request u) := by
    intro u hu
    by_cases hut : u = t
    · rw [hut]
      exact ⟨hidle, hfits⟩
    · rw [TcPool.next_other hc hut] at hu
      exact h.first u hu
  have hgood : Good { s with caches := c } :=
    ⟨h.alive, h.inv, h.entries, h.kept, hinv, hfirst⟩
  simp only [Heap.nextNew, hc, hrank]
  rcases hnearer with ⟨q, hq, hless⟩ | ⟨hout, -⟩
  · rw [if_neg (by simp [hq])]
    refine ⟨hgood, ?_⟩
    simp only [rank, hq]
    omega
  · rw [if_pos (by simp [hout])]
    refine ⟨hgood.allocate hidle hout hfits, ?_⟩
    have hle := allocate_rank (s := { s with caches := c }) hidle hout hfits
    have hpos : 1 ≤ p.rank := by cases p <;> simp [NewStep.rank]
    simp only at hle
    omega

theorem next (h : Good s) {t : T} {base : Nat} (hbusy : ¬ s.Idle t) (hsbrk : s.sbrkOk t base)
    (hit : s.pool.HitMapped (.next t base)) : Good (s.next t base) := by
  rw [Heap.next]
  split
  next p hp => exact (h.nextNew hp hsbrk).1
  next hnone => exact h.nextSection (fun hidle => hbusy ⟨hidle, hnone⟩) hsbrk hit

theorem step (h : Good s) {asserts : Bool} {a : HeapAction T} {s' : Heap T}
    (hs' : s.step asserts a = some s') (hmeets : s.Meets asserts a) : Good s' := by
  cases a with
  | ConcurrentAlloc t size base =>
    simp only [Heap.step] at hs'
    split_ifs at hs' with hg
    obtain rfl := Option.some.inj hs'
    exact h.concurrentAlloc hg.2.1 hmeets
  | ConcurrentFree t ptr =>
    simp only [Heap.step] at hs'
    split_ifs at hs' with hg
    obtain rfl := Option.some.inj hs'
    exact h.concurrentFree hg.2.1 hg.2.2 hmeets
  | next t base =>
    simp only [Heap.step] at hs'
    split_ifs at hs' with hg
    obtain rfl := Option.some.inj hs'
    exact h.next hg.2.1 hg.2.2 hmeets

/-- A thread in a call goes on, and comes closer to its end. -/
theorem completes (h : Good s) {t : T} {base : Nat} (hbusy : ¬ s.Idle t) (hsbrk : s.sbrkOk t base) :
    (s.next t base).fault = none ∧ (s.next t base).rank t < s.rank t := by
  rw [Heap.next]
  split
  next p hp =>
    obtain ⟨hgood, hrank⟩ := h.nextNew hp hsbrk
    exact ⟨hgood.alive, hrank⟩
  next hnone =>
    have hplace : (s.pool.thread t).place ≠ .idle := fun hidle => hbusy ⟨hidle, hnone⟩
    obtain ⟨p, hp, -, hrank⟩ := h.advance hplace hsbrk
    simp only [Heap.nextSection, hp, rank, hnone]
    exact ⟨h.alive, hrank⟩

/-- A step of a call of `ConcurrentAlloc`. -/
theorem answers (h : Good s) {t : T} {base : Nat} (hin : s.Allocates t)
    (halive : (s.next t base).fault = none) : s.Answers (s.next t base) t (s.request t) := by
  rw [Heap.next] at halive ⊢
  split at halive
  next p hp =>
    have hidle := (h.first t (by simp [hp])).1
    rw [Heap.nextNew] at halive ⊢
    cases hc : s.caches.next t base p with
    | none =>
      rw [hc] at halive
      cases halive
    | some c =>
      simp only [hc] at halive ⊢
      split_ifs at halive ⊢ with hout
      · have hready : Idle { s with caches := c } t := ⟨hidle, Option.isNone_iff_eq_none.mp hout⟩
        exact answers_Allocate hready rfl halive
      · exact Or.inl ⟨Or.inl fun hnone => hout (Option.isNone_iff_eq_none.mpr hnone), rfl, rfl⟩
  next hnone =>
    have hplace := hin.resolve_left fun hne => hne hnone
    rw [Heap.nextSection] at halive ⊢
    cases hp : s.pool.advance t base with
    | none =>
      rw [hp] at halive
      cases halive
    | some p =>
      rcases advance_answers hplace hp with ⟨hstill, hheld⟩ | ⟨hidle, obj, rest, hobj, hheld⟩
      · exact Or.inl ⟨Or.inr hstill, rfl, hheld⟩
      · refine Or.inr ⟨⟨hidle, hnone⟩, obj, hheld, ?_⟩
        simp only [hobj, noted, Function.update_self]

omit [Fintype T] in
theorem frees {asserts : Bool} {t : T} {ptr : Nat}
    (halive : (s.ConcurrentFree asserts t ptr).fault = none) :
    (s.ConcurrentFree asserts t ptr).pool.held = s.pool.held.erase ptr := by
  rw [Heap.ConcurrentFree] at halive ⊢
  cases hr : s.pool.map_object_to_Span ptr with
  | none =>
    rw [hr] at halive
    cases halive
  | some r =>
    simp only [hr] at halive ⊢
    split_ifs at halive ⊢
    · rw [freeLarge] at halive ⊢
      cases hc : s.pool.cache.relase_to_PageCache r with
      | none =>
        rw [hc] at halive
        cases halive
      | some c => rfl
    · cases halive
    · cases halive
    · rw [Pool.deallocateSize]
      dsimp only
      split_ifs <;> rfl
    · cases halive

theorem safe (h : Good s) (asserts : Bool) : s.Safe asserts := by
  refine ⟨h.alive, h.caches.own, fun ptr hptr => h.serves hptr, ?_,
    fun _ _ _ hs' hu => leaves_step hs' hu, ?_, ?_, ?_⟩
  · intro t base hbusy hsbrk
    obtain ⟨halive, hrank⟩ := h.completes hbusy hsbrk
    exact ⟨s.next t base, if_pos ⟨h.alive, hbusy, hsbrk⟩, halive, hrank⟩
  · intro t size base s' hs' halive
    simp only [Heap.step] at hs'
    split_ifs at hs' with hg
    obtain rfl := Option.some.inj hs'
    exact answers_ConcurrentAlloc hg.2.1 halive
  · intro t base s' hin hs' halive
    simp only [Heap.step] at hs'
    split_ifs at hs' with hg
    obtain rfl := Option.some.inj hs'
    exact h.answers hin halive
  · intro t ptr s' hs' halive
    simp only [Heap.step] at hs'
    split_ifs at hs' with hg
    obtain rfl := Option.some.inj hs'
    exact frees halive

end Good

variable [DecidableEq T]

/-- In every run whose steps all meet the condition, for any number of threads, no call ends
the process, each thread has a cache of its own, and every block handed out has the bytes that were
asked for inside the span in use that the page map gives for it. -/
theorem alloc_free_safe (asserts : Bool) (as : List (HeapAction T))
    (h : Each (step asserts) (Meets asserts) init as) :
    Always (step asserts) (Safe asserts) init as := by
  have hgood : Always (step asserts) Good init as := by
    refine always_of_each ?_ Good.init h
    intro s a t hs ht hmeets
    exact hs.step ht hmeets
  exact hgood.mono fun s hs => hs.safe asserts

/-- One thread gets its cache at page 9, asks for 128 KiB and gives them back. -/
def roundTrip : List (HeapAction Unit) :=
  .ConcurrentAlloc () 131072 1 :: List.replicate 7 (.next () 9) ++ List.replicate 5 (.next () 1) ++
    [.ConcurrentFree () 8192]

theorem alloc_free_safe_roundTrip : (run (step true) init roundTrip).isSome = true ∧
    Always (step true) (Safe true) init roundTrip :=
  ⟨by decide +kernel, alloc_free_safe true roundTrip (by decide +kernel)⟩

omit [Fintype T] in
/-- In a build with asserts a call of a thread that has its cache decides on the size alone. -/
theorem concurrentAlloc_alive_iff {s : Heap T} (hs : s.fault = none) {t : T}
    (ht : s.caches.tls_threadcache t ≠ none) (size base : Nat) :
    (s.ConcurrentAlloc true t size base).fault = none ↔ 1 ≤ size ∧ size ≤ MAXBYTES := by
  obtain ⟨a, ha⟩ := Option.ne_none_iff_exists'.mp ht
  rw [ConcurrentAlloc]
  by_cases hlarge : size > MAXBYTES
  · rw [if_pos hlarge, if_pos rfl]
    constructor
    · intro h
      cases h
    · intro h
      omega
  rw [if_neg hlarge]
  simp only [ha, Allocate]
  by_cases hzero : size = 0
  · have hindex : ¬ index (round_up size) < NFREELIST := by
      rw [hzero, index_zero]
      rw [NFREELIST]
      omega
    rw [if_neg hindex]
    constructor
    · intro h
      cases h
    · intro h
      omega
  · have hclass : IsClass (round_up size) := isClass_round_up (by omega) (by omega)
    rw [if_pos (index_lt hclass.pos hclass.le)]
    exact iff_of_true hs ⟨by omega, by omega⟩

omit [Fintype T] in
/-- In a build without asserts a request above `MAXBYTES` writes through a null leaf, or gets a span
that is not marked as used. -/
theorem allocLarge_not_safe (s : Heap T) {size : Nat} (hlarge : size > MAXBYTES) (base : Nat) :
    ¬ (s.allocLarge size base).Safe false := by
  have hround : round_up size = 2 ^ 64 - 1 := by
    rw [MAXBYTES] at hlarge
    rw [round_up]
    split_ifs <;> omega
  have hpages : round_up size >>> PAGE_SHIFT ≥ NPAGES := by
    rw [hround]
    decide
  have hspan : PageCache.new_Span 2 s.pool.cache (round_up size >>> PAGE_SHIFT) base =
      some (s.pool.cache.newRef, s.pool.cache.takeLarge (round_up size >>> PAGE_SHIFT) base) :=
    if_pos hpages
  intro h
  rw [allocLarge] at h
  split_ifs at h
  · cases h.alive
  · simp only [hspan] at h
    obtain ⟨r, hserves⟩ := h.blocks _ List.mem_cons_self
    have hfound := hserves.found
    have hused := hserves.used
    simp only [map_object_to_Span, PageCache.get, takeLarge, PageCache.setSpan, PageCache.set,
      Function.update_self, Nat.shiftLeft_shiftRight] at hfound hused
    split_ifs at hfound
    obtain rfl := Option.some.inj hfound
    simp [New, construct] at hused

/-- A first request for no bytes, which indexes `_freelist` far out of range once the thread has its
cache. -/
def forNothing : List (HeapAction Unit) :=
  .ConcurrentAlloc () 0 1 :: List.replicate 7 (.next () 9)

/-- Two first calls that are in `New` at once. -/
def overlapping : List (HeapAction Bool) :=
  .ConcurrentAlloc false 8 1 :: List.replicate 4 (.next false 9) ++
    .ConcurrentAlloc true 8 1 :: List.replicate 2 (.next true 9) ++
    List.replicate 3 (.next false 9) ++ List.replicate 3 (.next true 9)

omit [Fintype T] in
theorem not_safe_of_fault {s : Option (Heap T)} {f : Fault} (h : s.map (·.fault) = some (some f))
    (asserts : Bool) : ∃ t, s = some t ∧ t.fault = some f ∧ ¬ t.Safe asserts := by
  obtain ⟨t, hs, hf⟩ := Option.map_eq_some_iff.mp h
  refine ⟨t, hs, hf, fun hsafe => ?_⟩
  rw [hsafe.alive] at hf
  cases hf

/-- A request for no bytes indexes `_freelist` far out of range, and one for a byte more than
`MAXBYTES` ends in the assert of `round_up`, or at a null leaf where that is compiled out. Two
threads that make their first calls at once get the same thread cache. -/
theorem zero_and_large_fault :
    (∃ s, run (step true) init forNothing = some s ∧ s.fault = some .freelistIndex ∧
      ¬ s.Safe true) ∧
    (∃ s : Heap Unit, step true init (.ConcurrentAlloc () 262145 1) = some s ∧
      s.fault = some .assertion ∧ ¬ s.Safe true) ∧
    (∃ s : Heap Unit, step false init (.ConcurrentAlloc () 262145 1) = some s ∧
      s.fault = some .nullPointer ∧ ¬ s.Safe false) ∧
    ∃ s, run (step true) init overlapping = some s ∧ s.fault = some .sharedCache ∧
      ¬ s.Safe true := by
  refine ⟨?_, ?_, ?_, ?_⟩ <;> apply not_safe_of_fault
  · decide +kernel
  · decide +kernel
  · decide +kernel
  · decide +kernel

end Heap

end Mymuduo.Memory
