import Mymuduo.Lib.Run
import Mymuduo.Lib.Threads

namespace Mymuduo.Log

open Lib

/-- Where a thread is in `Push` or in `Pop`: before the call named, or inside `wait`, where it is
`waiting` until it is woken and then has to take the mutex again. -/
inductive Place (α : Type) where
  | idle
  | lockPush (data : α)
  | push (data : α)
  | notify_one
  | unlockPush
  | lockPop
  | empty
  | waiting
  | woken
  | front
  | unlockPop (data : α)

/-- `class LockQueue` and the threads that use it. `pushed` and `popped` record what went into
`m_queue` and came out of it, and by which thread, and `fault` a `front` of an empty queue. -/
structure LockQueue (T α : Type) where
  m_queue : List α
  m_mutex : Option T
  place : T → Place α
  pushed : List (T × α)
  popped : List (T × α)
  fault : Bool

/-- A thread calls `Push` or `Pop`, goes on in the call it is in, or wakes in `wait` for no
reason. `notify_one` wakes one thread of the kernel's choice. -/
inductive QueueAction (T α : Type) where
  | Push (t : T) (data : α)
  | Pop (t : T)
  | go (t : T) (chosen : Option T)
  | wake (t : T)

namespace LockQueue

variable {T α : Type} [DecidableEq T] [Fintype T]

def init : LockQueue T α where
  m_queue := []
  m_mutex := none
  place := fun _ => .idle
  pushed := []
  popped := []
  fault := false

def isWaiting : Place α → Bool
  | .waiting => true
  | _ => false

def moveTo (s : LockQueue T α) (t : T) (p : Place α) : LockQueue T α :=
  { s with place := Function.update s.place t p }

def lock (s : LockQueue T α) (t : T) (p : Place α) : Option (LockQueue T α) :=
  if s.m_mutex.isNone then some { s.moveTo t p with m_mutex := some t } else none

def unlock (s : LockQueue T α) (t : T) (p : Place α) : LockQueue T α :=
  { s.moveTo t p with m_mutex := none }

/-- The next step of the call that `t` is in. -/
def go (s : LockQueue T α) (t : T) (chosen : Option T) : Option (LockQueue T α) :=
  match s.place t with
  | .idle => none
  | .lockPush data => s.lock t (.push data)
  | .push data =>
    some { s.moveTo t .notify_one with
      m_queue := s.m_queue ++ [data], pushed := s.pushed ++ [(t, data)] }
  | .notify_one =>
    match chosen with
    | some u => if isWaiting (s.place u) then some ((s.moveTo u .woken).moveTo t .unlockPush) else none
    | none => if ∀ u, isWaiting (s.place u) = false then some (s.moveTo t .unlockPush) else none
  | .unlockPush => some (s.unlock t .idle)
  | .lockPop => s.lock t .empty
  | .empty => if s.m_queue.isEmpty then some (s.unlock t .waiting) else some (s.moveTo t .front)
  | .waiting => none
  | .woken => s.lock t .empty
  | .front =>
    match s.m_queue with
    | [] => some { s with fault := true }
    | data :: rest =>
      some { s.moveTo t (.unlockPop data) with m_queue := rest, popped := s.popped ++ [(t, data)] }
  | .unlockPop _ => some (s.unlock t .idle)

def isIdle : Place α → Bool
  | .idle => true
  | _ => false

def step (s : LockQueue T α) : QueueAction T α → Option (LockQueue T α)
  | .Push t data => if isIdle (s.place t) then some (s.moveTo t (.lockPush data)) else none
  | .Pop t => if isIdle (s.place t) then some (s.moveTo t .lockPop) else none
  | .go t chosen => s.go t chosen
  | .wake t => if isWaiting (s.place t) then some (s.moveTo t .woken) else none

/-- The places that are between a lock and its unlock. -/
def inside : Place α → Bool
  | .push _ | .notify_one | .unlockPush | .empty | .front | .unlockPop _ => true
  | _ => false

/-- In `Pop`, not asleep, and without an element yet. -/
def coming : Place α → Bool
  | .lockPop | .empty | .woken | .front => true
  | _ => false

def notifying : Place α → Bool
  | .notify_one => true
  | _ => false

/-- While a thread sleeps, for each of `n` elements there is a thread on its way to take one, or a
`notify_one` about to be called. -/
def Awake (n : Nat) (place : T → Place α) : Prop :=
  (∃ t, place t = .waiting) → n ≤ tally coming place + tally notifying place

structure Inv (s : LockQueue T α) : Prop where
  owner : Owned inside s.m_mutex s.place
  front : ∀ t, s.place t = .front → s.m_queue ≠ []
  noFault : s.fault = false
  order : s.pushed.map Prod.snd = s.popped.map Prod.snd ++ s.m_queue
  awake : Awake s.m_queue.length s.place

/-- A step that uses up no more threads on their way than it takes elements. -/
theorem Awake.move {n n' : Nat} {place : T → Place α} {t : T} {p : Place α} (h : Awake n place)
    (hp : p ≠ .waiting)
    (hn : n' + (coming (place t)).toNat + (notifying (place t)).toNat ≤
      n + (coming p).toNat + (notifying p).toNat) : Awake n' (Function.update place t p) := by
  rintro ⟨u, hu⟩
  have hut : u ≠ t := by
    rintro rfl
    rw [Function.update_self] at hu
    exact hp hu
  rw [Function.update_of_ne hut] at hu
  have hold := h ⟨u, hu⟩
  have hcoming := tally_update coming place t p
  have hnotifying := tally_update notifying place t p
  omega

omit [Fintype T] in
theorem front_move {q : List α} {place : T → Place α} {t : T} {p : Place α}
    (h : ∀ u, place u = .front → q ≠ []) (hp : p = .front → q ≠ []) :
    ∀ u, Function.update place t p u = .front → q ≠ [] := by
  intro u hu
  by_cases hut : u = t
  · rw [hut, Function.update_self] at hu
    exact hp hu
  · rw [Function.update_of_ne hut] at hu
    exact h u hu

variable {s s' : LockQueue T α} {t : T} {p : Place α}

/-- A step of `t` that changes nothing but its place. -/
theorem Inv.moveTo (h : Inv s) (hin : inside p = inside (s.place t)) (hp : p ≠ .waiting)
    (hfront : p = .front → s.m_queue ≠ [])
    (hn : (coming (s.place t)).toNat + (notifying (s.place t)).toNat ≤
      (coming p).toNat + (notifying p).toNat) : Inv (s.moveTo t p) := by
  have hawake : Awake s.m_queue.length (Function.update s.place t p) :=
    h.awake.move hp (by omega)
  exact ⟨h.owner.stay hin, front_move h.front hfront, h.noFault, h.order, hawake⟩

theorem Inv.lock (h : Inv s) (hs : s.lock t p = some s') (hin : inside p = true)
    (hfront : p ≠ .front)
    (hn : (coming (s.place t)).toNat + (notifying (s.place t)).toNat ≤
      (coming p).toNat + (notifying p).toNat) : Inv s' := by
  rw [LockQueue.lock] at hs
  split_ifs at hs with hfree
  obtain rfl := Option.some.inj hs
  have howner := h.owner
  rw [Option.isNone_iff_eq_none.mp hfree] at howner
  have hasleep : p ≠ .waiting := by
    rintro rfl
    cases hin
  have hawake : Awake s.m_queue.length (Function.update s.place t p) :=
    h.awake.move hasleep (by omega)
  exact ⟨howner.lock hin, front_move h.front fun hp => absurd hp hfront, h.noFault, h.order,
    hawake⟩

/-- The end of a call. -/
theorem Inv.unlock (h : Inv s) (hin : inside (s.place t) = true)
    (hn : coming (s.place t) = false ∧ notifying (s.place t) = false) : Inv (s.unlock t .idle) := by
  have hawake : Awake s.m_queue.length (Function.update s.place t .idle) := by
    apply h.awake.move (by simp)
    rw [hn.1, hn.2]
    exact le_rfl
  exact ⟨h.owner.unlock hin rfl, front_move h.front (by simp), h.noFault, h.order, hawake⟩

/-- `wait` lets the mutex go, of an empty queue. -/
theorem Inv.wait (h : Inv s) (hp : s.place t = .empty) (hempty : s.m_queue = []) :
    Inv (s.unlock t .waiting) := by
  have hin : inside (s.place t) = true := by rw [hp]; rfl
  have hawake : Awake s.m_queue.length (Function.update s.place t .waiting) := by
    intro _
    rw [hempty]
    exact Nat.zero_le _
  exact ⟨h.owner.unlock hin rfl, front_move h.front (by simp), h.noFault, h.order, hawake⟩

theorem Inv.push (h : Inv s) {data : α} (hp : s.place t = .push data) :
    Inv { s.moveTo t .notify_one with
      m_queue := s.m_queue ++ [data], pushed := s.pushed ++ [(t, data)] } := by
  have hawake : Awake (s.m_queue ++ [data]).length (Function.update s.place t .notify_one) := by
    apply h.awake.move (by simp)
    simp [hp, coming, notifying]
  have horder : (s.pushed ++ [(t, data)]).map Prod.snd =
      s.popped.map Prod.snd ++ (s.m_queue ++ [data]) := by
    rw [List.map_append, h.order, List.append_assoc]
    rfl
  exact ⟨h.owner.stay (by rw [hp]; rfl), fun u _ => by simp, h.noFault, horder, hawake⟩

/-- The thread that `notify_one` wakes takes its place among those on their way. -/
theorem Inv.notify (h : Inv s) (hp : s.place t = .notify_one) {u : T}
    (hu : s.place u = .waiting) : Inv ((s.moveTo u .woken).moveTo t .unlockPush) := by
  have hut : t ≠ u := by
    rintro rfl
    rw [hp] at hu
    cases hu
  have ht : Function.update s.place u .woken t = .notify_one := by
    rw [Function.update_of_ne hut, hp]
  have hwoken : Awake (s.m_queue.length + 1) (Function.update s.place u .woken) := by
    apply h.awake.move (by simp)
    simp [hu, coming, notifying]
  have hawake : Awake s.m_queue.length
      (Function.update (Function.update s.place u .woken) t .unlockPush) := by
    apply hwoken.move (by simp)
    simp [ht, coming, notifying]
  have howner : Owned inside s.m_mutex (Function.update s.place u .woken) :=
    h.owner.stay (by rw [hu]; rfl)
  exact ⟨howner.stay (by rw [ht]; rfl), front_move (front_move h.front (by simp)) (by simp),
    h.noFault, h.order, hawake⟩

theorem Inv.notify_none (h : Inv s) (hp : s.place t = .notify_one)
    (hnone : ∀ u, isWaiting (s.place u) = false) : Inv (s.moveTo t .unlockPush) := by
  have hawake : Awake s.m_queue.length (Function.update s.place t .unlockPush) := by
    rintro ⟨u, hu⟩
    by_cases hut : u = t
    · rw [hut, Function.update_self] at hu
      cases hu
    · rw [Function.update_of_ne hut] at hu
      have hasleep := hnone u
      rw [hu] at hasleep
      cases hasleep
  exact ⟨h.owner.stay (by rw [hp]; rfl), front_move h.front (by simp), h.noFault, h.order, hawake⟩

theorem Inv.pop (h : Inv s) (hp : s.place t = .front) {data : α} {rest : List α}
    (hq : s.m_queue = data :: rest) :
    Inv { s.moveTo t (.unlockPop data) with m_queue := rest, popped := s.popped ++ [(t, data)] } := by
  have hin : inside (s.place t) = true := by rw [hp]; rfl
  have hawake : Awake rest.length (Function.update s.place t (.unlockPop data)) := by
    apply h.awake.move (by simp)
    simp [hp, hq, coming, notifying]
  have horder : s.pushed.map Prod.snd = (s.popped ++ [(t, data)]).map Prod.snd ++ rest := by
    rw [List.map_append, h.order, hq, List.append_assoc]
    rfl
  refine ⟨h.owner.stay (by rw [hp]; rfl), ?_, h.noFault, horder, hawake⟩
  -- another thread at `front` would hold the mutex too
  intro u hu
  by_cases hut : u = t
  · have hself : Function.update s.place t (.unlockPop data) u = .unlockPop data := by
      rw [hut, Function.update_self]
    exact absurd (hself.symm.trans hu) (by simp)
  · have hother : s.place u = .front := by
      rw [← hu]
      exact (Function.update_of_ne hut _ _).symm
    have hinu : inside (s.place u) = true := by rw [hother]; rfl
    exact absurd (h.owner.exclusive hinu hin) hut

omit [DecidableEq T] [Fintype T] in
theorem isWaiting_iff {p : Place α} : isWaiting p = true ↔ p = .waiting := by
  cases p <;> simp [isWaiting]

omit [DecidableEq T] [Fintype T] in
theorem isIdle_iff {p : Place α} : isIdle p = true ↔ p = .idle := by
  cases p <;> simp [isIdle]

theorem Inv.go (h : Inv s) {chosen : Option T} (hs : s.go t chosen = some s') : Inv s' := by
  unfold LockQueue.go at hs
  split at hs
  next => cases hs
  next data hp => exact h.lock hs rfl (by simp) (by simp [hp, coming, notifying])
  next data hp =>
    obtain rfl := Option.some.inj hs
    exact h.push hp
  next hp =>
    split at hs
    next u =>
      split_ifs at hs with hu
      obtain rfl := Option.some.inj hs
      exact h.notify hp (isWaiting_iff.mp hu)
    next =>
      split_ifs at hs with hnone
      obtain rfl := Option.some.inj hs
      exact h.notify_none hp hnone
  next hp =>
    obtain rfl := Option.some.inj hs
    exact h.unlock (by rw [hp]; rfl) (by rw [hp]; exact ⟨rfl, rfl⟩)
  next hp => exact h.lock hs rfl (by simp) (by simp [hp, coming, notifying])
  next hp =>
    split_ifs at hs with hempty
    · obtain rfl := Option.some.inj hs
      exact h.wait hp (List.isEmpty_iff.mp hempty)
    · obtain rfl := Option.some.inj hs
      apply h.moveTo (by rw [hp]; rfl) (by simp)
      · intro _ hnil
        exact hempty (List.isEmpty_iff.mpr hnil)
      · simp [hp, coming, notifying]
  next => cases hs
  next hp => exact h.lock hs rfl (by simp) (by simp [hp, coming, notifying])
  next hp =>
    split at hs
    next hnil => exact absurd hnil (h.front t hp)
    next data rest hq =>
      obtain rfl := Option.some.inj hs
      exact h.pop hp hq
  next data hp =>
    obtain rfl := Option.some.inj hs
    exact h.unlock (by rw [hp]; rfl) (by rw [hp]; exact ⟨rfl, rfl⟩)

theorem Inv.step (h : Inv s) {a : QueueAction T α} (hs : s.step a = some s') : Inv s' := by
  cases a with
  | Push t data =>
    simp only [LockQueue.step] at hs
    split_ifs at hs with hidle
    obtain rfl := Option.some.inj hs
    rw [isIdle_iff] at hidle
    exact h.moveTo (by rw [hidle]; rfl) (by simp) (by simp) (by simp [hidle, coming, notifying])
  | Pop t =>
    simp only [LockQueue.step] at hs
    split_ifs at hs with hidle
    obtain rfl := Option.some.inj hs
    rw [isIdle_iff] at hidle
    exact h.moveTo (by rw [hidle]; rfl) (by simp) (by simp) (by simp [hidle, coming, notifying])
  | go t chosen => exact h.go hs
  | wake t =>
    simp only [LockQueue.step] at hs
    split_ifs at hs with hasleep
    obtain rfl := Option.some.inj hs
    rw [isWaiting_iff] at hasleep
    exact h.moveTo (by rw [hasleep]; rfl) (by simp) (by simp) (by simp [hasleep, coming, notifying])

omit [DecidableEq T] in
theorem inv_init : Inv (init : LockQueue T α) := by
  refine ⟨?_, ?_, rfl, rfl, ?_⟩
  · intro t
    simp [init, inside]
  · intro t ht
    cases ht
  · rintro ⟨t, ht⟩
    cases ht

section Calls

/-- The calls of `Push` made so far with what they were given, and what the calls of `Pop` that
have ended returned. -/
structure Calls (T α : Type) where
  given : List (T × α)
  returned : List (T × α)

/-- What a thread in `Push` has still to push. -/
def pushing : Place α → List α
  | .lockPush data | .push data => [data]
  | _ => []

/-- What a thread at the end of `Pop` is about to return. -/
def holding : Place α → List α
  | .unlockPop data => [data]
  | _ => []

def note (s : LockQueue T α) (a : QueueAction T α) (c : Calls T α) : Calls T α :=
  match a with
  | .Push t data => { c with given := c.given ++ [(t, data)] }
  | .go t _ => { c with returned := c.returned ++ (holding (s.place t)).map (Prod.mk t) }
  | _ => c

/-- Each thread has pushed what its calls were given, in their order, but for the call it is in. -/
def Given (s : LockQueue T α) (given : List (T × α)) : Prop :=
  ∀ t, ofThread t given = ofThread t s.pushed ++ pushing (s.place t)

/-- Each thread's calls have returned what it has popped, but for what it is about to return. -/
def Returned (s : LockQueue T α) (returned : List (T × α)) : Prop :=
  ∀ t, ofThread t s.popped = ofThread t returned ++ holding (s.place t)

/-- What passes through the queue in a step of `t` inside a call: `went` goes in and `came` out. -/
structure Passes (s s' : LockQueue T α) (t : T) (went came : List α) : Prop where
  pushed : s'.pushed = s.pushed ++ went.map (Prod.mk t)
  popped : s'.popped = s.popped ++ came.map (Prod.mk t)
  self : pushing (s.place t) = went ++ pushing (s'.place t) ∧ holding (s'.place t) = came
  others : ∀ u ≠ t, pushing (s'.place u) = pushing (s.place u) ∧
    holding (s'.place u) = holding (s.place u)

omit [Fintype T] in
theorem passes_moveTo (hplace : s'.place = Function.update s.place t p) {went came : List α}
    (hpushed : s'.pushed = s.pushed ++ went.map (Prod.mk t))
    (hpopped : s'.popped = s.popped ++ came.map (Prod.mk t))
    (hp : pushing (s.place t) = went ++ pushing p) (hh : holding p = came) :
    Passes s s' t went came := by
  refine ⟨hpushed, hpopped, ?_, ?_⟩
  · rw [hplace, Function.update_self]
    exact ⟨hp, hh⟩
  · intro u hu
    rw [hplace, Function.update_of_ne hu]
    exact ⟨rfl, rfl⟩

omit [Fintype T] in
/-- A step that passes nothing, to a place where nothing is held. -/
theorem passes_none (hplace : s'.place = Function.update s.place t p)
    (hpushed : s'.pushed = s.pushed) (hpopped : s'.popped = s.popped)
    (hp : pushing (s.place t) = pushing p) (hh : holding p = []) : Passes s s' t [] [] :=
  passes_moveTo hplace (by simp [hpushed]) (by simp [hpopped]) hp hh

omit [Fintype T] in
theorem passes_lock (h : s.lock t p = some s') (hp : pushing (s.place t) = pushing p)
    (hh : holding p = []) : Passes s s' t [] [] := by
  rw [LockQueue.lock] at h
  split_ifs at h
  obtain rfl := Option.some.inj h
  exact passes_none rfl rfl rfl hp hh

theorem go_passes {chosen : Option T} (hs : s.go t chosen = some s') :
    ∃ went came, Passes s s' t went came := by
  unfold LockQueue.go at hs
  split at hs
  next => cases hs
  next data hp => exact ⟨[], [], passes_lock hs (by rw [hp]; rfl) rfl⟩
  next data hp =>
    obtain rfl := Option.some.inj hs
    exact ⟨[data], [], passes_moveTo rfl rfl (by simp [LockQueue.moveTo]) (by rw [hp]; rfl) rfl⟩
  next hp =>
    split at hs
    next u =>
      split_ifs at hs with hu
      obtain rfl := Option.some.inj hs
      rw [isWaiting_iff] at hu
      refine ⟨[], [], by simp [LockQueue.moveTo], by simp [LockQueue.moveTo], ?_, ?_⟩
      · simp [LockQueue.moveTo, hp, pushing, holding]
      · intro v hv
        by_cases hvu : v = u
        · subst hvu
          simp [LockQueue.moveTo, Function.update_of_ne hv, hu, pushing, holding]
        · simp [LockQueue.moveTo, Function.update_of_ne hv, Function.update_of_ne hvu]
    next =>
      split_ifs at hs
      obtain rfl := Option.some.inj hs
      exact ⟨[], [], passes_none rfl rfl rfl (by rw [hp]; rfl) rfl⟩
  next hp =>
    obtain rfl := Option.some.inj hs
    exact ⟨[], [], passes_none rfl rfl rfl (by rw [hp]; rfl) rfl⟩
  next hp => exact ⟨[], [], passes_lock hs (by rw [hp]; rfl) rfl⟩
  next hp =>
    split_ifs at hs <;> obtain rfl := Option.some.inj hs
    · exact ⟨[], [], passes_none rfl rfl rfl (by rw [hp]; rfl) rfl⟩
    · exact ⟨[], [], passes_none rfl rfl rfl (by rw [hp]; rfl) rfl⟩
  next => cases hs
  next hp => exact ⟨[], [], passes_lock hs (by rw [hp]; rfl) rfl⟩
  next hp =>
    split at hs
    next =>
      obtain rfl := Option.some.inj hs
      refine ⟨[], [], by simp, by simp, ?_, fun u _ => ⟨rfl, rfl⟩⟩
      rw [hp]
      exact ⟨rfl, rfl⟩
    next data rest hq =>
      obtain rfl := Option.some.inj hs
      exact ⟨[], [data], passes_moveTo rfl (by simp [LockQueue.moveTo]) rfl (by rw [hp]; rfl) rfl⟩
  next data hp =>
    obtain rfl := Option.some.inj hs
    exact ⟨[], [], passes_none rfl rfl rfl (by rw [hp]; rfl) rfl⟩

omit [Fintype T] in
theorem Given.passes {given : List (T × α)} (h : s.Given given) {went came : List α}
    (hpass : Passes s s' t went came) : s'.Given given := by
  intro u
  rw [h u, hpass.pushed, ofThread_append]
  by_cases hu : u = t
  · rw [hu, hpass.self.1, ofThread_self, List.append_assoc]
  · rw [(hpass.others u hu).1, ofThread_other hu, List.append_nil]

omit [Fintype T] in
theorem Returned.passes {returned : List (T × α)} (h : s.Returned returned) {went came : List α}
    (hpass : Passes s s' t went came) :
    s'.Returned (returned ++ (holding (s.place t)).map (Prod.mk t)) := by
  intro u
  rw [hpass.popped, ofThread_append, ofThread_append, h u]
  by_cases hu : u = t
  · rw [hu, hpass.self.2, ofThread_self, ofThread_self]
  · rw [(hpass.others u hu).2, ofThread_other hu, ofThread_other hu, List.append_nil, List.append_nil]

/-- The calls keep in step with what passes through the queue. -/
theorem Given.step {c : Calls T α} {a : QueueAction T α} (h : s.Given c.given)
    (hs : s.step a = some s') : s'.Given (s.note a c).given := by
  cases a with
  | Push t data =>
    simp only [LockQueue.step] at hs
    split_ifs at hs with hidle
    obtain rfl := Option.some.inj hs
    rw [isIdle_iff] at hidle
    intro u
    simp only [note, ofThread_append, h u]
    by_cases hu : u = t
    · have hone := ofThread_self t [data]
      simp only [List.map_cons, List.map_nil] at hone
      simp [hu, LockQueue.moveTo, hidle, pushing, hone]
    · have hnone := ofThread_other hu [data]
      simp only [List.map_cons, List.map_nil] at hnone
      simp [LockQueue.moveTo, Function.update_of_ne hu, hnone]
  | Pop t =>
    simp only [LockQueue.step] at hs
    split_ifs at hs with hidle
    obtain rfl := Option.some.inj hs
    rw [isIdle_iff] at hidle
    exact h.passes (passes_none rfl rfl rfl (by rw [hidle]; rfl) rfl)
  | go t chosen =>
    obtain ⟨went, came, hpass⟩ := go_passes hs
    exact h.passes hpass
  | wake t =>
    simp only [LockQueue.step] at hs
    split_ifs at hs with hasleep
    obtain rfl := Option.some.inj hs
    rw [isWaiting_iff] at hasleep
    exact h.passes (passes_none rfl rfl rfl (by rw [hasleep]; rfl) rfl)

theorem Returned.step {c : Calls T α} {a : QueueAction T α} (h : s.Returned c.returned)
    (hs : s.step a = some s') : s'.Returned (s.note a c).returned := by
  have hmove {t : T} {p : Place α} (hp : holding (s.place t) = []) (hh : holding p = []) :
      (s.moveTo t p).Returned c.returned := by
    intro u
    by_cases hu : u = t
    · simp [LockQueue.moveTo, hu, hh, h t, hp]
    · simpa [LockQueue.moveTo, Function.update_of_ne hu] using h u
  cases a with
  | Push t data =>
    simp only [LockQueue.step] at hs
    split_ifs at hs with hidle
    obtain rfl := Option.some.inj hs
    rw [isIdle_iff] at hidle
    exact hmove (by rw [hidle]; rfl) rfl
  | Pop t =>
    simp only [LockQueue.step] at hs
    split_ifs at hs with hidle
    obtain rfl := Option.some.inj hs
    rw [isIdle_iff] at hidle
    exact hmove (by rw [hidle]; rfl) rfl
  | go t chosen =>
    obtain ⟨went, came, hpass⟩ := go_passes hs
    exact h.passes hpass
  | wake t =>
    simp only [LockQueue.step] at hs
    split_ifs at hs with hasleep
    obtain rfl := Option.some.inj hs
    rw [isWaiting_iff] at hasleep
    exact hmove (by rw [hasleep]; rfl) rfl

end Calls

/-- What runs may rely on: one thread at a time is between a lock and its unlock, `front` is never
called on an empty queue, elements come out once each, in the order they went in, and the calls of
each thread push and return just these. -/
structure Safe (s : LockQueue T α) (c : Calls T α) : Prop where
  exclusive : ∀ t u, inside (s.place t) = true → inside (s.place u) = true → t = u
  noFault : s.fault = false
  order : s.pushed.map Prod.snd = s.popped.map Prod.snd ++ s.m_queue
  given : s.Given c.given
  returned : s.Returned c.returned

/-- No call can go on, unless a thread wakes for no reason. -/
def Stuck (s : LockQueue T α) : Prop := ∀ t chosen, s.go t chosen = none

/-- Whoever holds the mutex can go on. -/
theorem Inv.goes (h : Inv s) (hin : inside (s.place t) = true) : ∃ chosen, s.go t chosen ≠ none := by
  unfold LockQueue.go
  cases hp : s.place t with
  | push data => exact ⟨none, by simp⟩
  | notify_one =>
    by_cases hnone : ∀ u, isWaiting (s.place u) = false
    · exact ⟨none, by simp [hnone]⟩
    · obtain ⟨u, hu⟩ := not_forall.mp hnone
      exact ⟨some u, by simp [Bool.eq_true_of_not_eq_false hu]⟩
  | unlockPush => exact ⟨none, by simp⟩
  | empty =>
    refine ⟨none, ?_⟩
    dsimp only
    split_ifs <;> simp
  | front =>
    obtain ⟨data, rest, hq⟩ := List.exists_cons_of_ne_nil (h.front t hp)
    exact ⟨none, by simp [hq]⟩
  | unlockPop data => exact ⟨none, by simp⟩
  | _ => simp [hp, inside] at hin

/-- Calls are stuck only where all that are left sleep in `Pop` and the queue is empty. -/
theorem Inv.stuck (h : Inv s) (hstuck : s.Stuck) :
    (∀ t, s.place t = .idle ∨ s.place t = .waiting) ∧
      ((∃ t, s.place t = .waiting) → s.m_queue = []) := by
  have hout : ∀ t, inside (s.place t) = false := by
    intro t
    by_contra hin
    obtain ⟨chosen, hgo⟩ := h.goes (Bool.eq_true_of_not_eq_false hin)
    exact hgo (hstuck t chosen)
  have hfree : s.m_mutex = none := by
    by_contra hheld
    obtain ⟨t, ht⟩ := Option.ne_none_iff_exists'.mp hheld
    have hin := (h.owner t).mp ht
    rw [hout t] at hin
    cases hin
  have hplace : ∀ t, s.place t = .idle ∨ s.place t = .waiting := by
    intro t
    have hgo := hstuck t none
    have hin := hout t
    unfold LockQueue.go at hgo
    cases hp : s.place t with
    | idle => exact Or.inl rfl
    | waiting => exact Or.inr rfl
    | lockPush data => simp [hp, LockQueue.lock, hfree] at hgo
    | lockPop => simp [hp, LockQueue.lock, hfree] at hgo
    | woken => simp [hp, LockQueue.lock, hfree] at hgo
    | _ => simp [hp, inside] at hin
  refine ⟨hplace, ?_⟩
  intro hasleep
  have hcoming : tally coming s.place = 0 := by
    apply tally_eq_zero
    intro t
    rcases hplace t with hp | hp <;> rw [hp] <;> rfl
  have hnotifying : tally notifying s.place = 0 := by
    apply tally_eq_zero
    intro t
    rcases hplace t with hp | hp <;> rw [hp] <;> rfl
  have hlength := h.awake hasleep
  rw [hcoming, hnotifying] at hlength
  exact List.length_eq_zero_iff.mp (Nat.le_zero.mp hlength)

/-- Any number of threads, in any order of their steps. -/
theorem lockQueue_safe (as : List (QueueAction T α)) :
    Always (recording step note) (fun x : LockQueue T α × Calls T α => Safe x.1 x.2)
      (init, ⟨[], []⟩) as := by
  have hinv : Always (recording step note) (fun x : LockQueue T α × Calls T α =>
      Inv x.1 ∧ x.1.Given x.2.given ∧ x.1.Returned x.2.returned) (init, ⟨[], []⟩) as := by
    apply always_of_step
    · intro x a y hx hy
      obtain ⟨hinv, hgiven, hreturned⟩ := hx
      obtain ⟨hs, hnote⟩ := recording_eq_some.mp hy
      rw [hnote]
      exact ⟨hinv.step hs, hgiven.step hs, hreturned.step hs⟩
    · exact ⟨inv_init, fun _ => rfl, fun _ => rfl⟩
  apply hinv.mono
  intro x hx
  obtain ⟨hinv, hgiven, hreturned⟩ := hx
  exact ⟨fun _ _ => hinv.owner.exclusive, hinv.noFault, hinv.order, hgiven, hreturned⟩

/-- No wakeup is lost: where no call can go on, nobody is blocked at the mutex or left in the
middle of a call, and nobody sleeps while the queue has elements. -/
theorem no_lost_wakeup (as : List (QueueAction T α)) :
    Always step (fun s => s.Stuck → (∀ t, s.place t = .idle ∨ s.place t = .waiting) ∧
      ((∃ t, s.place t = .waiting) → s.m_queue = [])) init as :=
  (always_of_step (fun _ _ _ h hs => h.step hs) inv_init as).mono fun _ h => h.stuck

end LockQueue

end Mymuduo.Log
