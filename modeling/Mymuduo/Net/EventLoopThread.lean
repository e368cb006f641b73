import Mymuduo.Net.EventLoop

namespace Mymuduo.Net

open Lib

/-- Where the new thread is in `threadFunc`. At `enter` it has published the loop and not yet
called `loop`, at `leave` it is back from that call. -/
inductive FuncPlace where
  | construct
  | callback
  | publish
  | enter
  | looping
  | leave
  | done
  deriving DecidableEq

/-- Where the owner of the `EventLoopThread` is: waiting in `startLoop`, back from it, in the
`join` of the destructor, or past the destructor. -/
inductive OwnerPlace where
  | starting
  | started
  | joining
  | destroyed
  deriving DecidableEq

/-- `class EventLoopThread` with the loop on the stack of `threadFunc`; `loop_` says that the
pointer is set. Nothing is done with the loop before it is published, so `init` has it already
as its constructor leaves it. `requested` records that `quit` was called, and `late` counts the iterations
of the loop that began after that. -/
structure EventLoopThread (F T : Type) where
  loop : EventLoop F T
  func : FuncPlace
  owner : OwnerPlace
  loop_ : Bool
  exiting_ : Bool
  requested : Bool
  late : Nat

/-- The steps: of `threadFunc` outside of `loop`, of the owner, and on the loop itself. -/
inductive ThreadStep (F T : Type) where
  | threadFunc
  | startLoop
  | destroy
  | join
  | onLoop (a : LoopAction F T)

namespace EventLoopThread

variable {F T : Type}

def init : EventLoopThread F T where
  loop := EventLoop.init
  func := .construct
  owner := .starting
  loop_ := false
  exiting_ := false
  requested := false
  late := 0

/-- The loop object exists and `threadFunc` has published it. -/
def alive (s : EventLoopThread F T) : Bool :=
  s.func = .enter || s.func = .looping || s.func = .leave

/-- The next step of the loop thread is a test of the `while` that begins an iteration
although `quit` was called. -/
def beginsLate (s : EventLoopThread F T) : Bool :=
  match s.loop.phase with
  | .test => s.requested && !s.loop.quit_
  | _ => false

/-- The next step of `threadFunc` outside of `loop`. -/
def threadFunc (s : EventLoopThread F T) : Option (EventLoopThread F T) :=
  match s.func with
  | .construct => some { s with func := .callback }
  | .callback => some { s with func := .publish }
  | .publish => some { s with loop_ := true, func := .enter }
  | .enter => none
  | .looping =>
    match s.loop.phase with
    | .outside => some { s with func := .leave }
    | _ => none
  | .leave => some { s with loop_ := false, func := .done }
  | .done => none

/-- The end of `startLoop`, once the pointer is set. -/
def startLoop (s : EventLoopThread F T) : Option (EventLoopThread F T) :=
  if s.owner = .starting ∧ s.loop_ then some { s with owner := .started } else none

/-- A request to quit stays, and no iteration begins after it. -/
def Honoured (s : EventLoopThread F T) : Prop :=
  (s.requested = true → s.loop.quit_ = true) ∧ s.late = 0

/-- `loop` is entered before any call of `quit`. -/
def EnteredFirst (s : EventLoopThread F T) (a : ThreadStep F T) : Prop :=
  a = .onLoop .loop → s.requested = false

theorem honoured_init : (init : EventLoopThread F T).Honoured := by
  constructor
  · intro h
    cases h
  · rfl

theorem Honoured.beginsLate {s : EventLoopThread F T} (h : s.Honoured) : s.beginsLate = false := by
  rw [EventLoopThread.beginsLate]
  split
  · cases hr : s.requested with
    | false => rfl
    | true => simp [h.1 hr]
  · rfl

theorem honoured_threadFunc {s s' : EventLoopThread F T} (h : s.Honoured)
    (hs : s.threadFunc = some s') : s'.Honoured := by
  rw [threadFunc] at hs
  cases hf : s.func with
  | looping =>
    cases hp : s.loop.phase with
    | outside =>
      obtain rfl : { s with func := .leave } = s' := by simpa [hf, hp] using hs
      exact h
    | _ => simp [hf, hp] at hs
  | enter => simp [hf] at hs
  | done => simp [hf] at hs
  | _ =>
    simp only [hf] at hs
    cases hs
    exact h

theorem honoured_startLoop {s s' : EventLoopThread F T} (h : s.Honoured)
    (hs : s.startLoop = some s') : s'.Honoured := by
  rw [startLoop] at hs
  split_ifs at hs with hg
  cases hs
  exact h

variable [DecidableEq T]

/-- `quit` on the loop; the pointer comes from `startLoop`. -/
def quit (s : EventLoopThread F T) (who : Option T) : Option (EventLoopThread F T) :=
  if s.owner ≠ .starting ∧ s.alive then
    (s.loop.step (.quit who)).map fun l => { s with loop := l, requested := true }
  else none

/-- The destructor, up to its `join`; it runs on the thread `me`. -/
def destroy (me : T) (s : EventLoopThread F T) : Option (EventLoopThread F T) :=
  if s.owner = .started then
    if s.loop_ then
      (quit { s with exiting_ := true } (some me)).map fun s => { s with owner := .joining }
    else some { s with exiting_ := true, owner := .destroyed }
  else none

/-- The end of `join`. -/
def join (me : T) (s : EventLoopThread F T) : Option (EventLoopThread F T) :=
  if s.owner = .joining ∧ s.func = .done ∧ s.loop.caller (some me) = .idle then
    some { s with owner := .destroyed }
  else none

/-- A step of the loop or of a caller of it. `threadFunc` calls `loop` once. -/
def onLoop (s : EventLoopThread F T) (a : LoopAction F T) : Option (EventLoopThread F T) :=
  match a with
  | .quit who => s.quit who
  | .loop =>
    if s.func = .enter then (s.loop.step .loop).map fun l => { s with loop := l, func := .looping }
    else none
  | .next =>
    if s.alive then
      (s.loop.step .next).map fun l =>
        { s with
          loop := l
          late := if s.beginsLate then s.late + 1 else s.late }
    else none
  | a => if s.alive then (s.loop.step a).map fun l => { s with loop := l } else none

def step (me : T) (s : EventLoopThread F T) : ThreadStep F T → Option (EventLoopThread F T)
  | .threadFunc => s.threadFunc
  | .startLoop => s.startLoop
  | .destroy => s.destroy me
  | .join => s.join me
  | .onLoop a => s.onLoop a

/-- Only `quit` and the entry of `loop` write `quit_`. -/
theorem quit_of_step {l m : EventLoop F T} {a : LoopAction F T} (hm : l.step a = some m) :
    m.quit_ = match a with
      | .quit _ => true
      | .loop => false
      | _ => l.quit_ := by
  cases a with
  | push who cb =>
    simp only [EventLoop.step] at hm
    split_ifs at hm with hg
    cases hm
    rfl
  | wake who =>
    simp only [EventLoop.step] at hm
    split at hm
    · cases hm
    · cases hm
      unfold EventLoop.wakeIfNeeded
      split_ifs <;> rfl
    · cases hm
      rfl
  | quit who =>
    simp only [EventLoop.step] at hm
    split_ifs at hm with hg
    cases hm
    unfold EventLoop.quit
    split_ifs <;> rfl
  | loop =>
    simp only [EventLoop.step] at hm
    split at hm
    · cases hm
      rfl
    · cases hm
  | poll as =>
    simp only [EventLoop.step] at hm
    split at hm
    · cases hm
      rfl
    · cases hm
  | next =>
    simp only [EventLoop.step] at hm
    split_ifs at hm with hg
    rw [EventLoop.advance] at hm
    split at hm <;> cases hm <;> rfl

theorem honoured_quit {s s' : EventLoopThread F T} (h : s.Honoured) {who : Option T}
    (hs : s.quit who = some s') : s'.Honoured := by
  rw [quit] at hs
  split_ifs at hs with hg
  obtain ⟨l, hl, rfl⟩ := Option.map_eq_some_iff.mp hs
  refine ⟨?_, h.2⟩
  intro _
  exact quit_of_step hl

theorem honoured_destroy {me : T} {s s' : EventLoopThread F T} (h : s.Honoured)
    (hs : s.destroy me = some s') : s'.Honoured := by
  rw [destroy] at hs
  split_ifs at hs with hstarted hloop
  · obtain ⟨u, hu, rfl⟩ := Option.map_eq_some_iff.mp hs
    have hquit : u.Honoured := by
      apply honoured_quit _ hu
      exact h
    exact hquit
  · cases hs
    exact h

omit [DecidableEq T] in
theorem honoured_join {me : T} {s s' : EventLoopThread F T} (h : s.Honoured)
    (hs : s.join me = some s') : s'.Honoured := by
  rw [join] at hs
  split_ifs at hs with hg
  cases hs
  exact h

/-- The entry of `loop` forgets a request that came before it. -/
theorem honoured_enter {s s' : EventLoopThread F T} (h : s.Honoured)
    (hs : s.onLoop .loop = some s') : s'.Honoured ↔ s.requested = false := by
  simp only [onLoop] at hs
  split_ifs at hs with hg
  obtain ⟨l, hl, rfl⟩ := Option.map_eq_some_iff.mp hs
  have hquit : l.quit_ = false := quit_of_step hl
  simp [Honoured, hquit, h.2]

/-- The test of the `while` begins no iteration once a request stands. -/
theorem honoured_next {s s' : EventLoopThread F T} (h : s.Honoured)
    (hs : s.onLoop .next = some s') : s'.Honoured := by
  simp only [onLoop] at hs
  have hg : s.alive = true := by
    by_contra hg
    simp [hg] at hs
  rw [if_pos hg] at hs
  obtain ⟨l, hl, rfl⟩ := Option.map_eq_some_iff.mp hs
  have hquit : l.quit_ = s.loop.quit_ := quit_of_step hl
  refine ⟨?_, ?_⟩
  · intro hr
    exact hquit.trans (h.1 hr)
  · simp [h.beginsLate, h.2]

theorem honoured_onLoop {s s' : EventLoopThread F T} {a : LoopAction F T} (h : s.Honoured)
    (ha : a ≠ .loop) (hs : s.onLoop a = some s') : s'.Honoured := by
  have hcall : ∀ b : LoopAction F T, (∀ l, s.loop.step b = some l → l.quit_ = s.loop.quit_) →
      (if s.alive then (s.loop.step b).map fun l => { s with loop := l } else none) = some s' →
      s'.Honoured := by
    intro b hb hs
    split_ifs at hs with hg
    obtain ⟨l, hl, rfl⟩ := Option.map_eq_some_iff.mp hs
    refine ⟨?_, h.2⟩
    intro hr
    exact (hb l hl).trans (h.1 hr)
  cases a with
  | quit who => exact honoured_quit h hs
  | loop => exact absurd rfl ha
  | next => exact honoured_next h hs
  | push who cb => exact hcall (.push who cb) (fun l hl => quit_of_step hl) hs
  | wake who => exact hcall (.wake who) (fun l hl => quit_of_step hl) hs
  | poll as => exact hcall (.poll as) (fun l hl => quit_of_step hl) hs

theorem honoured_step {me : T} {s s' : EventLoopThread F T} {a : ThreadStep F T}
    (h : s.Honoured) (hs : s.step me a = some s') : s'.Honoured ↔ s.EnteredFirst a := by
  have hother : a ≠ .onLoop .loop → s'.Honoured → (s'.Honoured ↔ s.EnteredFirst a) := by
    intro ha hs'
    exact iff_of_true hs' fun he => absurd he ha
  cases a with
  | threadFunc => exact hother (by simp) (honoured_threadFunc h hs)
  | startLoop => exact hother (by simp) (honoured_startLoop h hs)
  | destroy => exact hother (by simp) (honoured_destroy h hs)
  | join => exact hother (by simp) (honoured_join h hs)
  | onLoop b =>
    by_cases hb : b = .loop
    · subst hb
      simpa [EnteredFirst] using honoured_enter h hs
    · exact hother (by simpa using hb) (honoured_onLoop h hb hs)

/-- Over every interleaving of `threadFunc`, the owner and the callers of the loop, a call of
`quit` is never undone and no iteration begins after it, exactly when the loop thread enters
`loop` only before the first such call. -/
theorem quit_honoured_iff (me : T) (as : List (ThreadStep F T)) :
    Always (step me) Honoured (init : EventLoopThread F T) as ↔
      Each (step me) EnteredFirst init as := by
  apply always_iff_each (I := fun _ => True)
  · intro s a t _ _ _ _
    trivial
  · intro s a t _ hP ht
    exact honoured_step hP ht
  · trivial
  · exact honoured_init

/-- The owner destroys the `EventLoopThread` right after `startLoop` has returned, before the
new thread gets to call `loop`; the loop then polls. -/
theorem early_quit_forgotten : ¬ Always (step ()) Honoured (init : EventLoopThread Unit Unit)
    [.threadFunc, .threadFunc, .threadFunc, .startLoop, .destroy, .onLoop .loop,
      .onLoop .next] := by
  intro h
  have hlast := ((((((h.2 _ rfl).2 _ rfl).2 _ rfl).2 _ rfl).2 _ rfl).2 _ rfl).2 _ rfl
  exact absurd hlast.2 (by decide)

end EventLoopThread

end Mymuduo.Net
