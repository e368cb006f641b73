import Mymuduo.Lib.OrderedSet
import Mymuduo.Lib.Run

namespace Mymuduo.Timers

open Lib

/-- `class Timer`. `delta` is the number of microseconds that `addTime` makes of `interval_`,
and `sequence` tells apart the timers that one address has held. -/
structure Timer where
  expiration_ : Int
  repeat_ : Bool
  delta : Int
  sequence : Nat
  deriving DecidableEq

namespace Timer

def addTime (timestamp delta : Int) : Int := timestamp + delta

def restart (t : Timer) (now : Int) : Timer :=
  { t with expiration_ := if t.repeat_ then addTime now t.delta else 0 }

end Timer

/-- `std::pair<Timestamp, Timer*>` with its order; a timer is named by its address. -/
abbrev Entry := Int ×ₗ Nat

def UINTPTR_MAX : Nat := 2 ^ 64 - 1

/-- The arguments of `addTimer`, with the address that `new` gives. -/
structure NewTimer where
  address : Nat
  when : Int
  repeat_ : Bool
  delta : Int

/-- The `it_value` that arms the timerfd. -/
structure Timespec where
  tv_sec : Int
  tv_nsec : Int
  deriving DecidableEq

/-- The delay that `resetTimerfd` computes from an expiration and the time of its call. -/
def timespec (expiration now : Int) : Timespec :=
  let microSecondDif := if expiration - now < 100 then 100 else expiration - now
  ⟨microSecondDif / 1000000, microSecondDif % 1000000 * 1000⟩

/-- `class TimerQueue` with the live timers and the timerfd. `armed` is what the timerfd was
last set to, unless it has expired since, and `readable` says that it has expired and was
neither read nor set again. `reads` counts the readings of the clock, `created` the timers
made, and `executed` records the timers whose callbacks were run. `fault` is set when a timer
is used that is not live. -/
structure TimerQueue where
  timers_ : OrderedSet Entry
  heap : Nat → Option Timer
  armed : Option Timespec
  readable : Bool
  reads : Nat
  created : List Timer
  executed : List Timer
  fault : Bool

/-- The events: the timerfd expires; `addTimer` on the loop's thread; the timerfd's
`handleRead`, where `calls` gives the `addTimer` calls that the callback of the timer at an
address makes when it is run. -/
inductive TimerAction where
  | expire
  | addTimer (new : NewTimer)
  | handleRead (calls : Nat → List NewTimer)

namespace TimerQueue

def init : TimerQueue where
  timers_ := .empty
  heap := fun _ => none
  armed := none
  readable := false
  reads := 0
  created := []
  executed := []
  fault := false

/-- The timer at an address. -/
def deref (s : TimerQueue) (p : Nat) : Timer × TimerQueue :=
  match s.heap p with
  | some t => (t, s)
  | none => (⟨0, false, 0, 0⟩, { s with fault := true })

variable (clock : Nat → Int)

/-- `Timestamp::now()`. -/
def now (s : TimerQueue) : Int × TimerQueue := (clock s.reads, { s with reads := s.reads + 1 })

def resetTimerfd (s : TimerQueue) (expiration : Int) : TimerQueue :=
  let (now, s) := s.now clock
  { s with armed := some (timespec expiration now), readable := false }

/-- `ReadTimerFd`. -/
def ReadTimerFd (s : TimerQueue) : TimerQueue := { s with readable := false }

/-- `insert`, which tells whether the timer is earlier than all others. -/
def insert (s : TimerQueue) (p : Nat) : Bool × TimerQueue :=
  let (timer, s) := s.deref p
  let earliestChanged := match s.timers_.first with
    | none => true
    | some it => timer.expiration_ < (ofLex it).1
  (earliestChanged, { s with timers_ := s.timers_.insert (toLex (timer.expiration_, p)) })

def addTimerInLoop (s : TimerQueue) (p : Nat) : TimerQueue :=
  let (eraliestChanged, s) := s.insert p
  if eraliestChanged then
    let (timer, s) := s.deref p
    s.resetTimerfd clock timer.expiration_
  else s

/-- `addTimer`; `new` gives an address that no live timer has. -/
def addTimer (s : TimerQueue) (new : NewTimer) : Option TimerQueue :=
  if s.heap new.address = none ∧ new.address < UINTPTR_MAX then
    let timer := ⟨new.when, new.repeat_, new.delta, s.created.length⟩
    some (addTimerInLoop clock { s with
      heap := Function.update s.heap new.address (some timer)
      created := s.created ++ [timer] } new.address)
  else none

/-- The entry that `getExpired` looks up. -/
def sentry (now : Int) : Entry := toLex (now, UINTPTR_MAX)

def getExpired (s : TimerQueue) (now : Int) : List Entry × TimerQueue :=
  (s.timers_.below (sentry now), { s with timers_ := s.timers_.above (sentry now) })

/-- `run` of the timer at `p`, without what its callback does. -/
def runTimer (s : TimerQueue) (p : Nat) : TimerQueue :=
  let (timer, s) := s.deref p
  { s with executed := s.executed ++ [timer] }

/-- The `addTimer` calls of one callback. -/
def addTimers : List NewTimer → TimerQueue → Option TimerQueue
  | [], s => some s
  | new :: news, s => (s.addTimer clock new).bind (addTimers news)

/-- The loop of `handleRead` that runs the expired timers. -/
def runExpired (calls : Nat → List NewTimer) : List Entry → TimerQueue → Option TimerQueue
  | [], s => some s
  | it :: expired, s =>
    (addTimers clock (calls (ofLex it).2) (s.runTimer (ofLex it).2)).bind (runExpired calls expired)

/-- `reset`, for the timer of one entry: it is started anew or deleted. -/
def restartOrDelete (s : TimerQueue) (p : Nat) : TimerQueue :=
  let (timer, s) := s.deref p
  if timer.repeat_ then
    let (now, s) := s.now clock
    (insert { s with heap := Function.update s.heap p (some (timer.restart now)) } p).2
  else { s with heap := Function.update s.heap p none }

/-- The end of a round of `reset`: the timerfd is set for the first entry. -/
def armFirst (s : TimerQueue) : TimerQueue :=
  match s.timers_.first with
  | none => s
  | some it =>
    let (timer, s) := s.deref (ofLex it).2
    s.resetTimerfd clock timer.expiration_

def reset : List Entry → TimerQueue → TimerQueue
  | [], s => s
  | it :: expired, s => reset expired (armFirst clock (restartOrDelete clock s (ofLex it).2))

def handleRead (s : TimerQueue) (calls : Nat → List NewTimer) : Option TimerQueue :=
  let (now, s) := s.now clock
  let (expired, s) := s.ReadTimerFd.getExpired now
  (runExpired clock calls expired s).map (reset clock expired)

def step (s : TimerQueue) : TimerAction → Option TimerQueue
  | .expire => if s.armed = none then none else some { s with armed := none, readable := true }
  | .addTimer new => s.addTimer clock new
  | .handleRead calls => s.handleRead clock calls

end TimerQueue

end Mymuduo.Timers
