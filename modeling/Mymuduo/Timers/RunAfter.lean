import Mymuduo.Timers.TimerRun

namespace Mymuduo.Timers

open Lib

def kMicroSecondsPerSecond : Int := 1000 * 1000

namespace TimerQueue

section Calls

variable (clock : Nat → Int)

/-- `EventLoop::runAt` on the loop's thread, where `new` gives the timer the address `p`. -/
def runAt (s : TimerQueue) (p : Nat) (timestamp : Int) : Option TimerQueue :=
  s.addTimer clock ⟨p, timestamp, false, 0⟩

/-- `EventLoop::runAfter` with a whole number of seconds. -/
def runAfter (s : TimerQueue) (p : Nat) (waitTime : Int) : Option TimerQueue :=
  let (now, s) := s.now clock
  s.runAt clock p (Timer.addTime now (waitTime * kMicroSecondsPerSecond))

end Calls

variable {clock : Nat → Int}

/-- The timer that `runAfter` makes. -/
theorem runAfter_spec {s s' : TimerQueue} {p : Nat} {d : Int} (hs : s.runAfter clock p d = some s') :
    s'.heap p = some ⟨clock s.reads + d * 1000000, false, 0, s.created.length⟩ := by
  obtain ⟨-, -, hsame⟩ := addTimer_spec hs
  rw [hsame.heap]
  exact Function.update_self _ _ _

theorem runAfter_kept {s s' : TimerQueue} {p : Nat} {d : Int} (h : Tracks [] s) (hlog : Logged [] s)
    (hs : s.runAfter clock p d = some s') : Tracks [] s' ∧ Logged [] s' := by
  have hread : Tracks [] (s.now clock).2 := h.congr ⟨rfl, rfl, rfl, rfl, rfl⟩
  have hlogged : Logged [] (s.now clock).2 := hlog.congr rfl rfl rfl
  exact addTimer_kept hread hlogged hs

theorem kept_run {s s' : TimerQueue} {as : List TimerAction} (h : Tracks [] s) (hlog : Logged [] s)
    (hs : run (step clock) s as = some s') : Tracks [] s' ∧ Logged [] s' := by
  have hall : Always (step clock) (fun s => Tracks [] s ∧ Logged [] s) s as := by
    refine always_of_step ?_ ⟨h, hlog⟩ as
    intro t a u ht hu
    exact kept_step ht.1 ht.2 hu
  exact hall.last hs

/-- The timers whose callbacks ran between two states. -/
def ranSince (s s' : TimerQueue) : List Timer := s'.executed.drop s.executed.length

/-- A `handleRead` runs a timer exactly when its expiration is not after the time it reads. -/
theorem mem_ranSince {s s' : TimerQueue} {calls : Nat → List NewTimer} (h : Tracks [] s)
    (hlog : Logged [] s) (hs : s.handleRead clock calls = some s') {p : Nat} {t : Timer}
    (ht : s.heap p = some t) : t ∈ s.ranSince s' ↔ t.expiration_ ≤ clock s.reads := by
  obtain ⟨-, -, hhandled, -⟩ := handleRead_spec h hlog hs
  obtain ⟨ts, hexec, -, -, hmem⟩ := hhandled.ran
  have hran : s.ranSince s' = ts := by
    rw [ranSince, hexec]
    exact List.drop_left
  rw [hran, hmem]
  constructor
  · intro hdue
    obtain ⟨-, -, hle⟩ := hdue
    exact hle
  · intro hle
    exact ⟨p, ht, hle⟩

theorem canAdd_none (now : Int) (s : TimerQueue) : CanAdd now (fun _ => []) s :=
  ⟨fun _ _ _ _ _ h => absurd h List.not_mem_nil, fun _ _ _ _ => List.nodup_nil,
    fun _ _ _ _ _ _ _ _ _ _ h => absurd h List.not_mem_nil⟩

/-- `runAfter(d, cb)` at the time `T` keeps its word: whatever was called before and is called
later, as long as the timer is pending, a `handleRead` runs it exactly when the time then is
`T + d` or later. The clock gives what `time(NULL)` returns, in seconds. -/
def OnTime (d T : Int) : Prop :=
  ∀ (clock : Nat → Int) (as bs : List TimerAction) (p : Nat) (t : Timer)
    (calls : Nat → List NewTimer) (s s₁ s₂ s₃ : TimerQueue),
    run (step clock) init as = some s → clock s.reads = T →
    s.runAfter clock p d = some s₁ → s₁.heap p = some t →
    run (step clock) s₁ bs = some s₂ → s₂.heap p = some t →
    s₂.step clock (.handleRead calls) = some s₃ →
    (t ∈ s₂.ranSince s₃ ↔ T + d ≤ clock s₂.reads)

/-- In terms of the numbers, the deadline is `d * 1000000` behind `T`, not `d`. -/
theorem onTime_of_deadline {d T : Int} (h : ∀ now : Int, T + d * 1000000 ≤ now ↔ T + d ≤ now) :
    OnTime d T := by
  intro clock as bs p t calls s s₁ s₂ s₃ hs hT hrun hmade hlater hpending hread
  obtain ⟨htracks, hlog⟩ := kept_run tracks_init logged_init hs
  obtain ⟨htracks₁, hlog₁⟩ := runAfter_kept htracks hlog hrun
  obtain ⟨htracks₂, hlog₂⟩ := kept_run htracks₁ hlog₁ hlater
  rw [runAfter_spec hrun] at hmade
  obtain rfl := Option.some.inj hmade
  rw [mem_ranSince htracks₂ hlog₂ hread hpending, hT]
  exact h _

/-- A clock that is at `T` when `runAfter` reads it and at `T + d` from then on. -/
def lateClock (d T : Int) (n : Nat) : Int := if n = 0 then T else T + d

/-- On that clock the callback is not run in time. -/
theorem not_onTime {d : Int} (hd : 1 ≤ d) (T : Int) : ¬ OnTime d T := by
  intro h
  have hrun : ∃ s₁, init.runAfter (lateClock d T) 16 d = some s₁ := ⟨_, rfl⟩
  obtain ⟨s₁, hs₁⟩ := hrun
  have hmade := runAfter_spec hs₁
  obtain ⟨htracks₁, hlog₁⟩ := runAfter_kept tracks_init logged_init hs₁
  obtain ⟨s₃, hs₃⟩ := handleRead_returns (lateClock d T) htracks₁ (canAdd_none _ s₁)
  have hreads : s₁.reads ≠ 0 := by
    have hread : s₁.reads = 2 := by
      obtain rfl := Option.some.inj hs₁
      rfl
    omega
  have hnow : lateClock d T s₁.reads = T + d := if_neg hreads
  have hran := h (lateClock d T) [] [] 16 _ _ init s₁ s₁ s₃ rfl rfl hs₁ hmade rfl hmade hs₃
  rw [mem_ranSince htracks₁ hlog₁ hs₃ hmade, hnow] at hran
  have hstart : lateClock d T init.reads = T := rfl
  rw [hstart] at hran
  have hdue := hran.mpr le_rfl
  simp only at hdue
  omega

/-- `Timestamp::now` counts seconds and `addTime` adds microseconds: only a delay of 0 is
kept. -/
theorem onTime_iff (d : Nat) (T : Int) : OnTime d T ↔ d = 0 := by
  constructor
  · intro h
    by_contra hne
    exact not_onTime (by omega) T h
  · intro hd
    apply onTime_of_deadline
    intro now
    subst hd
    simp

/-- `runAfter(5)` at 1000: the `handleRead` at 1005 does not run the callback. -/
theorem late_at_1005 : ∃ s₁ s₃, init.runAfter (lateClock 5 1000) 16 5 = some s₁ ∧
    s₁.heap 16 = some ⟨5001000, false, 0, 0⟩ ∧ lateClock 5 1000 s₁.reads = 1005 ∧
    s₁.step (lateClock 5 1000) (.handleRead fun _ => []) = some s₃ ∧
    s₁.ranSince s₃ = [] ∧ ¬ OnTime 5 1000 :=
  ⟨_, _, rfl, rfl, rfl, rfl, rfl, not_onTime (by decide) 1000⟩

end TimerQueue

end Mymuduo.Timers
