import Mymuduo.Lib.Run

namespace Mymuduo.Net

open Lib

/-- What the poller can report: the wakeup channel, or a channel with a handler of its own. -/
inductive Active where
  | wakeup
  | other
  deriving DecidableEq

/-- Where the loop's thread is inside `loop`. `test` is the head of the `while`, `poll` the
call of the poller, `swap` the critical section of `doPendingFunctors`; the lists are what
is left of `activeChannels_` and of the local `functors`. -/
inductive Phase (F : Type) where
  | outside
  | test
  | poll
  | handling (activeChannels_ : List Active)
  | handler (activeChannels_ : List Active)
  | swap
  | calling (functors : List F)
  | functor (functors : List F)

namespace Phase

variable {F : Type}

/-- The owner runs code of the user only in an event handler or a functor. -/
def inUserCode : Phase F → Bool
  | handler _ => true
  | functor _ => true
  | _ => false

/-- The unexecuted rest of the batch that `doPendingFunctors` has swapped out. -/
def batch : Phase F → List F
  | calling fs => fs
  | functor fs => fs
  | _ => []

/-- `doPendingFunctors` has started and has not returned. -/
def inDoPending : Phase F → Bool
  | swap => true
  | calling _ => true
  | functor _ => true
  | _ => false

/-- From the return of `poll` to the swap, functors may be pending without a wakeup. -/
def beforeSwap : Phase F → Bool
  | handling _ => true
  | handler _ => true
  | swap => true
  | _ => false

end Phase

/-- Where a thread is in a call it makes on the loop: before `wakeup` in `queueInLoop`, or
before `wakeup` in `quit`. -/
inductive Caller where
  | idle
  | queued
  | quitting
  deriving DecidableEq

/-- A loop with the threads that call it: `none` is the thread that owns it, `some t` any
other. `executed` records the functors called. -/
structure EventLoop (F T : Type) where
  phase : Phase F
  quit_ : Bool
  callingPendingFunctors_ : Bool
  pendingFuntors_ : List F
  wakeupFd_ : Nat
  caller : Option T → Caller
  executed : List F

/-- The steps of the system. `push` and `wake` are the two halves of `queueInLoop`. -/
inductive LoopAction (F T : Type) where
  | push (who : Option T) (cb : F)
  | wake (who : Option T)
  | quit (who : Option T)
  | loop
  | poll (activeChannels_ : List Active)
  | next

/-- The functors pushed so far, told by the calls alone. -/
def LoopAction.note {F T : Type} : LoopAction F T → List F → List F
  | push _ cb, enqueued => enqueued ++ [cb]
  | _, enqueued => enqueued

namespace EventLoop

variable {F T : Type}

def init : EventLoop F T where
  phase := .outside
  quit_ := false
  callingPendingFunctors_ := false
  pendingFuntors_ := []
  wakeupFd_ := 0
  caller := fun _ => .idle
  executed := []

def isInLoopThread (who : Option T) : Bool := who.isNone

/-- `write` of 1 to the eventfd, which refuses to pass its greatest value. -/
def wakeup (l : EventLoop F T) : EventLoop F T :=
  { l with wakeupFd_ := if l.wakeupFd_ = 2 ^ 64 - 2 then l.wakeupFd_ else l.wakeupFd_ + 1 }

/-- `read` of the eventfd, which clears it. -/
def handleRead (l : EventLoop F T) : EventLoop F T := { l with wakeupFd_ := 0 }

/-- The next step of the owner where it has no choice. -/
def advance (l : EventLoop F T) : Option (EventLoop F T) :=
  match l.phase with
  | .outside => none
  | .test => some { l with phase := if l.quit_ then .outside else .poll }
  | .poll => none
  | .handling (.wakeup :: as) => some { l.handleRead with phase := .handling as }
  | .handling (.other :: as) => some { l with phase := .handler as }
  | .handling [] => some { l with phase := .swap, callingPendingFunctors_ := true }
  | .handler as => some { l with phase := .handling as }
  | .swap => some { l with phase := .calling l.pendingFuntors_, pendingFuntors_ := [] }
  | .calling (f :: fs) => some { l with phase := .functor fs, executed := l.executed ++ [f] }
  | .calling [] => some { l with phase := .test, callingPendingFunctors_ := false }
  | .functor fs => some { l with phase := .calling fs }

/-- Every functor ever enqueued has been executed, is left in the batch, or is pending. -/
def Accounted (l : EventLoop F T) (enqueued : List F) : Prop :=
  enqueued = l.executed ++ l.phase.batch ++ l.pendingFuntors_

/-- Pending functors have a wakeup that the next `poll` will see, or will get one. -/
def Covered (l : EventLoop F T) : Prop :=
  l.pendingFuntors_ ≠ [] → l.wakeupFd_ ≠ 0 ∨ ∃ t, l.caller (some t) = .queued

/-- What holds of the wakeups at each place of `loop`. -/
structure Safe (l : EventLoop F T) : Prop where
  owner : l.caller none ≠ .quitting
  inCall : l.phase.inUserCode = false → l.caller none = .idle
  calling : l.phase.inDoPending = true → l.callingPendingFunctors_ = true
  covered : l.phase.beforeSwap = false → l.caller none = .idle → l.Covered

theorem wakeup_ne_zero (l : EventLoop F T) : l.wakeup.wakeupFd_ ≠ 0 := by
  simp only [wakeup]
  split_ifs with h
  · simp [h]
  · omega

theorem safe_init : (init : EventLoop F T).Safe :=
  ⟨by simp [init], fun _ => rfl, by simp [init, Phase.inDoPending], fun _ _ h => absurd rfl h⟩

/-- A step of the owner that leaves the callers alone, from a place where it is in no call. -/
theorem Safe.move {l m : EventLoop F T} (hidle : l.caller none = .idle)
    (hcaller : m.caller = l.caller)
    (hcalling : m.phase.inDoPending = true → m.callingPendingFunctors_ = true)
    (hcovered : m.phase.beforeSwap = false → m.Covered) : m.Safe := by
  refine ⟨?_, ?_, hcalling, fun h _ => hcovered h⟩
  · simp [hcaller, hidle]
  · intro _
    rw [hcaller, hidle]

/-- The owner's own steps. Only the swap has to find out that nothing is pending after it;
the steps before it need no cover, and those after it keep what they find. -/
theorem safe_advance {l m : EventLoop F T} (h : l.Safe) (hidle : l.caller none = .idle)
    (hm : l.advance = some m) : m.Safe := by
  have hcalling := h.calling
  have hcovered := h.covered
  cases hp : l.phase with
  | outside => simp [advance, hp] at hm
  | poll => simp [advance, hp] at hm
  | test =>
    obtain rfl : { l with phase := if l.quit_ then .outside else .poll } = m := by
      simpa [advance, hp] using hm
    refine Safe.move hidle rfl ?_ fun _ => hcovered (by simp [hp, Phase.beforeSwap]) hidle
    cases hq : l.quit_ <;> simp [Phase.inDoPending]
  | handling as =>
    cases as with
    | nil =>
      obtain rfl : { l with phase := .swap, callingPendingFunctors_ := true } = m := by
        simpa [advance, hp] using hm
      exact Safe.move hidle rfl (fun _ => rfl) (by simp [Phase.beforeSwap])
    | cons a as =>
      cases a with
      | wakeup =>
        obtain rfl : { l.handleRead with phase := .handling as } = m := by
          simpa [advance, hp] using hm
        exact Safe.move hidle rfl (by simp [Phase.inDoPending]) (by simp [Phase.beforeSwap])
      | other =>
        obtain rfl : { l with phase := .handler as } = m := by simpa [advance, hp] using hm
        exact Safe.move hidle rfl (by simp [Phase.inDoPending]) (by simp [Phase.beforeSwap])
  | handler as =>
    obtain rfl : { l with phase := .handling as } = m := by simpa [advance, hp] using hm
    exact Safe.move hidle rfl (by simp [Phase.inDoPending]) (by simp [Phase.beforeSwap])
  | swap =>
    obtain rfl : { l with phase := .calling l.pendingFuntors_, pendingFuntors_ := [] } = m := by
      simpa [advance, hp] using hm
    refine Safe.move hidle rfl (fun _ => hcalling (by simp [hp, Phase.inDoPending])) ?_
    exact fun _ hne => absurd rfl hne
  | calling fs =>
    cases fs with
    | nil =>
      obtain rfl : { l with phase := .test, callingPendingFunctors_ := false } = m := by
        simpa [advance, hp] using hm
      refine Safe.move hidle rfl (by simp [Phase.inDoPending]) ?_
      intro _
      exact hcovered (by simp [hp, Phase.beforeSwap]) hidle
    | cons f fs =>
      obtain rfl : { l with phase := .functor fs, executed := l.executed ++ [f] } = m := by
        simpa [advance, hp] using hm
      refine Safe.move hidle rfl (fun _ => hcalling (by simp [hp, Phase.inDoPending])) ?_
      intro _
      exact hcovered (by simp [hp, Phase.beforeSwap]) hidle
  | functor fs =>
    obtain rfl : { l with phase := .calling fs } = m := by simpa [advance, hp] using hm
    refine Safe.move hidle rfl (fun _ => hcalling (by simp [hp, Phase.inDoPending])) ?_
    intro _
    exact hcovered (by simp [hp, Phase.beforeSwap]) hidle

/-- The swap moves the pending functors to the batch; starting one moves it to `executed`. -/
theorem accounted_advance {l m : EventLoop F T} {enqueued : List F} (h : l.Accounted enqueued)
    (hm : l.advance = some m) : m.Accounted enqueued := by
  unfold Accounted at h
  unfold advance at hm
  split at hm <;> rename_i hp <;> cases hm <;>
    simp only [hp, Phase.batch, List.append_nil] at h <;>
    simp [Accounted, Phase.batch, handleRead, h]
  split_ifs <;> simp

variable [DecidableEq T]

def setCaller (l : EventLoop F T) (who : Option T) (c : Caller) : EventLoop F T :=
  { l with caller := Function.update l.caller who c }

/-- The critical section of `queueInLoop`. -/
def queueInLoop (l : EventLoop F T) (who : Option T) (cb : F) : EventLoop F T :=
  { l.setCaller who .queued with
    pendingFuntors_ := l.pendingFuntors_ ++ [cb] }

/-- What `queueInLoop` does after its critical section. -/
def wakeIfNeeded (l : EventLoop F T) (who : Option T) : EventLoop F T :=
  if !isInLoopThread who || l.callingPendingFunctors_ then (l.setCaller who .idle).wakeup
  else l.setCaller who .idle

def quit (l : EventLoop F T) (who : Option T) : EventLoop F T :=
  if isInLoopThread who then { l with quit_ := true }
  else { l.setCaller who .quitting with quit_ := true }

/-- One step. A thread inside a call finishes it before its next step, and the owner
enqueues only from code run inside `loop`. -/
def step (l : EventLoop F T) : LoopAction F T → Option (EventLoop F T)
  | .push who cb =>
    if l.caller who = .idle ∧ (isInLoopThread who → l.phase.inUserCode) then some (l.queueInLoop who cb)
    else none
  | .wake who =>
    match l.caller who with
    | .idle => none
    | .queued => some (l.wakeIfNeeded who)
    | .quitting => some (l.setCaller who .idle).wakeup
  | .quit who => if l.caller who = .idle then some (l.quit who) else none
  | .loop =>
    match l.phase with
    | .outside => some { l with phase := .test, quit_ := false }
    | _ => none
  | .poll as =>
    match l.phase with
    | .poll => some { l with phase := .handling as }
    | _ => none
  | .next => if l.caller none = .idle then l.advance else none

theorem safe_push {l : EventLoop F T} (h : l.Safe) {who : Option T} (cb : F)
    (huser : isInLoopThread who → l.phase.inUserCode) : (l.queueInLoop who cb).Safe := by
  cases who with
  | none =>
    have hu : l.phase.inUserCode = true := huser rfl
    refine ⟨?_, ?_, h.calling, ?_⟩
    · simp [queueInLoop, setCaller]
    · intro hn
      simp [queueInLoop, setCaller, hu] at hn
    · intro _ hidle
      simp [queueInLoop, setCaller] at hidle
  | some t =>
    have hnone : (l.queueInLoop (some t) cb).caller none = l.caller none := by
      simp [queueInLoop, setCaller]
    refine ⟨?_, fun hn => hnone.trans (h.inCall hn), h.calling, fun _ _ _ => Or.inr ⟨t, ?_⟩⟩
    · rw [hnone]
      exact h.owner
    · simp [queueInLoop, setCaller]

/-- A call that ends with `wakeup` leaves everything covered. -/
theorem safe_wakeup {l : EventLoop F T} (h : l.Safe) (who : Option T) :
    (l.setCaller who .idle).wakeup.Safe := by
  have hnone : (l.setCaller who .idle).wakeup.caller none = .idle ∨
      (l.setCaller who .idle).wakeup.caller none = l.caller none := by
    cases who with
    | none => exact Or.inl (by simp [wakeup, setCaller])
    | some t => exact Or.inr (by simp [wakeup, setCaller])
  refine ⟨?_, ?_, h.calling, fun _ _ _ => Or.inl (wakeup_ne_zero _)⟩
  · rcases hnone with hnone | hnone
    · simp [hnone]
    · rw [hnone]
      exact h.owner
  · intro hn
    rcases hnone with hnone | hnone
    · exact hnone
    · exact hnone.trans (h.inCall hn)

/-- The owner skips its wakeup only in an event handler, where the swap is still ahead. -/
theorem safe_wakeIfNeeded {l : EventLoop F T} (h : l.Safe) {who : Option T}
    (hq : l.caller who = .queued) : (l.wakeIfNeeded who).Safe := by
  unfold wakeIfNeeded
  by_cases hw : (!isInLoopThread who || l.callingPendingFunctors_) = true
  · rw [if_pos hw]
    exact safe_wakeup h who
  · rw [if_neg hw]
    cases who with
    | some t => simp [isInLoopThread] at hw
    | none =>
      have hcalling : l.callingPendingFunctors_ = false := by simpa [isInLoopThread] using hw
      refine ⟨by simp [setCaller], fun _ => by simp [setCaller], h.calling, ?_⟩
      intro hb
      exfalso
      have hin := h.inCall
      have hafter := h.calling
      change l.phase.beforeSwap = false at hb
      cases hp : l.phase <;>
        simp [hp, hq, hcalling, Phase.inUserCode, Phase.inDoPending, Phase.beforeSwap] at hin hafter hb

theorem safe_quit {l : EventLoop F T} (h : l.Safe) {who : Option T}
    (hidle : l.caller who = .idle) : (l.quit who).Safe := by
  cases who with
  | none => exact ⟨h.owner, h.inCall, h.calling, h.covered⟩
  | some t =>
    have hnone : (l.quit (some t)).caller none = l.caller none := by
      simp [quit, isInLoopThread, setCaller]
    refine ⟨?_, fun hn => hnone.trans (h.inCall hn), h.calling, ?_⟩
    · rw [hnone]
      exact h.owner
    · intro hb hn hp
      rcases h.covered hb (hnone.symm.trans hn) hp with hfd | ⟨u, hu⟩
      · exact Or.inl hfd
      · have hne : u ≠ t := by
          intro he
          subst he
          rw [hidle] at hu
          cases hu
        refine Or.inr ⟨u, ?_⟩
        simpa [quit, isInLoopThread, setCaller, hne] using hu

theorem accounted_push {l : EventLoop F T} {enqueued : List F} (h : l.Accounted enqueued)
    (who : Option T) (cb : F) : (l.queueInLoop who cb).Accounted (enqueued ++ [cb]) := by
  unfold Accounted at h
  simp [Accounted, queueInLoop, setCaller, h]

/-- One step keeps both: no functor is lost or repeated, and no wakeup is lost. -/
theorem safe_step {l m : EventLoop F T} {a : LoopAction F T} {enqueued : List F}
    (hacc : l.Accounted enqueued) (h : l.Safe) (hm : l.step a = some m) :
    m.Accounted (a.note enqueued) ∧ m.Safe := by
  cases a with
  | push who cb =>
    simp only [step] at hm
    split_ifs at hm with hg
    obtain rfl := Option.some.inj hm
    exact ⟨accounted_push hacc who cb, safe_push h cb hg.2⟩
  | wake who =>
    cases hc : l.caller who with
    | idle => simp [step, hc] at hm
    | queued =>
      obtain rfl : l.wakeIfNeeded who = m := by simpa [step, hc] using hm
      refine ⟨?_, safe_wakeIfNeeded h hc⟩
      unfold wakeIfNeeded
      split_ifs <;> exact hacc
    | quitting =>
      obtain rfl : (l.setCaller who .idle).wakeup = m := by simpa [step, hc] using hm
      exact ⟨hacc, safe_wakeup h who⟩
  | quit who =>
    simp only [step] at hm
    split_ifs at hm with hidle
    obtain rfl := Option.some.inj hm
    refine ⟨?_, safe_quit h hidle⟩
    unfold quit
    split_ifs <;> exact hacc
  | loop =>
    cases hp : l.phase with
    | outside =>
      obtain rfl : { l with phase := .test, quit_ := false } = m := by simpa [step, hp] using hm
      have hidle := h.inCall (by simp [hp, Phase.inUserCode])
      refine ⟨?_, Safe.move hidle rfl (by simp [Phase.inDoPending]) ?_⟩
      · simpa [Accounted, LoopAction.note, Phase.batch, hp] using hacc
      · intro _
        exact h.covered (by simp [hp, Phase.beforeSwap]) hidle
    | _ => simp [step, hp] at hm
  | poll as =>
    cases hp : l.phase with
    | poll =>
      obtain rfl : { l with phase := .handling as } = m := by simpa [step, hp] using hm
      have hidle := h.inCall (by simp [hp, Phase.inUserCode])
      refine ⟨?_, Safe.move hidle rfl (by simp [Phase.inDoPending]) (by simp [Phase.beforeSwap])⟩
      simpa [Accounted, LoopAction.note, Phase.batch, hp] using hacc
    | _ => simp [step, hp] at hm
  | next =>
    simp only [step] at hm
    split_ifs at hm with hidle
    exact ⟨accounted_advance hacc hm, safe_advance h hidle hm⟩

/-- Along every interleaving the functors pushed by the calls so far are those executed, the rest
of the batch and the pending ones, in this order: each runs at most once, in the order of
enqueueing, and none is lost. And the owner never blocks in `poll` with a functor pending unless
the eventfd is readable or another thread is about to make it so. -/
theorem functors_in_order_and_woken (as : List (LoopAction F T)) :
    Always (recording step fun _ => LoopAction.note) (fun s : EventLoop F T × List F =>
      s.2 = s.1.executed ++ s.1.phase.batch ++ s.1.pendingFuntors_ ∧
      (s.1.phase = .poll → s.1.pendingFuntors_ ≠ [] →
        s.1.wakeupFd_ ≠ 0 ∨ ∃ t, s.1.caller (some t) = .queued)) (init, []) as := by
  have hinv : Always (recording step fun _ => LoopAction.note)
      (fun s : EventLoop F T × List F => s.1.Accounted s.2 ∧ s.1.Safe) (init, []) as := by
    apply always_of_step
    · intro s a t hs ht
      obtain ⟨hacc, hsafe⟩ := hs
      obtain ⟨hm, hnote⟩ := recording_eq_some.mp ht
      rw [hnote]
      exact safe_step hacc hsafe hm
    · exact ⟨rfl, safe_init⟩
  apply hinv.mono
  intro s hs
  obtain ⟨hacc, hsafe⟩ := hs
  refine ⟨hacc, fun hp hne => hsafe.covered ?_ (hsafe.inCall ?_) hne⟩
  · simp [hp, Phase.beforeSwap]
  · simp [hp, Phase.inUserCode]

end EventLoop

end Mymuduo.Net
