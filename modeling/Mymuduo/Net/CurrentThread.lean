import Mymuduo.Lib.Run

namespace Mymuduo.Net

open Lib

/-- What the kernel says of the threads of one process. -/
structure Kernel (T : Type) where
  getpid : T → Nat
  getpid_eq : ∀ t u, getpid t = getpid u

/-- An `EventLoop` as the calls of any thread see it. `maker` is the thread that constructed
it, and `functors` is what is left of the batch that `doPendingFunctors` has swapped out. -/
structure ThreadLoop (F T : Type) where
  threadId_ : Nat
  maker : T
  wakeupFd_ : Nat
  callingPendingFunctors_ : Bool
  pendingFuntors_ : List F
  functors : List F

/-- A process with its threads `T` and the event loops at the addresses `L`. `executed`
records every callback that was run, with its loop and the thread it was run on. -/
structure Process (F L T : Type) where
  t_cachedTid : T → Nat
  t_loopInThisThread : T → Option L
  loop : L → Option (ThreadLoop F T)
  executed : List (L × F × T)

/-- The steps of a thread: the constructor of a loop, the two calls, and the next step of
`doPendingFunctors` in the `loop` of the thread's own event loop. -/
inductive ThreadAction (F L T : Type) where
  | construct (t : T) (l : L)
  | runInLoop (t : T) (l : L) (cb : F)
  | queueInLoop (t : T) (l : L) (cb : F)
  | doPendingFunctors (t : T)

namespace Process

variable {F L T : Type}

def init : Process F L T where
  t_cachedTid := fun _ => 0
  t_loopInThisThread := fun _ => none
  loop := fun _ => none
  executed := []

/-- The loop at `l` was constructed on the thread `t`. -/
def MadeBy (s : Process F L T) (l : L) (t : T) : Prop := ∃ x ∈ s.loop l, x.maker = t

/-- Every callback so far was run on the thread that constructed its loop. -/
def Confined (s : Process F L T) : Prop := ∀ e ∈ s.executed, s.MadeBy e.1 e.2.2

/-- The identity that a thread has cached, and that a loop has taken from its thread, is the
process id. -/
structure SameIds (k : Kernel T) (s : Process F L T) : Prop where
  cached : ∀ t, s.t_cachedTid t = 0 ∨ s.t_cachedTid t = k.getpid t
  loops : ∀ l, ∀ x ∈ s.loop l, x.threadId_ = k.getpid x.maker
  here : ∀ t, ∀ l ∈ s.t_loopInThisThread t, s.MadeBy l t

theorem sameIds_init (k : Kernel T) : (init : Process F L T).SameIds k := by
  constructor
  · intro t
    exact Or.inl rfl
  · intro l x hx
    cases hx
  · intro t l hl
    cases hl

variable [DecidableEq T]

/-- `CurrentThread::cachedTid` on the thread `t`; its system call is `SYS_getpid`. -/
def cachedTid (k : Kernel T) (s : Process F L T) (t : T) : Process F L T :=
  if s.t_cachedTid t = 0 then
    { s with t_cachedTid := Function.update s.t_cachedTid t (k.getpid t) }
  else s

/-- `CurrentThread::tid`. -/
def tid (k : Kernel T) (s : Process F L T) (t : T) : Nat × Process F L T :=
  let s := if s.t_cachedTid t = 0 then s.cachedTid k t else s
  (s.t_cachedTid t, s)

def isInLoopThread (k : Kernel T) (s : Process F L T) (t : T) (x : ThreadLoop F T) :
    Bool × Process F L T :=
  let (id, s) := s.tid k t
  (x.threadId_ == id, s)

variable [DecidableEq L]

def setLoop (s : Process F L T) (l : L) (x : ThreadLoop F T) : Process F L T :=
  { s with loop := Function.update s.loop l (some x) }

/-- The constructor of `EventLoop`. On a thread that has a loop already it ends the process. -/
def construct (k : Kernel T) (s : Process F L T) (t : T) (l : L) : Option (Process F L T) :=
  let (id, s) := s.tid k t
  if s.loop l = none ∧ s.t_loopInThisThread t = none then
    some { s.setLoop l ⟨id, t, 0, false, [], []⟩ with
      t_loopInThisThread := Function.update s.t_loopInThisThread t (some l) }
  else none

/-- `queueInLoop` of the loop `x` at `l`, called on the thread `t`. -/
def queueInLoop (k : Kernel T) (s : Process F L T) (t : T) (l : L) (x : ThreadLoop F T) (cb : F) :
    Process F L T :=
  let (inLoop, s) := s.isInLoopThread k t x
  s.setLoop l { x with
    pendingFuntors_ := x.pendingFuntors_ ++ [cb]
    wakeupFd_ := if !inLoop || x.callingPendingFunctors_ then x.wakeupFd_ + 1 else x.wakeupFd_ }

/-- `runInLoop` of the loop `x` at `l`, called on the thread `t`. -/
def runInLoop (k : Kernel T) (s : Process F L T) (t : T) (l : L) (x : ThreadLoop F T) (cb : F) :
    Process F L T :=
  let (inLoop, s) := s.isInLoopThread k t x
  if inLoop then { s with executed := s.executed ++ [(l, cb, t)] }
  else s.queueInLoop k t l x cb

/-- The next step of `doPendingFunctors` of the loop `x` at `l` on the thread `t`: the swap,
the call of a functor, or the end. -/
def doPendingFunctors (s : Process F L T) (t : T) (l : L) (x : ThreadLoop F T) : Process F L T :=
  match x.callingPendingFunctors_, x.functors with
  | false, _ =>
    s.setLoop l { x with
      callingPendingFunctors_ := true
      functors := x.pendingFuntors_
      pendingFuntors_ := [] }
  | true, f :: fs =>
    { s.setLoop l { x with functors := fs } with executed := s.executed ++ [(l, f, t)] }
  | true, [] => s.setLoop l { x with callingPendingFunctors_ := false }

def step (k : Kernel T) (s : Process F L T) : ThreadAction F L T → Option (Process F L T)
  | .construct t l => s.construct k t l
  | .runInLoop t l cb => (s.loop l).map fun x => s.runInLoop k t l x cb
  | .queueInLoop t l cb => (s.loop l).map fun x => s.queueInLoop k t l x cb
  | .doPendingFunctors t =>
    (s.t_loopInThisThread t).bind fun l => (s.loop l).map fun x => s.doPendingFunctors t l x

/-- A `runInLoop` comes from the thread that constructed the loop. -/
def FromMaker (s : Process F L T) : ThreadAction F L T → Prop
  | .runInLoop t l _ => s.MadeBy l t
  | _ => True

omit [DecidableEq L] in
theorem tid_fields (k : Kernel T) (s : Process F L T) (t : T) :
    (s.tid k t).2.loop = s.loop ∧ (s.tid k t).2.executed = s.executed ∧
      (s.tid k t).2.t_loopInThisThread = s.t_loopInThisThread := by
  rw [tid, cachedTid]
  split_ifs <;> exact ⟨rfl, rfl, rfl⟩

omit [DecidableEq L] in
/-- `tid` gives every thread the id of the process. -/
theorem tid_eq {k : Kernel T} {s : Process F L T} (h : s.SameIds k) (t : T) :
    (s.tid k t).1 = k.getpid t := by
  rw [tid, cachedTid]
  rcases h.cached t with h0 | hpid
  · simp [h0]
  · split_ifs with h0
    · simp
    · exact hpid

omit [DecidableEq L] in
theorem SameIds.tid {k : Kernel T} {s : Process F L T} (h : s.SameIds k) (t : T) :
    (s.tid k t).2.SameIds k := by
  obtain ⟨hloop, -, hhere⟩ := tid_fields k s t
  constructor
  · intro u
    rw [Process.tid, cachedTid]
    split_ifs with h0
    · by_cases hu : u = t
      · subst hu
        simp
      · simpa [hu] using h.cached u
    · exact h.cached u
  · rw [hloop]
    exact h.loops
  · rw [hhere]
    intro u l hl
    rw [MadeBy]
    rw [hloop]
    exact h.here u l hl

omit [DecidableEq L] in
/-- Every thread passes for the one that constructed the loop. -/
theorem isInLoopThread_eq {k : Kernel T} {s : Process F L T} (h : s.SameIds k) (t : T) {l : L}
    {x : ThreadLoop F T} (hx : x ∈ s.loop l) : s.isInLoopThread k t x = (true, (s.tid k t).2) := by
  have hid : x.threadId_ = (s.tid k t).1 := by
    rw [tid_eq h, h.loops l x hx]
    exact k.getpid_eq _ _
  simp [isInLoopThread, hid]

omit [DecidableEq T] in
theorem madeBy_setLoop {s : Process F L T} {l : L} {x y : ThreadLoop F T} (hx : x ∈ s.loop l)
    (hy : y.maker = x.maker) (m : L) (t : T) : (s.setLoop l y).MadeBy m t ↔ s.MadeBy m t := by
  unfold MadeBy setLoop
  by_cases hm : m = l
  · subst hm
    rw [Option.mem_def] at hx
    simp [hx, hy]
  · simp [hm]

omit [DecidableEq T] in
theorem SameIds.setLoop {k : Kernel T} {s : Process F L T} (h : s.SameIds k) {l : L}
    {x y : ThreadLoop F T} (hx : x ∈ s.loop l) (hy : y.maker = x.maker)
    (hid : y.threadId_ = x.threadId_) : (s.setLoop l y).SameIds k := by
  constructor
  · exact h.cached
  · intro m z hz
    by_cases hm : m = l
    · subst hm
      obtain rfl : y = z := by simpa [Process.setLoop] using hz
      rw [hid, hy]
      exact h.loops m x hx
    · apply h.loops m z
      simpa [Process.setLoop, hm] using hz
  · intro t m hm
    exact (madeBy_setLoop hx hy m t).mpr (h.here t m hm)

omit [DecidableEq T] [DecidableEq L] in
/-- The effect of a step other than `runInLoop`: what it runs, it runs on the thread that
constructed the loop. -/
structure Keeps (k : Kernel T) (s s' : Process F L T) : Prop where
  sameIds : s'.SameIds k
  madeBy : ∀ l t, s.MadeBy l t → s'.MadeBy l t
  executed : ∀ e ∈ s'.executed, e ∈ s.executed ∨ s'.MadeBy e.1 e.2.2

omit [DecidableEq T] [DecidableEq L] in
theorem Keeps.confined {k : Kernel T} {s s' : Process F L T} (h : Keeps k s s')
    (hs : s.Confined) : s'.Confined := by
  intro e he
  rcases h.executed e he with hold | hnew
  · exact h.madeBy _ _ (hs e hold)
  · exact hnew

theorem keeps_construct {k : Kernel T} {s s' : Process F L T} (h : s.SameIds k) {t : T} {l : L}
    (hs : s.construct k t l = some s') : Keeps k s s' := by
  obtain ⟨hloop, hexec, hhere⟩ := tid_fields k s t
  have hids := h.tid t
  have htid := tid_eq h t
  rw [construct] at hs
  generalize s.tid k t = p at *
  obtain ⟨id, u⟩ := p
  simp only at hs hloop hexec hhere hids htid
  split_ifs at hs with hfree
  obtain rfl := Option.some.inj hs
  have hmade : ∀ m v, s.MadeBy m v →
      (u.setLoop l ⟨id, t, 0, false, [], []⟩).MadeBy m v := by
    intro m v hm
    have hne : m ≠ l := by
      intro he
      subst he
      obtain ⟨x, hx, -⟩ := hm
      rw [← hloop, hfree.1] at hx
      cases hx
    simpa [MadeBy, setLoop, hne, hloop] using hm
  constructor
  · constructor
    · exact hids.cached
    · intro m x hx
      by_cases hm : m = l
      · subst hm
        obtain rfl : ⟨id, t, 0, false, [], []⟩ = x := by simpa [setLoop] using hx
        exact htid
      · apply hids.loops m x
        simpa [setLoop, hm] using hx
    · intro v m hm
      by_cases hv : v = t
      · subst hv
        obtain rfl : l = m := by simpa using hm
        simp [MadeBy, setLoop]
      · have hold : m ∈ s.t_loopInThisThread v := by
          simpa [hv, hhere] using hm
        exact hmade m v (h.here v m hold)
  · exact hmade
  · intro e he
    apply Or.inl
    rw [← hexec]
    exact he

theorem keeps_queueInLoop {k : Kernel T} {s : Process F L T} (h : s.SameIds k) (t : T) {l : L}
    {x : ThreadLoop F T} (hx : x ∈ s.loop l) (cb : F) : Keeps k s (s.queueInLoop k t l x cb) := by
  obtain ⟨hloop, hexec, -⟩ := tid_fields k s t
  have hx' : x ∈ (s.tid k t).2.loop l := by
    rw [hloop]
    exact hx
  rw [queueInLoop]
  rw [isInLoopThread_eq h t hx]
  constructor
  · exact (h.tid t).setLoop hx' rfl rfl
  · intro m v hm
    refine (madeBy_setLoop hx' ?_ m v).mpr ?_
    · rfl
    · rw [MadeBy]
      rw [hloop]
      exact hm
  · intro e he
    apply Or.inl
    rw [← hexec]
    exact he

omit [DecidableEq T] in
theorem keeps_doPendingFunctors {k : Kernel T} {s : Process F L T} (h : s.SameIds k) {t : T} {l : L}
    {x : ThreadLoop F T} (hhere : l ∈ s.t_loopInThisThread t) (hx : x ∈ s.loop l) :
    Keeps k s (s.doPendingFunctors t l x) := by
  have hset : ∀ y : ThreadLoop F T, y.maker = x.maker → y.threadId_ = x.threadId_ →
      Keeps k s (s.setLoop l y) := by
    intro y hy hid
    refine ⟨h.setLoop hx hy hid, ?_, ?_⟩
    · intro m v hm
      exact (madeBy_setLoop hx hy m v).mpr hm
    · intro e he
      exact Or.inl he
  rw [doPendingFunctors]
  split
  · exact hset _ rfl rfl
  · rename_i f fs _ _
    have hkeep := hset { x with functors := fs } rfl rfl
    refine ⟨⟨hkeep.sameIds.cached, hkeep.sameIds.loops, hkeep.sameIds.here⟩, hkeep.madeBy, ?_⟩
    intro e he
    rcases List.mem_append.mp he with hold | hnew
    · exact Or.inl hold
    · rw [List.mem_singleton.mp hnew]
      exact Or.inr (hkeep.madeBy l t (h.here t l hhere))
  · exact hset _ rfl rfl

/-- `runInLoop` runs its callback on the thread that calls it. -/
theorem runInLoop_eq {k : Kernel T} {s : Process F L T} (h : s.SameIds k) (t : T) {l : L}
    {x : ThreadLoop F T} (hx : x ∈ s.loop l) (cb : F) :
    s.runInLoop k t l x cb =
      { (s.tid k t).2 with executed := s.executed ++ [(l, cb, t)] } := by
  rw [runInLoop]
  rw [isInLoopThread_eq h t hx]
  simp [(tid_fields k s t).2.1]

theorem confined_runInLoop {k : Kernel T} {s : Process F L T} (h : s.SameIds k)
    (hs : s.Confined) (t : T) {l : L} {x : ThreadLoop F T} (hx : x ∈ s.loop l) (cb : F) :
    (s.runInLoop k t l x cb).Confined ↔ s.MadeBy l t := by
  have hmade : ∀ m v, (s.runInLoop k t l x cb).MadeBy m v ↔ s.MadeBy m v := by
    intro m v
    rw [runInLoop_eq h t hx]
    simp [MadeBy, (tid_fields k s t).1]
  have hexec : (s.runInLoop k t l x cb).executed = s.executed ++ [(l, cb, t)] := by
    rw [runInLoop_eq h t hx]
  constructor
  · intro hc
    rw [← hmade]
    apply hc (l, cb, t)
    simp [hexec]
  · intro hl e he
    rw [hmade]
    rw [hexec] at he
    rcases List.mem_append.mp he with hold | hnew
    · exact hs e hold
    · rw [List.mem_singleton.mp hnew]
      exact hl

/-- One step: the identities stay as they are, and only a `runInLoop` from another thread
breaks the confinement. -/
theorem confined_step {k : Kernel T} {s s' : Process F L T} {a : ThreadAction F L T}
    (h : s.SameIds k) (hs : s.Confined) (ha : s.step k a = some s') :
    s'.SameIds k ∧ (s'.Confined ↔ s.FromMaker a) := by
  have hkeeps : Keeps k s s' → s'.SameIds k ∧ (s'.Confined ↔ True) := by
    intro hk
    exact ⟨hk.sameIds, iff_of_true (hk.confined hs) trivial⟩
  cases a with
  | construct t l => exact hkeeps (keeps_construct h ha)
  | queueInLoop t l cb =>
    obtain ⟨x, hx, rfl⟩ := Option.map_eq_some_iff.mp ha
    exact hkeeps (keeps_queueInLoop h t hx cb)
  | doPendingFunctors t =>
    obtain ⟨l, hl, hm⟩ := Option.bind_eq_some_iff.mp ha
    obtain ⟨x, hx, rfl⟩ := Option.map_eq_some_iff.mp hm
    exact hkeeps (keeps_doPendingFunctors h hl hx)
  | runInLoop t l cb =>
    obtain ⟨x, hx, rfl⟩ := Option.map_eq_some_iff.mp ha
    refine ⟨?_, confined_runInLoop h hs t hx cb⟩
    rw [runInLoop_eq h t hx]
    exact ⟨(h.tid t).cached, (h.tid t).loops, (h.tid t).here⟩

/-- Over every interleaving, the callbacks run only on the threads that constructed their
loops exactly when every `runInLoop` is called on such a thread; `queueInLoop` may be called
on any. -/
theorem callbacks_confined_iff (k : Kernel T) (as : List (ThreadAction F L T)) :
    Always (step k) Confined init as ↔ Each (step k) FromMaker init as := by
  apply always_iff_each (I := SameIds k)
  · intro s a t hI hP ht _
    exact (confined_step hI hP ht).1
  · intro s a t hI hP ht
    exact (confined_step hI hP ht).2
  · exact sameIds_init k
  · intro e he
    cases he

/-- Two threads of the process 7. -/
def twoThreads : Kernel Bool where
  getpid := fun _ => 7
  getpid_eq := fun _ _ => rfl

/-- One thread makes a loop, and another one calls `runInLoop` on it. -/
theorem callback_on_caller : ¬ Always (step twoThreads) (Confined (F := Unit) (L := Unit)) init
    [.construct false (), .runInLoop true () ()] := by
  intro h
  have hlast := (h.2 _ rfl).2 _ rfl ((), (), true) (by decide)
  obtain ⟨x, hx, hmaker⟩ := hlast
  cases hx
  cases hmaker

end Process

end Mymuduo.Net
