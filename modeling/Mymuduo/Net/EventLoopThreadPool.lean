import Mathlib.Data.Int.CardIntervalMod
import Mathlib.Tactic

namespace Mymuduo.Net

/-- The base loop of a server, and the loop of the `i`-th thread of its pool. -/
inductive LoopId where
  | base
  | sub (i : Nat)
  deriving DecidableEq

/-- `EventLoopThread::threadFunc`, bound to the `i`-th thread of the pool. -/
inductive ThreadFunc where
  | threadFunc (i : Nat)
  deriving DecidableEq

/-- `class Thread`. An empty `func_` is `none`. -/
structure Thread where
  started_ : Bool
  func_ : Option ThreadFunc
  deriving DecidableEq

namespace Thread

/-- The constructor does not name its function and moves `func_` to itself, so that `func_`
gets whatever its `storage` holds. -/
def new (_func : ThreadFunc) (storage : Option ThreadFunc) : Thread := ⟨false, storage⟩

/-- `start` waits for the new thread's `tid_` only. -/
def start (t : Thread) : Thread := { t with started_ := true }

/-- What the new thread executes. An empty function ends the process instead. -/
def running (t : Thread) : Option ThreadFunc := if t.started_ then t.func_ else none

end Thread

/-- `class EventLoopThread` as its pool sees it. -/
structure PoolThread where
  thread_ : Thread
  loop_ : Option LoopId
  deriving DecidableEq

namespace PoolThread

def new (i : Nat) (storage : Option ThreadFunc) : PoolThread :=
  ⟨Thread.new (.threadFunc i) storage, none⟩

/-- `startLoop` waits for the loop that the `i`-th thread's `threadFunc` publishes, and does
not return without it. -/
def startLoop (t : PoolThread) (i : Nat) : Option PoolThread :=
  let thread := t.thread_.start
  if thread.running = some (.threadFunc i) then some ⟨thread, some (.sub i)⟩ else none

end PoolThread

structure EventLoopThreadPool where
  started_ : Bool
  numThreads_ : Int
  next_ : Nat
  threads_ : List PoolThread
  loops_ : List LoopId
  deriving DecidableEq

namespace EventLoopThreadPool

def new : EventLoopThreadPool := ⟨false, 0, 0, [], []⟩

def setThreadNum (p : EventLoopThreadPool) (_NumThread : Int) : EventLoopThreadPool :=
  { p with numThreads_ := p.numThreads_ }

/-- One round of the loop of `start`. -/
def startThread (storage : Nat → Option ThreadFunc) (p : EventLoopThreadPool) (i : Nat) :
    Option EventLoopThreadPool :=
  ((PoolThread.new i (storage i)).startLoop i).map fun t =>
    { p with
      threads_ := p.threads_ ++ [t]
      loops_ := p.loops_ ++ t.loop_.toList }

def start (storage : Nat → Option ThreadFunc) (p : EventLoopThreadPool) :
    Option EventLoopThreadPool :=
  (List.range p.numThreads_.toNat).foldlM (startThread storage) { p with started_ := true }

def getNextLoop (p : EventLoopThreadPool) : LoopId × EventLoopThreadPool :=
  if p.loops_ = [] then (.base, p)
  else
    (p.loops_.getD p.next_ .base,
      { p with next_ := if p.next_ + 1 ≥ p.loops_.length then 0 else p.next_ + 1 })

/-- The thread that `startLoop` returns from runs its own `threadFunc`. -/
theorem startThread_eq_some {storage : Nat → Option ThreadFunc} {p q : EventLoopThreadPool}
    {i : Nat} : p.startThread storage i = some q ↔ storage i = some (.threadFunc i) ∧
      q = { p with
        threads_ := p.threads_ ++ [⟨⟨true, some (.threadFunc i)⟩, some (.sub i)⟩]
        loops_ := p.loops_ ++ [.sub i] } := by
  simp only [startThread, PoolThread.new, PoolThread.startLoop, Thread.new, Thread.start,
    Thread.running, if_true]
  by_cases hs : storage i = some (.threadFunc i)
  · rw [if_pos hs, hs]
    simp only [Option.map_some, Option.some.injEq, Option.toList_some, true_and]
    exact eq_comm
  · simp [hs]

/-- `start` returns exactly if each `Thread` happens to have its function. -/
theorem start_eq_some {storage : Nat → Option ThreadFunc} {p q : EventLoopThreadPool} :
    p.start storage = some q ↔ (∀ i < p.numThreads_.toNat, storage i = some (.threadFunc i)) ∧
      q = { p with
        started_ := true
        threads_ := p.threads_ ++ (List.range p.numThreads_.toNat).map fun i =>
          ⟨⟨true, some (.threadFunc i)⟩, some (.sub i)⟩
        loops_ := p.loops_ ++ (List.range p.numThreads_.toNat).map .sub } := by
  rw [start]
  generalize p.numThreads_.toNat = n
  induction n generalizing q with
  | zero =>
    simp only [List.range_zero, List.foldlM_nil, List.map_nil, List.append_nil, Nat.not_lt_zero,
      false_implies, implies_true, true_and]
    exact ⟨fun h => (Option.some.inj h).symm, fun h => congrArg some h.symm⟩
  | succ n ih =>
    simp only [List.range_succ, List.foldlM_append, List.foldlM_cons, List.foldlM_nil,
      List.map_append, List.map_cons, List.map_nil]
    constructor
    · intro h
      obtain ⟨r, hr, h⟩ := Option.bind_eq_some_iff.mp h
      obtain ⟨u, hu, h⟩ := Option.bind_eq_some_iff.mp h
      obtain rfl := Option.some.inj h
      obtain ⟨hall, rfl⟩ := ih.mp hr
      obtain ⟨hlast, rfl⟩ := startThread_eq_some.mp hu
      refine ⟨?_, by simp only [List.append_assoc]⟩
      intro i hi
      rcases Nat.lt_succ_iff_lt_or_eq.mp hi with hi | rfl
      · exact hall i hi
      · exact hlast
    · intro h
      obtain ⟨hall, rfl⟩ := h
      refine Option.bind_eq_some_iff.mpr ⟨_, ih.mpr ⟨fun i hi => hall i (by omega), rfl⟩, ?_⟩
      refine Option.bind_eq_some_iff.mpr
        ⟨_, startThread_eq_some.mpr ⟨hall n (by omega), rfl⟩, ?_⟩
      simp only [List.append_assoc]
      rfl

end EventLoopThreadPool

/-- A `TcpServer` as far as it deals with its pool; `chosen` are the loops that
`newConnection` has got. -/
structure ServerThreads where
  threadPool_ : EventLoopThreadPool
  started_ : Nat
  listening : Bool
  chosen : List LoopId
  deriving DecidableEq

namespace ServerThreads

def new : ServerThreads := ⟨EventLoopThreadPool.new, 0, false, []⟩

def setThreadNum (s : ServerThreads) (numThreads : Int) : ServerThreads :=
  { s with threadPool_ := s.threadPool_.setThreadNum numThreads }

def start (storage : Nat → Option ThreadFunc) (s : ServerThreads) : Option ServerThreads :=
  if s.started_ = 0 then
    (s.threadPool_.start storage).map fun p =>
      { s with
        threadPool_ := p
        started_ := s.started_ + 1
        listening := true }
  else some { s with started_ := s.started_ + 1 }

def newConnection (s : ServerThreads) : ServerThreads :=
  { s with
    threadPool_ := s.threadPool_.getNextLoop.2
    chosen := s.chosen ++ [s.threadPool_.getNextLoop.1] }

/-- A new server is given `n` threads and started, and then gets `k` connections. -/
def serve (storage : Nat → Option ThreadFunc) (n k : Nat) : Option ServerThreads :=
  ((new.setThreadNum n).start storage).map newConnection^[k]

/-- The pool has `n` threads, each running its own `threadFunc`, and `k` connections have
gone to their loops in turn. -/
structure Spread (n k : Nat) (s : ServerThreads) : Prop where
  loops : s.threadPool_.loops_ = (List.range n).map .sub
  running : s.threadPool_.threads_.map (·.thread_.running) =
    (List.range n).map fun i => some (.threadFunc i)
  inTurn : s.chosen = (List.range k).map fun j => .sub (j % n)
  even : ∀ i < n, s.chosen.count (.sub i) = k / n ∨ s.chosen.count (.sub i) = (k + n - 1) / n
  notBase : .base ∉ s.chosen

theorem wrap_succ (x : Nat) {n : Nat} (hn : 0 < n) :
    (if x % n + 1 ≥ n then 0 else x % n + 1) = (x + 1) % n := by
  have hlt := Nat.mod_lt x hn
  rw [← Nat.mod_add_mod x n 1]
  generalize x % n = r at *
  split_ifs with hge
  · obtain rfl : r + 1 = n := by omega
    exact (Nat.mod_self _).symm
  · exact (Nat.mod_eq_of_lt (by omega)).symm

/-- `getNextLoop` goes round the loops of the pool. -/
theorem newConnection_iterate {s : ServerThreads}
    (hnext : s.threadPool_.next_ < s.threadPool_.loops_.length) (k : Nat) :
    newConnection^[k] s =
      { s with
        threadPool_ := { s.threadPool_ with
          next_ := (s.threadPool_.next_ + k) % s.threadPool_.loops_.length }
        chosen := s.chosen ++ (List.range k).map fun j =>
          s.threadPool_.loops_.getD ((s.threadPool_.next_ + j) % s.threadPool_.loops_.length)
            .base } := by
  have hpos : 0 < s.threadPool_.loops_.length := Nat.zero_lt_of_lt hnext
  have hloops : s.threadPool_.loops_ ≠ [] := List.ne_nil_of_length_pos hpos
  induction k with
  | zero => simp [Nat.mod_eq_of_lt hnext]
  | succ k ih =>
    rw [Function.iterate_succ_apply', ih]
    simp only [newConnection, EventLoopThreadPool.getNextLoop, if_neg hloops, wrap_succ _ hpos,
      List.range_succ, List.map_append, List.map_cons, List.map_nil, List.append_assoc,
      Nat.add_assoc]

/-- Each of `n` loops taken in turn is taken equally often, up to one. -/
theorem count_inTurn {n i : Nat} (hi : i < n) (k : Nat) :
    ((List.range k).map fun j => LoopId.sub (j % n)).count (.sub i) = k / n ∨
      ((List.range k).map fun j => LoopId.sub (j % n)).count (.sub i) = (k + n - 1) / n := by
  have hn : 0 < n := Nat.zero_lt_of_lt hi
  have hcount : ((List.range k).map fun j => LoopId.sub (j % n)).count (.sub i) =
      k.count (· ≡ i [MOD n]) := by
    rw [List.count_eq_countP, List.countP_map, Nat.count]
    apply List.countP_congr
    intro j _
    simp [Nat.ModEq, Nat.mod_eq_of_lt hi]
  rw [hcount, Nat.count_modEq_card k hn i, Nat.mod_eq_of_lt hi]
  have hdiv := Nat.div_add_mod k n
  split_ifs with hlt
  · right
    symm
    have hmod := Nat.mod_lt k hn
    apply Nat.div_eq_of_lt_le
    · rw [Nat.succ_mul, Nat.mul_comm]
      omega
    · rw [Nat.succ_mul, Nat.succ_mul, Nat.mul_comm]
      omega
  · left
    rfl

/-- A pool of `n` running threads would spread the connections. -/
theorem spread_of_running {s : ServerThreads} {n : Nat} (hn : 1 ≤ n)
    (hloops : s.threadPool_.loops_ = (List.range n).map .sub)
    (hrun : s.threadPool_.threads_.map (·.thread_.running) =
      (List.range n).map fun i => some (.threadFunc i))
    (hnext : s.threadPool_.next_ = 0) (hchosen : s.chosen = []) (k : Nat) :
    Spread n k (newConnection^[k] s) := by
  have hlen : s.threadPool_.loops_.length = n := by
    rw [hloops, List.length_map, List.length_range]
  have hturn : (newConnection^[k] s).chosen = (List.range k).map fun j => .sub (j % n) := by
    rw [newConnection_iterate (by omega), hchosen, hnext, hlen, hloops]
    simp only [List.nil_append, Nat.zero_add]
    apply List.map_congr_left
    intro j _
    have hj := Nat.mod_lt j hn
    simp [hj]
  refine ⟨?_, ?_, hturn, ?_, ?_⟩
  · rw [newConnection_iterate (by omega)]
    exact hloops
  · rw [newConnection_iterate (by omega)]
    exact hrun
  · intro i hi
    rw [hturn]
    exact count_inTurn hi k
  · rw [hturn]
    simp

/-- A new server as it would be if `setThreadNum` took over its number. -/
def configured (n : Nat) : ServerThreads := ⟨⟨false, n, 0, [], []⟩, 0, false, []⟩

/-- There it is the constructor of `Thread` that decides. -/
theorem spread_configured_iff (storage : Nat → Option ThreadFunc) {n : Nat} (hn : 1 ≤ n) (k : Nat) :
    (∃ s, ((configured n).start storage).map newConnection^[k] = some s ∧ Spread n k s) ↔
      ∀ i < n, storage i = some (.threadFunc i) := by
  constructor
  · intro h
    obtain ⟨s, hs, -⟩ := h
    obtain ⟨t, ht, -⟩ := Option.map_eq_some_iff.mp hs
    obtain ⟨p, hp, -⟩ := Option.map_eq_some_iff.mp ht
    exact (EventLoopThreadPool.start_eq_some.mp hp).1
  · intro hall
    have hp := (EventLoopThreadPool.start_eq_some (p := (configured n).threadPool_)).mpr
      ⟨hall, rfl⟩
    have hs := congrArg (Option.map fun p => ServerThreads.mk p 1 true []) hp
    refine ⟨_, congrArg (Option.map newConnection^[k]) hs, ?_⟩
    apply spread_of_running hn
    · rfl
    · simp only [configured, Int.toNat_natCast, List.nil_append, List.map_map]
      rfl
    · rfl
    · rfl

/-- Without loops in the pool every connection is for the base loop. -/
theorem newConnection_iterate_base {s : ServerThreads} (hloops : s.threadPool_.loops_ = [])
    (k : Nat) :
    newConnection^[k] s = { s with chosen := s.chosen ++ List.replicate k .base } := by
  induction k with
  | zero => simp
  | succ k ih =>
    rw [Function.iterate_succ_apply', ih]
    simp only [newConnection, EventLoopThreadPool.getNextLoop, if_pos hloops, List.append_assoc,
      List.replicate_succ']

/-- What becomes of the number of threads. -/
theorem serve_eq (storage : Nat → Option ThreadFunc) (n k : Nat) : serve storage n k =
    some ⟨⟨true, 0, 0, [], []⟩, 1, true, List.replicate k .base⟩ := by
  have hstart : (new.setThreadNum n).start storage = some ⟨⟨true, 0, 0, [], []⟩, 1, true, []⟩ := rfl
  rw [serve, hstart, Option.map_some, newConnection_iterate_base rfl]
  rfl

/-- Whatever number of threads is asked for, the server is never as it should be. -/
theorem never_spread (storage : Nat → Option ThreadFunc) (n k : Nat) (hn : 1 ≤ n) :
    ¬ ∃ s, serve storage n k = some s ∧ Spread n k s := by
  intro h
  obtain ⟨s, hs, hspread⟩ := h
  obtain rfl := Option.some.inj ((serve_eq storage n k).symm.trans hs)
  have hlen := congrArg List.length hspread.loops
  simp only [List.length_nil, List.length_map, List.length_range] at hlen
  omega

theorem never_spread_three : 1 ≤ 3 ∧
    ¬ ∃ s, serve (fun _ => none) 3 7 = some s ∧ Spread 3 7 s :=
  ⟨by decide, never_spread (fun _ => none) 3 7 (by decide)⟩

/-- Three threads are asked for; there are none, and four connections go to the base loop. -/
theorem four_on_base : ∃ s, serve (fun _ => none) 3 4 = some s ∧ s.threadPool_.loops_ = [] ∧
    s.threadPool_.threads_ = [] ∧ s.chosen = [.base, .base, .base, .base] ∧ ¬ Spread 3 4 s := by
  refine ⟨⟨⟨true, 0, 0, [], []⟩, 1, true, [.base, .base, .base, .base]⟩, rfl, rfl, rfl, rfl, ?_⟩
  intro h
  exact h.notBase List.mem_cons_self

end ServerThreads

end Mymuduo.Net
