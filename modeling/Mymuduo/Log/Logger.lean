import Mymuduo.Lib.Decimal
import Mymuduo.Lib.Scan
import Mymuduo.Log.LockQueue

namespace Mymuduo.Log

open Lib

abbrev Text := List UInt8

/-- `struct tm`, as far as it is read. -/
structure Tm where
  tm_year : Nat
  tm_mon : Nat
  tm_mday : Nat
  tm_hour : Nat
  tm_min : Nat
  tm_sec : Nat

/-- A number in a field of at least `width` characters. -/
def padded (width : Nat) (fill : UInt8) (n : Nat) : Text :=
  List.replicate (width - (decimal n).length) fill ++ decimal n

namespace Tm

/-- `Timestamp::toString`, in a buffer of 128 bytes: `%4d/%02d/%02d %02d:%02d:%02d`. -/
def toText (t : Tm) : Text :=
  (padded 4 32 (t.tm_year + 1900) ++ 47 :: padded 2 48 (t.tm_mon + 1) ++ 47 :: padded 2 48 t.tm_mday ++
    32 :: padded 2 48 t.tm_hour ++ 58 :: padded 2 48 t.tm_min ++ 58 :: padded 2 48 t.tm_sec).take 127

/-- `file_name`: `%d-%d-%d-log.txt`. -/
def file_name (t : Tm) : Text :=
  decimal (t.tm_year + 1900) ++ 45 :: (decimal (t.tm_mon + 1) ++ 45 :: (decimal t.tm_mday ++
    [45, 108, 111, 103, 46, 116, 120, 116]))

def date (t : Tm) : Nat × Nat × Nat := (t.tm_year, t.tm_mon, t.tm_mday)

/-- A number before a dash. -/
theorem decimal_dash {m n : Nat} {r r' : Text}
    (h : decimal m ++ 45 :: r = decimal n ++ 45 :: r') : m = n ∧ r = r' := by
  have hdash : ∀ k, (45 : UInt8) ∉ decimal k := by
    intro k hm
    exact absurd (digit_of_mem_decimal hm).1 (by decide)
  have hcut := congrArg (search [45]) h
  rw [search_one (hdash m), search_one (hdash n)] at hcut
  obtain ⟨hnum, hrest⟩ := Prod.mk.inj (Option.some.inj hcut)
  exact ⟨decimal_inj hnum, hrest⟩

/-- Each day has a file of its own. -/
theorem file_name_inj {t u : Tm} : t.file_name = u.file_name ↔ t.date = u.date := by
  constructor
  · intro h
    obtain ⟨hyear, h⟩ := decimal_dash h
    obtain ⟨hmon, h⟩ := decimal_dash h
    have hday := decimal_inj (List.append_cancel_right h)
    simp only [date, Prod.mk.injEq]
    omega
  · intro h
    simp only [date, Prod.mk.injEq] at h
    rw [file_name, file_name, h.1, h.2.1, h.2.2]

end Tm

/-- A message in a file: the day whose file was open, the time it was written, and its text. -/
structure Entry where
  opened : Tm
  now : Tm
  msg : Text

/-- What `fputs` puts out, which is up to the first 0. -/
def Entry.line (e : Entry) : Text := (e.now.toText ++ e.msg ++ [10]).takeWhile (· != 0)

/-- Where the thread that the constructor starts is: before `fopen`, in `Pop` with the file open,
or back from it. -/
inductive WriteLogTask where
  | fopen
  | Pop (opened : Tm)
  | fputs (opened : Tm) (msg : Text)
  | exited

/-- `class Logger`. Of the threads on its queue, `none` is the one that writes. `written` records
what it has done. -/
structure Logger (P : Type) where
  lockQue_ : LockQueue (Option P) Text
  task : WriteLogTask
  files : Text → Text
  written : List Entry

/-- A thread logs a message and goes on with that, and the writing thread does its round: `fopen`
of the file of today, which may fail, the steps of `Pop`, and `fputs`. -/
inductive LogAction (P : Type) where
  | log (p : P) (msg : Text)
  | go (p : P) (chosen : Option (Option P))
  | fopen (now : Tm) (ok : Bool)
  | goPop
  | wake
  | fputs (now : Tm)

namespace Logger

variable {P : Type} [DecidableEq P] [Fintype P]

def init : Logger P := ⟨.init, .fopen, fun _ => [], []⟩

def onQueue (s : Logger P) (a : QueueAction (Option P) Text) : Option (Logger P) :=
  (s.lockQue_.step a).map fun q => { s with lockQue_ := q }

/-- `Pop` is left with the element it has taken. -/
def popped (s : Logger P) (opened : Tm) : WriteLogTask :=
  match s.lockQue_.place none with
  | .unlockPop msg => .fputs opened msg
  | _ => .Pop opened

def step (s : Logger P) (a : LogAction P) : Option (Logger P) :=
  match s.task, a with
  | .exited, _ => none
  | _, .log p msg => s.onQueue (.Push (some p) msg)
  | _, .go p chosen => s.onQueue (.go (some p) chosen)
  | .fopen, .fopen now ok =>
    if ok then { s with task := .Pop now }.onQueue (.Pop none)
    else some { s with task := .exited }
  | .Pop opened, .goPop => { s with task := s.popped opened }.onQueue (.go none none)
  | .Pop _, .wake => s.onQueue (.wake none)
  | .fputs opened msg, .fputs now =>
    some { s with
      task := .fopen
      files := Function.update s.files opened.file_name
        (s.files opened.file_name ++ (Entry.mk opened now msg).line)
      written := s.written ++ [⟨opened, now, msg⟩] }
  | _, _ => none

/-- The places of `Pop`. -/
def popping : Place Text → Bool
  | .lockPop | .empty | .waiting | .woken | .front | .unlockPop _ => true
  | _ => false

/-- What the writing thread has taken and not written yet. -/
def inHand (s : Logger P) : List Text :=
  match s.task, s.lockQue_.place none with
  | .fputs _ msg, _ => [msg]
  | .Pop _, .unlockPop msg => [msg]
  | _, _ => []

/-- The writing thread is in `Pop` when it says so. -/
def Placed (s : Logger P) : Prop :=
  match s.task with
  | .Pop _ => popping (s.lockQue_.place none) = true
  | _ => s.lockQue_.place none = .idle

structure Inv (s : Logger P) : Prop where
  queue : s.lockQue_.Inv
  others : ∀ p, popping (s.lockQue_.place (some p)) = false
  placed : s.Placed
  popped : s.lockQue_.popped.map Prod.snd = s.written.map (·.msg) ++ s.inHand
  files : ∀ name, s.files name =
    ((s.written.filter fun e => e.opened.file_name = name).map Entry.line).flatten

section Queue

variable {q q' : LockQueue (Option P) Text} {p : P}

/-- What a step of a thread that pushes leaves: it pushes on, another one that sleeps may have been
woken, and nothing has come out. -/
structure Pushing (q q' : LockQueue (Option P) Text) (p : P) : Prop where
  self : popping (q'.place (some p)) = false
  others : ∀ t, t ≠ some p → q'.place t = q.place t ∨
    q.place t = .waiting ∧ q'.place t = .woken
  popped : q'.popped = q.popped

omit [Fintype P] in
theorem pushing_moveTo {t : Place Text} (ht : popping t = false)
    (hp : q'.place = Function.update q.place (some p) t) (hpop : q'.popped = q.popped) :
    Pushing q q' p := by
  refine ⟨?_, ?_, hpop⟩
  · rw [hp, Function.update_self, ht]
  · intro u hu
    rw [hp, Function.update_of_ne hu]
    exact Or.inl rfl

omit [Fintype P] in
theorem pushing_lock {t : Place Text} (ht : popping t = false) (h : q.lock (some p) t = some q') :
    Pushing q q' p := by
  rw [LockQueue.lock] at h
  split_ifs at h
  obtain rfl := Option.some.inj h
  exact pushing_moveTo ht rfl rfl

theorem pushing_go (hp : popping (q.place (some p)) = false) {chosen : Option (Option P)}
    (h : q.go (some p) chosen = some q') : Pushing q q' p := by
  unfold LockQueue.go at h
  cases hplace : q.place (some p) with
  | idle => simp [hplace] at h
  | lockPush data =>
    simp only [hplace] at h
    exact pushing_lock rfl h
  | push data =>
    simp only [hplace, Option.some.injEq] at h
    subst h
    exact pushing_moveTo rfl rfl rfl
  | notify_one =>
    simp only [hplace] at h
    cases chosen with
    | none =>
      simp only at h
      split_ifs at h
      obtain rfl := Option.some.inj h
      exact pushing_moveTo rfl rfl rfl
    | some u =>
      simp only at h
      split_ifs at h with hu
      obtain rfl := Option.some.inj h
      rw [LockQueue.isWaiting_iff] at hu
      refine ⟨?_, ?_, rfl⟩
      · simp [LockQueue.moveTo, popping]
      · intro t ht
        simp only [LockQueue.moveTo, Function.update_of_ne ht]
        by_cases htu : t = u
        · rw [htu, Function.update_self]
          exact Or.inr ⟨hu, rfl⟩
        · rw [Function.update_of_ne htu]
          exact Or.inl rfl
  | unlockPush =>
    simp only [hplace, Option.some.injEq] at h
    subst h
    exact pushing_moveTo rfl rfl rfl
  | _ =>
    rw [hplace] at hp
    cases hp

end Queue

variable {s s' : Logger P}

/-- The queue after a step of a thread that logs. -/
theorem Inv.pushing (h : Inv s) {q : LockQueue (Option P) Text} {p : P} (hq : q.Inv)
    (hpush : Pushing s.lockQue_ q p) : Inv { s with lockQue_ := q } := by
  have hnone := hpush.others none (by simp)
  have hhand : inHand { s with lockQue_ := q } = s.inHand := by
    simp only [inHand]
    rcases hnone with hsame | ⟨hold, hnew⟩
    · rw [hsame]
    · rw [hold, hnew]
      cases s.task <;> rfl
  have hplaced : Placed { s with lockQue_ := q } := by
    have hold := h.placed
    simp only [Placed] at hold ⊢
    rcases hnone with hsame | ⟨hwait, hnew⟩
    · rw [hsame]
      exact hold
    · rw [hwait] at hold
      rw [hnew]
      cases hs : s.task with
      | Pop opened => rfl
      | _ => simp [hs] at hold
  refine ⟨hq, ?_, hplaced, ?_, h.files⟩
  · intro r
    by_cases hr : r = p
    · rw [hr]
      exact hpush.self
    · have hold := h.others r
      rcases hpush.others (some r) (by simpa using hr) with hsame | ⟨hwait, -⟩
      · rw [hsame]
        exact hold
      · rw [hwait] at hold
        cases hold
  · rw [hhand, hpush.popped]
    exact h.popped

/-- A step of the writing thread on the queue. -/
theorem Inv.writing (h : Inv s) {q : LockQueue (Option P) Text} {task : WriteLogTask} (hq : q.Inv)
    {t : Place Text} (hplace : q.place = Function.update s.lockQue_.place none t)
    (hplaced : Placed { s with lockQue_ := q, task := task })
    (hpopped : q.popped.map Prod.snd =
      s.written.map (·.msg) ++ inHand { s with lockQue_ := q, task := task }) :
    Inv { s with lockQue_ := q, task := task } := by
  refine ⟨hq, ?_, hplaced, hpopped, h.files⟩
  intro p
  have hsame : q.place (some p) = s.lockQue_.place (some p) := by
    rw [hplace]
    exact Function.update_of_ne (by simp) _ _
  rw [hsame]
  exact h.others p

/-- A step inside `Pop`, which takes a message only at `front`. -/
theorem Inv.goPop (h : Inv s) {opened : Tm} (htask : s.task = .Pop opened)
    (hs : Logger.onQueue { s with task := s.popped opened } (.go none none) = some s') : Inv s' := by
  obtain ⟨q, hgo, rfl⟩ := Option.map_eq_some_iff.mp hs
  have hq : q.Inv := h.queue.step hgo
  have hgo : s.lockQue_.go none none = some q := hgo
  have hpopping : popping (s.lockQue_.place none) = true := by
    have hplaced := h.placed
    simp only [Placed, htask] at hplaced
    exact hplaced
  have hpopped := h.popped
  simp only [inHand, htask] at hpopped
  unfold LockQueue.go at hgo
  cases hp : s.lockQue_.place none with
  | lockPop =>
    simp only [hp, LockQueue.lock] at hgo
    split_ifs at hgo
    obtain rfl := Option.some.inj hgo
    apply h.writing hq rfl
    · simp [Placed, Logger.popped, hp, LockQueue.moveTo, popping]
    · simpa [inHand, Logger.popped, hp, LockQueue.moveTo] using hpopped
  | empty =>
    simp only [hp] at hgo
    split_ifs at hgo
    · obtain rfl := Option.some.inj hgo
      apply h.writing hq rfl
      · simp [Placed, Logger.popped, hp, LockQueue.unlock, LockQueue.moveTo, popping]
      · simpa [inHand, Logger.popped, hp, LockQueue.unlock, LockQueue.moveTo] using hpopped
    · obtain rfl := Option.some.inj hgo
      apply h.writing hq rfl
      · simp [Placed, Logger.popped, hp, LockQueue.moveTo, popping]
      · simpa [inHand, Logger.popped, hp, LockQueue.moveTo] using hpopped
  | woken =>
    simp only [hp, LockQueue.lock] at hgo
    split_ifs at hgo
    obtain rfl := Option.some.inj hgo
    apply h.writing hq rfl
    · simp [Placed, Logger.popped, hp, LockQueue.moveTo, popping]
    · simpa [inHand, Logger.popped, hp, LockQueue.moveTo] using hpopped
  | front =>
    obtain ⟨msg, rest, hmsg⟩ := List.exists_cons_of_ne_nil (h.queue.front none hp)
    simp only [hp, hmsg, Option.some.injEq] at hgo
    subst hgo
    apply h.writing hq rfl
    · simp [Placed, Logger.popped, hp, LockQueue.moveTo, popping]
    · simpa [inHand, Logger.popped, hp, LockQueue.moveTo] using hpopped
  | unlockPop msg =>
    simp only [hp, Option.some.injEq] at hgo
    subst hgo
    apply h.writing hq rfl
    · simp [Placed, Logger.popped, hp, LockQueue.unlock, LockQueue.moveTo]
    · simpa [inHand, Logger.popped, hp, LockQueue.unlock, LockQueue.moveTo] using hpopped
  | waiting => simp [hp] at hgo
  | _ =>
    rw [hp] at hpopping
    cases hpopping

omit [DecidableEq P] in
/-- The file that is open gets one more line. -/
theorem Inv.fputs (h : Inv s) {opened : Tm} {msg : Text} (htask : s.task = .fputs opened msg)
    (now : Tm) :
    Inv { s with
      task := .fopen
      files := Function.update s.files opened.file_name
        (s.files opened.file_name ++ (Entry.mk opened now msg).line)
      written := s.written ++ [⟨opened, now, msg⟩] } := by
  have hidle : s.lockQue_.place none = .idle := by
    have hplaced := h.placed
    simp only [Placed, htask] at hplaced
    exact hplaced
  have hpopped := h.popped
  simp only [inHand, htask] at hpopped
  refine ⟨h.queue, h.others, hidle, ?_, ?_⟩
  · simp [inHand, hpopped]
  · intro name
    dsimp only
    rw [List.filter_append, List.map_append, List.flatten_append, ← h.files name]
    by_cases hname : name = opened.file_name
    · subst hname
      simp
    · simp [Function.update_of_ne hname, Ne.symm hname]

theorem Inv.log (h : Inv s) {p : P} {msg : Text} (hs : s.onQueue (.Push (some p) msg) = some s') :
    Inv s' := by
  obtain ⟨q, hgo, rfl⟩ := Option.map_eq_some_iff.mp hs
  have hq := h.queue.step hgo
  simp only [LockQueue.step] at hgo
  split_ifs at hgo
  obtain rfl := Option.some.inj hgo
  exact h.pushing hq (pushing_moveTo rfl rfl rfl)

theorem Inv.goPush (h : Inv s) {p : P} {chosen : Option (Option P)}
    (hs : s.onQueue (.go (some p) chosen) = some s') : Inv s' := by
  obtain ⟨q, hgo, rfl⟩ := Option.map_eq_some_iff.mp hs
  exact h.pushing (h.queue.step hgo) (pushing_go (h.others p) hgo)

theorem Inv.step (h : Inv s) {a : LogAction P} (hs : s.step a = some s') : Inv s' := by
  unfold Logger.step at hs
  split at hs
  next => cases hs
  next => exact h.log hs
  next => exact h.goPush hs
  next now ok htask =>
    have hidle : s.lockQue_.place none = .idle := by
      have hplaced := h.placed
      simp only [Placed, htask] at hplaced
      exact hplaced
    have hpopped := h.popped
    simp only [inHand, htask] at hpopped
    split_ifs at hs
    · obtain ⟨q, hgo, rfl⟩ := Option.map_eq_some_iff.mp hs
      have hq : q.Inv := h.queue.step hgo
      simp only [LockQueue.step, hidle, LockQueue.isIdle, if_true, Option.some.injEq] at hgo
      subst hgo
      apply h.writing hq rfl
      · simp [Placed, LockQueue.moveTo, popping]
      · simpa [inHand, LockQueue.moveTo] using hpopped
    · obtain rfl := Option.some.inj hs
      exact ⟨h.queue, h.others, hidle, by simpa [inHand] using hpopped, h.files⟩
  next opened htask => exact h.goPop htask hs
  next opened htask =>
    obtain ⟨q, hgo, rfl⟩ := Option.map_eq_some_iff.mp hs
    have hq : q.Inv := h.queue.step hgo
    have hpopped := h.popped
    simp only [LockQueue.step] at hgo
    split_ifs at hgo with hasleep
    rw [LockQueue.isWaiting_iff] at hasleep
    obtain rfl := Option.some.inj hgo
    simp only [inHand, htask, hasleep] at hpopped
    apply h.writing hq rfl
    · simp [Placed, htask, LockQueue.moveTo, popping]
    · simpa [inHand, htask, LockQueue.moveTo] using hpopped
  next opened msg now htask =>
    obtain rfl := Option.some.inj hs
    exact h.fputs htask now
  next => cases hs

omit [DecidableEq P] in
theorem inv_init : Inv (init : Logger P) :=
  ⟨LockQueue.inv_init, fun _ => rfl, rfl, rfl, fun _ => rfl⟩

/-- The messages logged so far, told by the calls alone. -/
def note : LogAction P → List (Option P × Text) → List (Option P × Text)
  | .log p msg, logged => logged ++ [(some p, msg)]
  | _, logged => logged

theorem onQueue_given {a : QueueAction (Option P) Text} {c : LockQueue.Calls (Option P) Text}
    (h : s.lockQue_.Given c.given) (hs : s.onQueue a = some s') :
    s'.lockQue_.Given (s.lockQue_.note a c).given := by
  obtain ⟨q, hgo, rfl⟩ := Option.map_eq_some_iff.mp hs
  exact LockQueue.Given.step h hgo

/-- Only a call of `log` gives the queue a message. -/
theorem given_step {a : LogAction P} {logged : List (Option P × Text)}
    (h : s.lockQue_.Given logged) (hs : s.step a = some s') : s'.lockQue_.Given (note a logged) := by
  have hqueue {u : Logger P} {b : QueueAction (Option P) Text} (hs : u.onQueue b = some s')
      (hu : u.lockQue_ = s.lockQue_) : s'.lockQue_.Given (u.lockQue_.note b ⟨logged, []⟩).given := by
    apply onQueue_given (c := ⟨logged, []⟩) _ hs
    rw [hu]
    exact h
  unfold Logger.step at hs
  split at hs
  next => cases hs
  next => exact (hqueue hs rfl :)
  next => exact (hqueue hs rfl :)
  next =>
    split_ifs at hs
    · exact (hqueue hs rfl :)
    · obtain rfl := Option.some.inj hs
      exact h
  next => exact (hqueue hs rfl :)
  next => exact (hqueue hs rfl :)
  next =>
    obtain rfl := Option.some.inj hs
    exact h
  next => cases hs

/-- What has been logged is in the files, once and in the order in which it was pushed, but for the
one message that the writing thread has in its hand, those in the queue, and those whose `log` has
not pushed them yet; each thread's messages are pushed in the order of its calls. Each day's file
has the lines that were written while it was open. When every thread is out of `log`, or sleeps, and
the writing thread is in `Pop`, nothing is missing from the files. -/
structure Logged (s : Logger P) (logged : List (Option P × Text)) : Prop where
  order : s.lockQue_.pushed.map Prod.snd =
    s.written.map (·.msg) ++ s.inHand ++ s.lockQue_.m_queue
  given : s.lockQue_.Given logged
  hand : s.inHand.length ≤ 1
  files : ∀ day : Tm, s.files day.file_name =
    ((s.written.filter fun e => e.opened.date = day.date).map Entry.line).flatten
  atRest : s.lockQue_.Stuck → (∃ opened, s.task = .Pop opened) →
    s.lockQue_.pushed.map Prod.snd = s.written.map (·.msg) ∧
      ∀ p, ofThread p logged = ofThread p s.lockQue_.pushed

theorem Inv.logged (h : Inv s) {logged : List (Option P × Text)} (hgiven : s.lockQue_.Given logged) :
    Logged s logged := by
  have horder : s.lockQue_.pushed.map Prod.snd =
      s.written.map (·.msg) ++ s.inHand ++ s.lockQue_.m_queue := by
    rw [h.queue.order, h.popped]
  refine ⟨horder, hgiven, ?_, ?_, ?_⟩
  · rw [inHand]
    split <;> simp
  · intro day
    rw [h.files]
    simp only [Tm.file_name_inj]
  · rintro hstuck ⟨opened, htask⟩
    obtain ⟨hplaces, hempty⟩ := h.queue.stuck hstuck
    have hwaiting : s.lockQue_.place none = .waiting := by
      have hplaced := h.placed
      simp only [Placed, htask] at hplaced
      rcases hplaces none with hidle | hwaiting
      · rw [hidle] at hplaced
        cases hplaced
      · exact hwaiting
    constructor
    · rw [horder, hempty ⟨none, hwaiting⟩]
      simp [inHand, htask, hwaiting]
    · intro p
      rw [hgiven p]
      rcases hplaces p with hp | hp <;> rw [hp] <;> exact List.append_nil _

/-- Any number of threads that log, in any order of steps. -/
theorem log_run (as : List (LogAction P)) :
    Always (recording step fun _ => note) (fun x : Logger P × List (Option P × Text) =>
      Logged x.1 x.2) (init, []) as := by
  have hinv : Always (recording step fun _ => note) (fun x : Logger P × List (Option P × Text) =>
      Inv x.1 ∧ x.1.lockQue_.Given x.2) (init, []) as := by
    apply always_of_step
    · intro x a y hx hy
      obtain ⟨hinv, hgiven⟩ := hx
      obtain ⟨hs, hnote⟩ := recording_eq_some.mp hy
      rw [hnote]
      exact ⟨hinv.step hs, given_step hgiven hs⟩
    · exact ⟨inv_init, fun _ => rfl⟩
  exact hinv.mono fun x hx => hx.1.logged hx.2

end Logger

end Mymuduo.Log
