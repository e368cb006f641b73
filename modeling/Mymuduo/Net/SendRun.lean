import Mymuduo.Net.SendPath

namespace Mymuduo.Net

open Lib

/-- The steps that concern a connection's output, each with `write`'s answer: calls of
`send` and `shutdown`, the loop running its next functor, and events of the channel. -/
inductive SendEvent where
  | send (inLoopThread : Bool) (data : List Byte) (answer : Except Errno Nat)
  | sendInLoop (data : List Byte) (answer : Except Errno Nat)
  | runFunctor (answer : Except Errno Nat)
  | handleWrite (answer : Except Errno Nat)
  | handleClose
  | shutdown

/-- A connection with two records of its history: the data of all `sendInLoop` calls that
were not dropped, and the data of all `send` calls that found it connected. -/
structure SendState where
  conn : TcpConnection
  sent : List Byte
  accepted : List Byte

/-- `write` fails or takes at most what it is offered. -/
def fits (len : Nat) : Except Errno Nat → Bool
  | .ok n => n ≤ len
  | .error _ => true

namespace SendEvent

/-- The `sendInLoop` call that a step makes, if it makes one. -/
def sendCall (c : TcpConnection) : SendEvent → Option (List Byte × Except Errno Nat)
  | send true data answer => if c.state_ = .kConnected then some (data, answer) else none
  | sendInLoop data answer => some (data, answer)
  | runFunctor answer =>
    match c.pendingFuntors_ with
    | .sendInLoop message :: _ => some (message, answer)
    | _ => none
  | _ => none

def possible (c : TcpConnection) (e : SendEvent) : Bool :=
  match sendCall c e, e with
  | some (data, answer), _ => fits data.length answer
  | none, handleWrite answer => fits c.oututBuffer_.readableBytes answer
  | none, runFunctor _ => c.pendingFuntors_ != []
  | none, _ => true

def act (c : TcpConnection) : SendEvent → TcpConnection
  | send inLoopThread data answer => c.send inLoopThread data answer
  | sendInLoop data answer => c.sendInLoop data answer
  | runFunctor answer =>
    match c.pendingFuntors_ with
    | [] => c
    | f :: fs => TcpConnection.runFunctor { c with pendingFuntors_ := fs } answer f
  | handleWrite answer => c.handleWrite answer
  | handleClose => c.handleClose
  | shutdown => c.shutdown

/-- The queue when a step has taken its functor from it. -/
def queueAfter (c : TcpConnection) : SendEvent → List Functor
  | runFunctor _ => c.pendingFuntors_.tail
  | _ => c.pendingFuntors_

/-- What a step adds to the stream: the data of its `sendInLoop` call unless it is dropped. -/
def streamed (c : TcpConnection) (e : SendEvent) : List Byte :=
  match sendCall c e with
  | some (data, answer) => if c.dropped answer then [] else data
  | none => []

/-- What a step is asked to send by a caller that found the connection connected. -/
def asked (c : TcpConnection) : SendEvent → List Byte
  | send _ data _ => if c.state_ = .kConnected then data else []
  | _ => []

end SendEvent

open SendEvent

namespace SendState

def after (s : SendState) (e : SendEvent) : SendState :=
  ⟨act s.conn e, s.sent ++ streamed s.conn e, s.accepted ++ asked s.conn e⟩

def step (s : SendState) (e : SendEvent) : Option SendState :=
  if possible s.conn e then some (s.after e) else none

/-- A connection just established. -/
def init (fd : Nat) (writeComplete highWater : Bool) : SendState :=
  ⟨(TcpConnection.new fd writeComplete highWater).connectEstablished, [], []⟩

theorem step_eq_some {s t : SendState} {e : SendEvent} (h : s.step e = some t) :
    possible s.conn e = true ∧ t.conn = act s.conn e ∧ t.sent = s.sent ++ streamed s.conn e ∧
      t.accepted = s.accepted ++ asked s.conn e := by
  unfold step at h
  split_ifs at h with hp
  obtain rfl := Option.some.inj h
  exact ⟨hp, rfl, rfl, rfl⟩

end SendState

/-- A connection whose channel has no write interest, with nothing but functors of the
output path and user callbacks in its loop's queue. -/
structure Quiet (c : TcpConnection) : Prop where
  idle : c.channel_.isWriting = false
  up : c.state_ ≠ .kConnecting
  plain : ∀ f ∈ c.pendingFuntors_, f ≠ .connectEstablished ∧ f ≠ .connectDestroyed

namespace Quiet

theorem init (fd : Nat) (writeComplete highWater : Bool) :
    Quiet (SendState.init fd writeComplete highWater).conn := by
  refine ⟨?_, by simp [SendState.init, TcpConnection.connectEstablished, TcpConnection.call,
    TcpConnection.onChannel], by simp [SendState.init, TcpConnection.connectEstablished,
    TcpConnection.call, TcpConnection.onChannel, TcpConnection.new]⟩
  exact (Channel.isWriting_enableReading _ _).trans (Channel.isWriting_new fd fd)

theorem enqueue {c : TcpConnection} (h : Quiet c) (f : Functor)
    (hf : f ≠ .connectEstablished ∧ f ≠ .connectDestroyed) : Quiet (c.queueInLoop f) := by
  refine ⟨h.idle, h.up, ?_⟩
  intro g hg
  rcases List.mem_append.mp hg with hg | hg
  · exact h.plain g hg
  · rw [List.mem_singleton.mp hg]
    exact hf

theorem dequeue {c : TcpConnection} (h : Quiet c) {fs : List Functor}
    (hfs : ∀ f ∈ fs, f ∈ c.pendingFuntors_) : Quiet { c with pendingFuntors_ := fs } :=
  ⟨h.idle, h.up, fun f hf => h.plain f (hfs f hf)⟩

theorem sends {c d : TcpConnection} {took rest : List Byte} (h : Quiet c)
    (k : TcpConnection.Sends c d took rest) : Quiet d := by
  obtain ⟨fs, hfs, hf⟩ := k.pending
  refine ⟨k.writing.trans h.idle, by rw [k.state]; exact h.up, ?_⟩
  intro f hm
  rw [hfs] at hm
  rcases List.mem_append.mp hm with hm | hm
  · exact h.plain f hm
  · rcases hf f hm with rfl | ⟨n, rfl⟩ <;> simp

theorem handleWrite {c : TcpConnection} (h : Quiet c) (answer : Except Errno Nat) :
    c.handleWrite answer = c := by
  simp [TcpConnection.handleWrite, h.idle]

theorem writesDirectly {c : TcpConnection} (h : Quiet c) :
    c.writesDirectly = true ↔ c.unsent = [] := by
  simp [TcpConnection.writesDirectly, h.idle, ByteBuffer.readableBytes_eq, TcpConnection.unsent]

end Quiet

theorem mem_queueAfter {c : TcpConnection} {e : SendEvent} {f : Functor}
    (h : f ∈ queueAfter c e) : f ∈ c.pendingFuntors_ := by
  cases e with
  | runFunctor answer => exact List.mem_of_mem_tail h
  | _ => exact h

/-- The three ways to a `sendInLoop` call. -/
theorem sendCall_cases {c : TcpConnection} {e : SendEvent} {data : List Byte}
    {answer : Except Errno Nat} (h : sendCall c e = some (data, answer)) :
    (e = .send true data answer ∧ c.state_ = .kConnected) ∨ e = .sendInLoop data answer ∨
      ∃ fs, e = .runFunctor answer ∧ c.pendingFuntors_ = .sendInLoop data :: fs := by
  cases e with
  | send inLoopThread d a =>
    cases inLoopThread with
    | false => simp [sendCall] at h
    | true =>
      simp only [sendCall] at h
      split_ifs at h with hc
      obtain ⟨rfl, rfl⟩ := Prod.mk.inj (Option.some.inj h)
      exact Or.inl ⟨rfl, hc⟩
  | sendInLoop d a =>
    obtain ⟨rfl, rfl⟩ := Prod.mk.inj (Option.some.inj h)
    exact Or.inr (Or.inl rfl)
  | runFunctor a =>
    simp only [sendCall] at h
    split at h
    · next message fs hp =>
      obtain ⟨rfl, rfl⟩ := Prod.mk.inj (Option.some.inj h)
      exact Or.inr (Or.inr ⟨fs, rfl, hp⟩)
    · cases h
  | handleWrite a => simp [sendCall] at h
  | handleClose => simp [sendCall] at h
  | shutdown => simp [sendCall] at h

/-- A step with a `sendInLoop` call is that call, after its functor has left the queue. -/
theorem act_of_sendCall {c : TcpConnection} {e : SendEvent} {data : List Byte}
    {answer : Except Errno Nat} (h : sendCall c e = some (data, answer)) :
    act c e = TcpConnection.sendInLoop { c with pendingFuntors_ := queueAfter c e } data answer := by
  rcases sendCall_cases h with ⟨rfl, hc⟩ | rfl | ⟨fs, rfl, hp⟩
  · exact if_pos hc
  · rfl
  · simp only [act, queueAfter, hp]
    rfl

theorem runFunctor_stream (c : TcpConnection) (answer : Except Errno Nat) (f : Functor)
    (hf : ∀ message, f ≠ .sendInLoop message) :
    (c.runFunctor answer f).written ++ (c.runFunctor answer f).unsent = c.written ++ c.unsent := by
  cases f with
  | sendInLoop message => exact absurd rfl (hf message)
  | shutdownInLoop =>
    obtain ⟨hw, hu⟩ := TcpConnection.shutdownInLoop_fields c
    simp only [TcpConnection.runFunctor, hw, hu]
  | connectEstablished => rfl
  | connectDestroyed =>
    by_cases hc : c.state_ = .kConnected
    · simp only [TcpConnection.runFunctor, TcpConnection.connectDestroyed, hc, if_true]
      rfl
    · simp only [TcpConnection.runFunctor, TcpConnection.connectDestroyed, hc, if_false]
      rfl
  | writeCompleteCallback => rfl
  | highWaterMarkCallback n => rfl

/-- One step: kernel and buffer together gain exactly what it streams. -/
theorem act_stream (c : TcpConnection) (e : SendEvent) :
    (act c e).written ++ (act c e).unsent = c.written ++ c.unsent ++ streamed c e := by
  cases h : sendCall c e with
  | some call =>
    simp only [act_of_sendCall h, streamed, h]
    exact TcpConnection.sendInLoop_stream { c with pendingFuntors_ := queueAfter c e } _ _
  | none =>
    simp only [streamed, h, List.append_nil]
    cases e with
    | send inLoopThread data answer =>
      by_cases hc : c.state_ = .kConnected
      · cases inLoopThread with
        | true => simp [sendCall, hc] at h
        | false =>
          simp only [act, TcpConnection.send, hc, if_true, Bool.false_eq_true, if_false]
          rfl
      · simp only [act, TcpConnection.send, hc, if_false]
    | sendInLoop data answer => simp [sendCall] at h
    | runFunctor answer =>
      cases hp : c.pendingFuntors_ with
      | nil => simp only [act, hp]
      | cons f fs =>
        simp only [act, hp]
        apply runFunctor_stream { c with pendingFuntors_ := fs } answer f
        intro message he
        subst he
        simp [sendCall, hp] at h
    | handleWrite answer => exact TcpConnection.handleWrite_stream c answer
    | handleClose => rfl
    | shutdown =>
      by_cases hc : c.state_ = .kConnected
      · simp only [act, TcpConnection.shutdown, hc, if_true]
        rfl
      · simp only [act, TcpConnection.shutdown, hc, if_false]

/-- From any connection, with write interest or without: what the kernel has taken, followed by
what `oututBuffer_` holds, gains the data of the `sendInLoop` calls that are not dropped, in call
order, and nothing else; a drain only moves the boundary. -/
theorem stream_run {s : SendState} (hs : s.conn.written ++ s.conn.unsent = s.sent)
    (es : List SendEvent) :
    Always SendState.step (fun s => s.conn.written ++ s.conn.unsent = s.sent) s es := by
  apply always_of_step
  · intro s e t hs ht
    obtain ⟨-, hconn, hsent, -⟩ := SendState.step_eq_some ht
    rw [hconn, hsent, act_stream, hs]
  · exact hs

/-- No byte is lost, duplicated or reordered: at every point of every run what the kernel
has taken, followed by what `oututBuffer_` holds, is the data of all the `sendInLoop` calls
so far that were not dropped, in call order. -/
theorem send_stream_exact (fd : Nat) (writeComplete highWater : Bool) (es : List SendEvent) :
    Always SendState.step (fun s => s.conn.written ++ s.conn.unsent = s.sent)
      (SendState.init fd writeComplete highWater) es :=
  stream_run rfl es

/-- A connection that may still have output to deliver. -/
def live (c : TcpConnection) : Prop := c.state_ = .kConnected ∨ c.state_ = .kDisConnecting

/-- A step without a `sendInLoop` call leaves a quiet connection quiet and its output alone. -/
theorem act_of_no_sendCall {c : TcpConnection} {e : SendEvent} (hq : Quiet c)
    (h : sendCall c e = none) :
    Quiet (act c e) ∧ (act c e).unsent = c.unsent ∧ (act c e).written = c.written ∧
      (live (act c e) → live c) := by
  cases e with
  | send inLoopThread data answer =>
    by_cases hc : c.state_ = .kConnected
    · cases inLoopThread with
      | true => simp [sendCall, hc] at h
      | false =>
        simp only [act, TcpConnection.send, hc, if_true, Bool.false_eq_true, if_false]
        exact ⟨hq.enqueue _ (by simp), rfl, rfl, fun _ => Or.inl hc⟩
    · simp only [act, TcpConnection.send, hc, if_false]
      exact ⟨hq, trivial, trivial, fun h => h⟩
  | sendInLoop data answer => simp [sendCall] at h
  | runFunctor answer =>
    cases hp : c.pendingFuntors_ with
    | nil =>
      simp only [act, hp]
      exact ⟨hq, trivial, trivial, fun h => h⟩
    | cons f fs =>
      have hf := hq.plain f (by simp [hp])
      have hd : Quiet { c with pendingFuntors_ := fs } := hq.dequeue fun g hg => by simp [hp, hg]
      simp only [act, hp]
      cases f with
      | sendInLoop message => simp [sendCall, hp] at h
      | shutdownInLoop =>
        have hi : c.channel_.isWriting = false := hq.idle
        simp only [TcpConnection.runFunctor, TcpConnection.shutdownInLoop, hi, Bool.not_false,
          if_true]
        exact ⟨⟨hd.idle, hd.up, hd.plain⟩, rfl, rfl, fun h => h⟩
      | connectEstablished => exact absurd rfl hf.1
      | connectDestroyed => exact absurd rfl hf.2
      | writeCompleteCallback => exact ⟨hd, rfl, rfl, fun h => h⟩
      | highWaterMarkCallback n => exact ⟨hd, rfl, rfl, fun h => h⟩
  | handleWrite answer =>
    simp only [act, hq.handleWrite]
    exact ⟨hq, trivial, trivial, fun h => h⟩
  | handleClose =>
    refine ⟨⟨Channel.isWriting_disableAll _ _, by simp [act, TcpConnection.handleClose,
      TcpConnection.call, TcpConnection.onChannel], hq.plain⟩, rfl, rfl, ?_⟩
    rintro (h | h) <;>
      simp [act, TcpConnection.handleClose, TcpConnection.call, TcpConnection.onChannel] at h
  | shutdown =>
    by_cases hc : c.state_ = .kConnected
    · have hd : Quiet { c with state_ := .kDisConnecting } := ⟨hq.idle, by simp, hq.plain⟩
      simp only [act, TcpConnection.shutdown, hc, if_true]
      exact ⟨hd.enqueue _ (by simp), rfl, rfl, fun _ => Or.inl hc⟩
    · simp only [act, TcpConnection.shutdown, hc, if_false]
      exact ⟨hq, trivial, trivial, fun h => h⟩

theorem quiet_act {c : TcpConnection} (hq : Quiet c) (e : SendEvent) : Quiet (act c e) := by
  cases h : sendCall c e with
  | none => exact (act_of_no_sendCall hq h).1
  | some call =>
    rw [act_of_sendCall h]
    exact (hq.dequeue fun f hf => mem_queueAfter hf).sends (TcpConnection.sendInLoop_sends _ _ _)

/-- Output that is waiting has write interest registered for it. -/
def Registered (s : SendState) : Prop :=
  live s.conn → 0 < s.conn.oututBuffer_.readableBytes → s.conn.channel_.isWriting = true

/-- The step's `sendInLoop` call, if it makes one, leaves nothing to buffer: the connection
is down, or its write fails for good, or its write takes all the data. -/
def TakesAll (s : SendState) (e : SendEvent) : Prop :=
  ∀ data answer, sendCall s.conn e = some (data, answer) →
    s.conn.state_ = .kDisConnected ∨ TcpConnection.faultError answer = true ∨
      TcpConnection.nwrote answer = data.length

theorem registered_iff {s : SendState} (hq : Quiet s.conn) :
    Registered s ↔ (live s.conn → s.conn.unsent = []) := by
  unfold Registered
  rw [hq.idle, ByteBuffer.readableBytes_eq]
  change (live s.conn → 0 < s.conn.unsent.length → false = true) ↔ _
  simp [List.length_pos_iff]

theorem fits_of_possible {c : TcpConnection} {e : SendEvent} {data : List Byte}
    {answer : Except Errno Nat} (h : sendCall c e = some (data, answer))
    (hp : possible c e = true) : TcpConnection.nwrote answer ≤ data.length := by
  simp only [possible, h] at hp
  cases answer with
  | ok n => simpa [fits, TcpConnection.nwrote] using hp
  | error e => simp [TcpConnection.nwrote]

theorem takesAll_of_call {s : SendState} {e : SendEvent} {data : List Byte}
    {answer : Except Errno Nat} (h : sendCall s.conn e = some (data, answer)) :
    TakesAll s e ↔ s.conn.state_ = .kDisConnected ∨ TcpConnection.faultError answer = true ∨
      TcpConnection.nwrote answer = data.length := by
  constructor
  · intro ht
    exact ht data answer h
  · intro ht data' answer' h'
    rw [h] at h'
    obtain ⟨rfl, rfl⟩ := Prod.mk.inj (Option.some.inj h')
    exact ht

theorem live_of_up {c : TcpConnection} (hq : Quiet c) (h : c.state_ ≠ .kDisConnected) : live c := by
  have hu := hq.up
  unfold live
  cases hs : c.state_ <;> simp_all

/-- From a live connection with nothing buffered, a step leaves nothing buffered exactly
when its call leaves nothing to buffer. -/
theorem unsent_step_iff {s t : SendState} {e : SendEvent} (hq : Quiet s.conn)
    (hl : live s.conn) (hu : s.conn.unsent = []) (ht : s.step e = some t) :
    t.conn.unsent = [] ↔ TakesAll s e := by
  obtain ⟨hp, hconn, -, -⟩ := SendState.step_eq_some ht
  rw [hconn]
  cases hc : sendCall s.conn e with
  | none =>
    have ha := (act_of_no_sendCall hq hc).2.1
    apply iff_of_true (ha.trans hu)
    intro data answer h
    simp [hc] at h
  | some call =>
    obtain ⟨data, answer⟩ := call
    have hup : s.conn.state_ ≠ .kDisConnected := by
      rcases hl with h | h <;> simp [h]
    have hd : s.conn.writesDirectly = true := hq.writesDirectly.mpr hu
    rw [act_of_sendCall hc, (TcpConnection.sendInLoop_sends _ data answer).unsent]
    change s.conn.unsent ++ s.conn.leftover data answer = [] ↔ _
    have hfit := fits_of_possible hc hp
    rw [hu, List.nil_append, takesAll_of_call hc]
    by_cases hfault : TcpConnection.faultError answer = true
    · simp [TcpConnection.leftover, TcpConnection.dropped, hd, hfault]
    · simp only [TcpConnection.leftover, TcpConnection.dropped, hup, hd, hfault, decide_false,
        Bool.false_or, Bool.true_and, Bool.false_eq_true, if_false, if_true, List.drop_eq_nil_iff,
        false_or]
      omega

/-- One step keeps the registration exactly when it buffers nothing. -/
theorem registered_step_iff {s t : SendState} {e : SendEvent} (hq : Quiet s.conn)
    (hr : Registered s) (ht : s.step e = some t) : Registered t ↔ TakesAll s e := by
  obtain ⟨-, hconn, -, -⟩ := SendState.step_eq_some ht
  have hqt : Quiet t.conn := by rw [hconn]; exact quiet_act hq e
  rw [registered_iff hqt]
  rw [registered_iff hq] at hr
  cases hc : sendCall s.conn e with
  | none =>
    have ha := act_of_no_sendCall hq hc
    apply iff_of_true
    · intro hl
      rw [hconn] at hl ⊢
      exact ha.2.1.trans (hr (ha.2.2.2 hl))
    · intro data answer h
      simp [hc] at h
  | some call =>
    have hstate : t.conn.state_ = s.conn.state_ := by
      rw [hconn, act_of_sendCall hc]
      exact (TcpConnection.sendInLoop_sends _ _ _).state
    by_cases hup : s.conn.state_ = .kDisConnected
    · refine iff_of_true ?_ (fun _ _ _ => Or.inl hup)
      intro hl
      simp [live, hstate, hup] at hl
    · have hl := live_of_up hq hup
      have hlt : live t.conn := by unfold live; rw [hstate]; exact hl
      rw [← unsent_step_iff hq hl (hr hl) ht]
      exact ⟨fun h => h hlt, fun h _ => h⟩

/-- A run keeps write interest registered for all waiting output exactly when no step of
it has a `sendInLoop` call whose data the kernel does not take in full at once. -/
theorem output_registered_iff (fd : Nat) (writeComplete highWater : Bool) (es : List SendEvent) :
    Always SendState.step Registered (SendState.init fd writeComplete highWater) es ↔
      Each SendState.step TakesAll (SendState.init fd writeComplete highWater) es := by
  have hq := Quiet.init fd writeComplete highWater
  have hr : Registered (SendState.init fd writeComplete highWater) :=
    (registered_iff hq).mpr fun _ => rfl
  refine always_iff_each (I := fun s : SendState => Quiet s.conn) ?_
    (fun s e t hs hP ht => registered_step_iff hs hP ht) hq hr es
  intro s e t hs _ ht _
  rw [(SendState.step_eq_some ht).2.1]
  exact quiet_act hs e

/-- The kernel takes one byte of two, and the other waits without write interest. -/
theorem partial_write_unregistered :
    ¬ Always SendState.step Registered (SendState.init 7 false false)
      [.sendInLoop [1, 2] (.ok 1)] := by
  intro h
  have hstep : (SendState.init 7 false false).step (.sendInLoop [1, 2] (.ok 1)) = some _ :=
    if_pos rfl
  have hreg := (registered_step_iff (Quiet.init 7 false false) h.1 hstep).mp (h.2 _ hstep)
  rcases hreg [1, 2] (.ok 1) rfl with hdown | hfault | hall
  · cases hdown
  · cases hfault
  · cases hall

/-- With output waiting, no step writes, and what a call brings waits behind it. -/
theorem stalled_step {s t : SendState} {e : SendEvent} (hq : Quiet s.conn)
    (hne : s.conn.unsent ≠ []) (ht : s.step e = some t) :
    Quiet t.conn ∧ t.conn.written = s.conn.written ∧
      t.conn.unsent = s.conn.unsent ++ streamed s.conn e := by
  obtain ⟨-, hconn, -, -⟩ := SendState.step_eq_some ht
  rw [hconn]
  have hwritten : (act s.conn e).written = s.conn.written := by
    cases hc : sendCall s.conn e with
    | none => exact (act_of_no_sendCall hq hc).2.2.1
    | some call =>
      obtain ⟨data, answer⟩ := call
      have hdirect : s.conn.writesDirectly ≠ true := fun hd => hne (hq.writesDirectly.mp hd)
      have htaken : s.conn.taken data answer = [] := by
        rw [TcpConnection.taken, if_neg hdirect, ite_self]
      have hsends := TcpConnection.sendInLoop_sends
        { s.conn with pendingFuntors_ := queueAfter s.conn e } data answer
      rw [act_of_sendCall hc, hsends.written]
      exact (congrArg (s.conn.written ++ ·) htaken).trans (List.append_nil _)
  refine ⟨quiet_act hq e, hwritten, ?_⟩
  have hstream := act_stream s.conn e
  rw [hwritten, List.append_assoc] at hstream
  exact List.append_cancel_left hstream

/-- Once a byte has gone to `oututBuffer_`, nothing more is ever written on the connection,
whatever is sent and whatever the channel reports: what was waiting stays, and what is sent since
waits behind it. -/
theorem output_stalls (fd : Nat) (writeComplete highWater : Bool) {es es' : List SendEvent}
    {s : SendState} (hr : run SendState.step (SendState.init fd writeComplete highWater) es = some s)
    (hne : s.conn.unsent ≠ []) :
    Always SendState.step (fun t => t.conn.written = s.conn.written ∧
      ∃ since, t.sent = s.sent ++ since ∧ t.conn.unsent = s.conn.unsent ++ since) s es' := by
  have hquiet : Quiet s.conn := by
    have hall : Always SendState.step (fun s => Quiet s.conn)
        (SendState.init fd writeComplete highWater) es := by
      apply always_of_step
      · intro s e t hs ht
        rw [(SendState.step_eq_some ht).2.1]
        exact quiet_act hs e
      · exact Quiet.init fd writeComplete highWater
    exact hall.last hr
  have hinv : Always SendState.step (fun t => Quiet t.conn ∧ t.conn.written = s.conn.written ∧
      ∃ since, t.sent = s.sent ++ since ∧ t.conn.unsent = s.conn.unsent ++ since) s es' := by
    refine always_of_step ?_ ⟨hquiet, rfl, [], by simp, by simp⟩ es'
    intro t e u h ht
    obtain ⟨hq, hwritten, since, hsent, hunsent⟩ := h
    have hwaits : t.conn.unsent ≠ [] := by
      intro hnil
      rw [hunsent] at hnil
      exact hne (List.append_eq_nil_iff.mp hnil).1
    obtain ⟨hq', hwritten', hunsent'⟩ := stalled_step hq hwaits ht
    obtain ⟨-, -, hsent', -⟩ := SendState.step_eq_some ht
    refine ⟨hq', hwritten'.trans hwritten, since ++ streamed t.conn e, ?_, ?_⟩
    · rw [hsent', hsent, List.append_assoc]
    · rw [hunsent', hunsent, List.append_assoc]
  exact hinv.mono fun _ h => h.2

/-- The kernel takes one byte of two; then the socket is writable, and more is sent. -/
theorem output_stalls_oneByte : ∃ s, run SendState.step (SendState.init 7 false false)
      [.send true [1, 2] (.ok 1)] = some s ∧ s.conn.written = [1] ∧
    Always SendState.step (fun t => t.conn.written = s.conn.written ∧
      ∃ since, t.sent = s.sent ++ since ∧ t.conn.unsent = s.conn.unsent ++ since) s
      [.handleWrite (.ok 1), .send true [3] (.ok 1)] := by
  have hr : run SendState.step (SendState.init 7 false false) [.send true [1, 2] (.ok 1)] =
      some ((SendState.init 7 false false).after (.send true [1, 2] (.ok 1))) := rfl
  refine ⟨_, hr, rfl, output_stalls 7 false false hr ?_⟩
  decide +kernel

end Mymuduo.Net
