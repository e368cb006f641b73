import Mymuduo.Net.SendRun

namespace Mymuduo.Net

open Lib SendEvent

/-- The steps a user and the loop can cause: all but a direct call of the private
`sendInLoop`. -/
def SendEvent.isPublic : SendEvent → Bool
  | sendInLoop _ _ => false
  | _ => true

def halfCloses (c : TcpConnection) : Nat := c.calls.count .shutdownWrite

/-- If the step half-closes the socket, nothing is left in `oututBuffer_` and the bytes
written are those of the accepted sends. -/
def CleanHalfClose (s : SendState) (e : SendEvent) : Prop :=
  ∀ t, s.step e = some t → halfCloses s.conn < halfCloses t.conn →
    t.conn.unsent = [] ∧ t.accepted.Perm t.conn.written

/-- The step's `sendInLoop` call, if it makes one, hands all its data to the kernel. -/
def Delivers (s : SendState) (e : SendEvent) : Prop :=
  ∀ data answer, sendCall s.conn e = some (data, answer) →
    data = [] ∨ s.conn.state_ ≠ .kDisConnected ∧ TcpConnection.nwrote answer = data.length

/-- The bytes that wait in queued `sendInLoop` functors. -/
def queued : List Functor → List Byte
  | [] => []
  | .sendInLoop message :: fs => message ++ queued fs
  | _ :: fs => queued fs

theorem queued_append (fs gs : List Functor) : queued (fs ++ gs) = queued fs ++ queued gs := by
  induction fs with
  | nil => rfl
  | cons f fs ih => cases f <;> simp [queued, ih]

theorem queued_eq_nil {fs : List Functor} (h : ∀ f ∈ fs, ∀ message, f ≠ .sendInLoop message) :
    queued fs = [] := by
  induction fs with
  | nil => rfl
  | cons f fs ih =>
    have hfs := ih fun g hg => h g (List.mem_cons_of_mem f hg)
    cases f with
    | sendInLoop message => exact absurd rfl (h _ List.mem_cons_self message)
    | _ => exact hfs

/-- In a queue `f` may come before `g`: no `sendInLoop` follows a `shutdownInLoop`. -/
def mayPrecede (f g : Functor) : Prop := f = .shutdownInLoop → ∀ message, g ≠ .sendInLoop message

/-- A connection that takes no more sends once its queue holds a `shutdownInLoop`. -/
structure Ordered (c : TcpConnection) : Prop where
  closing : .shutdownInLoop ∈ c.pendingFuntors_ → c.state_ ≠ .kConnected
  last : c.pendingFuntors_.Pairwise mayPrecede

namespace Ordered

theorem init (fd : Nat) (writeComplete highWater : Bool) :
    Ordered (SendState.init fd writeComplete highWater).conn := by
  have hp : (SendState.init fd writeComplete highWater).conn.pendingFuntors_ = [] := rfl
  constructor <;> simp [hp]

/-- Functors at the end of the queue: a `sendInLoop` from a connected state only, a
`shutdownInLoop` only where the connection is connected no longer. -/
theorem grow {c d : TcpConnection} (h : Ordered c) (fs : List Functor)
    (hp : d.pendingFuntors_ = c.pendingFuntors_ ++ fs)
    (hup : d.state_ = .kConnected → c.state_ = .kConnected)
    (hclose : .shutdownInLoop ∈ fs → d.state_ ≠ .kConnected)
    (hsend : ∀ message, .sendInLoop message ∈ fs → c.state_ = .kConnected)
    (hfs : fs.Pairwise mayPrecede) : Ordered d := by
  constructor
  · intro hm hd
    rw [hp] at hm
    rcases List.mem_append.mp hm with hm | hm
    · exact h.closing hm (hup hd)
    · exact hclose hm hd
  · rw [hp, List.pairwise_append]
    refine ⟨h.last, hfs, ?_⟩
    intro f hf g hg he message he1
    subst he
    subst he1
    exact h.closing hf (hsend message hg)

theorem dequeue {c : TcpConnection} (h : Ordered c) {fs : List Functor}
    (hfs : fs.Sublist c.pendingFuntors_) : Ordered { c with pendingFuntors_ := fs } :=
  ⟨fun hm => h.closing (hfs.subset hm), h.last.sublist hfs⟩

theorem sends {c d : TcpConnection} {took rest : List Byte} (h : Ordered c)
    (k : TcpConnection.Sends c d took rest) : Ordered d := by
  obtain ⟨fs, hp, hf⟩ := k.pending
  apply h.grow fs hp (fun hd => k.state.symm.trans hd)
  · intro hm
    rcases hf _ hm with hf | ⟨n, hf⟩ <;> cases hf
  · intro message hm
    rcases hf _ hm with hf | ⟨n, hf⟩ <;> cases hf
  · apply List.pairwise_of_forall_mem_list
    intro f hm g _ heq
    rcases hf f hm with hf | ⟨n, hf⟩ <;> simp [heq] at hf

end Ordered

theorem queueAfter_sublist (c : TcpConnection) (e : SendEvent) :
    (queueAfter c e).Sublist c.pendingFuntors_ := by
  cases e with
  | runFunctor answer => exact List.tail_sublist _
  | _ => exact List.Sublist.refl _

/-- A step without a `sendInLoop` call: the queue keeps its order, and gains the bytes that
the step was asked to send. -/
theorem queue_of_no_sendCall {c : TcpConnection} {e : SendEvent} (hq : Quiet c) (ho : Ordered c)
    (h : sendCall c e = none) :
    Ordered (act c e) ∧
      queued (act c e).pendingFuntors_ = queued c.pendingFuntors_ ++ asked c e := by
  cases e with
  | send inLoopThread data answer =>
    by_cases hc : c.state_ = .kConnected
    · cases inLoopThread with
      | true => simp [sendCall, hc] at h
      | false =>
        simp only [act, TcpConnection.send, asked, hc, if_true, Bool.false_eq_true, if_false]
        refine ⟨ho.grow [.sendInLoop data] rfl (fun h => h) (by simp) (fun _ _ => hc)
          (List.pairwise_singleton _ _), ?_⟩
        simp [TcpConnection.queueInLoop, queued_append, queued]
    · simp only [act, TcpConnection.send, asked, hc, if_false, List.append_nil]
      exact ⟨ho, trivial⟩
  | sendInLoop data answer => simp [sendCall] at h
  | runFunctor answer =>
    cases hp : c.pendingFuntors_ with
    | nil =>
      simp only [act, hp, asked, List.append_nil]
      exact ⟨ho, trivial⟩
    | cons f fs =>
      have hf := hq.plain f (by simp [hp])
      have hd : Ordered { c with pendingFuntors_ := fs } := ho.dequeue (by simp [hp])
      simp only [act, hp, asked, List.append_nil]
      cases f with
      | sendInLoop message => simp [sendCall, hp] at h
      | shutdownInLoop =>
        simp only [TcpConnection.runFunctor, TcpConnection.shutdownInLoop, hq.idle, Bool.not_false,
          if_true]
        exact ⟨⟨hd.closing, hd.last⟩, rfl⟩
      | connectEstablished => exact absurd rfl hf.1
      | connectDestroyed => exact absurd rfl hf.2
      | writeCompleteCallback => exact ⟨hd, rfl⟩
      | highWaterMarkCallback n => exact ⟨hd, rfl⟩
  | handleWrite answer =>
    simp only [act, hq.handleWrite, asked, List.append_nil]
    exact ⟨ho, trivial⟩
  | handleClose =>
    refine ⟨ho.grow [] (List.append_nil _).symm ?_ (by simp) (by simp) List.Pairwise.nil,
      (List.append_nil _).symm⟩
    simp [act, TcpConnection.handleClose, TcpConnection.call, TcpConnection.onChannel]
  | shutdown =>
    by_cases hc : c.state_ = .kConnected
    · simp only [act, TcpConnection.shutdown, asked, hc, if_true, List.append_nil]
      refine ⟨ho.grow [.shutdownInLoop] rfl (fun _ => hc) ?_ (by simp)
        (List.pairwise_singleton _ _), ?_⟩
      · simp [TcpConnection.queueInLoop]
      · simp [TcpConnection.queueInLoop, queued_append, queued]
    · simp only [act, TcpConnection.shutdown, hc, if_false, asked, List.append_nil]
      exact ⟨ho, trivial⟩

theorem ordered_act {c : TcpConnection} (hq : Quiet c) (ho : Ordered c) (e : SendEvent) :
    Ordered (act c e) := by
  cases h : sendCall c e with
  | none => exact (queue_of_no_sendCall hq ho h).1
  | some call =>
    rw [act_of_sendCall h]
    exact (ho.dequeue (queueAfter_sublist c e)).sends (TcpConnection.sendInLoop_sends _ _ _)

/-- The bytes of one `sendInLoop` call that do not reach the kernel at once. -/
def missed (c : TcpConnection) (data : List Byte) (answer : Except Errno Nat) : List Byte :=
  if c.state_ = .kDisConnected then data
  else if c.writesDirectly then data.drop (TcpConnection.nwrote answer) else data

theorem taken_append_missed (c : TcpConnection) (data : List Byte) (answer : Except Errno Nat) :
    c.taken data answer ++ missed c data answer = data := by
  unfold TcpConnection.taken missed
  split_ifs <;> simp

theorem leftover_of_missed {c : TcpConnection} {data : List Byte} {answer : Except Errno Nat}
    (h : missed c data answer = []) : c.leftover data answer = [] := by
  unfold missed at h
  unfold TcpConnection.leftover
  split_ifs at h ⊢ <;> simp_all [TcpConnection.dropped]

/-- The accepted bytes are those written, those still queued as functors, and `missing`. -/
structure Tally (s : SendState) (missing : List Byte) : Prop where
  accepted : s.accepted.Perm (s.conn.written ++ queued s.conn.pendingFuntors_ ++ missing)
  unsent : missing = [] → s.conn.unsent = []

theorem delivers_of_call {s : SendState} {e : SendEvent} {data : List Byte}
    {answer : Except Errno Nat} (h : sendCall s.conn e = some (data, answer)) :
    Delivers s e ↔ data = [] ∨
      s.conn.state_ ≠ .kDisConnected ∧ TcpConnection.nwrote answer = data.length := by
  constructor
  · intro hd
    exact hd data answer h
  · intro hd data' answer' h'
    rw [h] at h'
    obtain ⟨rfl, rfl⟩ := Prod.mk.inj (Option.some.inj h')
    exact hd

/-- With nothing buffered, a call misses nothing exactly when it delivers. -/
theorem missed_eq_nil_iff {s : SendState} {e : SendEvent} {data : List Byte}
    {answer : Except Errno Nat} (hq : Quiet s.conn) (hu : s.conn.unsent = [])
    (hc : sendCall s.conn e = some (data, answer)) (hp : possible s.conn e = true) :
    missed s.conn data answer = [] ↔ Delivers s e := by
  have hd : s.conn.writesDirectly = true := hq.writesDirectly.mpr hu
  have hfit := fits_of_possible hc hp
  rw [delivers_of_call hc]
  unfold missed
  by_cases hdown : s.conn.state_ = .kDisConnected
  · simp [hdown]
  · simp only [hdown, hd, if_false, if_true, List.drop_eq_nil_iff, ne_eq, not_false_eq_true,
      true_and]
    rw [← List.length_eq_zero_iff]
    omega

/-- A call's data comes from its caller or from the queue. -/
theorem asked_of_sendCall {c : TcpConnection} {e : SendEvent} {data : List Byte}
    {answer : Except Errno Nat} (hpub : e.isPublic = true)
    (h : sendCall c e = some (data, answer)) :
    (queued c.pendingFuntors_ ++ asked c e).Perm (data ++ queued (queueAfter c e)) := by
  rcases sendCall_cases h with ⟨rfl, hc⟩ | rfl | ⟨fs, rfl, hp⟩
  · simp only [asked, queueAfter, hc, if_true]
    exact List.perm_append_comm
  · simp [isPublic] at hpub
  · simp [asked, queueAfter, hp, queued]

/-- One step: what is missing grows by what the step's call does not deliver. -/
theorem tally_step {s t : SendState} {e : SendEvent} {missing : List Byte} (hq : Quiet s.conn)
    (ho : Ordered s.conn) (hpub : e.isPublic = true) (ht : s.step e = some t)
    (h : Tally s missing) :
    ∃ missing', Tally t missing' ∧ (missing' = [] ↔ missing = [] ∧ Delivers s e) := by
  obtain ⟨hp, hconn, -, hacc⟩ := SendState.step_eq_some ht
  cases hc : sendCall s.conn e with
  | none =>
    obtain ⟨-, hu, hw, -⟩ := act_of_no_sendCall hq hc
    obtain ⟨-, hqueue⟩ := queue_of_no_sendCall hq ho hc
    refine ⟨missing, ⟨?_, ?_⟩, ?_⟩
    · rw [hacc, hconn, hw, hqueue]
      apply (h.accepted.append_right _).trans
      simp only [List.append_assoc]
      exact ((List.perm_append_comm).append_left _).append_left _
    · intro hm
      rw [hconn, hu]
      exact h.unsent hm
    · have hd : Delivers s e := by
        intro data answer h'
        simp [hc] at h'
      simp [hd]
  | some call =>
    obtain ⟨data, answer⟩ := call
    have hs := TcpConnection.sendInLoop_sends
      { s.conn with pendingFuntors_ := queueAfter s.conn e } data answer
    rw [← act_of_sendCall hc, ← hconn] at hs
    obtain ⟨fs, hfs, hf⟩ := hs.pending
    have hcb : queued fs = [] := by
      apply queued_eq_nil
      intro f hm message he
      subst he
      rcases hf _ hm with hf | ⟨n, hf⟩ <;> cases hf
    refine ⟨missing ++ missed s.conn data answer, ⟨?_, ?_⟩, ?_⟩
    · rw [hacc, hs.written, hfs, queued_append, hcb, List.append_nil]
      change (s.accepted ++ asked s.conn e).Perm
        (s.conn.written ++ s.conn.taken data answer ++ queued (queueAfter s.conn e) ++
          (missing ++ missed s.conn data answer))
      have hask := asked_of_sendCall hpub hc
      rw [← taken_append_missed s.conn data answer] at hask
      rw [List.perm_iff_count] at hask ⊢
      have hold := List.perm_iff_count.mp h.accepted
      intro b
      have hb := hask b
      have hb' := hold b
      simp only [List.count_append] at hb hb' ⊢
      omega
    · intro hm
      obtain ⟨hm, hmiss⟩ := List.append_eq_nil_iff.mp hm
      rw [hs.unsent]
      exact List.append_eq_nil_iff.mpr ⟨h.unsent hm, leftover_of_missed hmiss⟩
    · rw [List.append_eq_nil_iff]
      apply and_congr_right
      intro hm
      exact missed_eq_nil_iff hq (h.unsent hm) hc hp

/-- A whole run: nothing is missing exactly when every call of it delivered. -/
theorem tally_run {s t : SendState} {es : List SendEvent} {missing : List Byte}
    (hq : Quiet s.conn) (ho : Ordered s.conn) (hpub : ∀ e ∈ es, e.isPublic = true)
    (h : Tally s missing) (hr : run SendState.step s es = some t) :
    Quiet t.conn ∧ Ordered t.conn ∧ ∃ missing', Tally t missing' ∧
      (missing' = [] ↔ missing = [] ∧ Each SendState.step Delivers s es) := by
  induction es generalizing s missing with
  | nil =>
    obtain rfl : s = t := by simpa [run] using hr
    exact ⟨hq, ho, missing, h, by simp [Each]⟩
  | cons e es ih =>
    obtain ⟨u, hu, hr⟩ := Option.bind_eq_some_iff.mp hr
    obtain ⟨missing', hm, hiff⟩ := tally_step hq ho (hpub e List.mem_cons_self) hu h
    have hconn := (SendState.step_eq_some hu).2.1
    have hqu : Quiet u.conn := by rw [hconn]; exact quiet_act hq e
    have hou : Ordered u.conn := by rw [hconn]; exact ordered_act hq ho e
    obtain ⟨hqt, hot, last, hlast, hiff'⟩ :=
      ih hqu hou (fun f hf => hpub f (List.mem_cons_of_mem e hf)) hm hr
    refine ⟨hqt, hot, last, hlast, ?_⟩
    rw [hiff', hiff, and_assoc]
    apply and_congr_right
    intro _
    simp [Each, hu]

/-- The only step that half-closes is the loop running a queued `shutdownInLoop`. -/
theorem halfCloses_act {c : TcpConnection} {e : SendEvent} (hq : Quiet c)
    (h : halfCloses c < halfCloses (act c e)) :
    ∃ answer, e = .runFunctor answer ∧ c.pendingFuntors_.head? = some .shutdownInLoop := by
  cases hc : sendCall c e with
  | some call =>
    have hs := TcpConnection.sendInLoop_sends { c with pendingFuntors_ := queueAfter c e }
      call.1 call.2
    rw [← act_of_sendCall hc] at hs
    have hcalls : (act c e).calls = c.calls := hs.calls
    simp [halfCloses, hcalls] at h
  | none =>
    cases e with
    | send inLoopThread data answer =>
      simp only [act, TcpConnection.send] at h
      split_ifs at h with hup hin
      · simp [sendCall, hup, hin] at hc
      · exact absurd h (lt_irrefl _)
      · exact absurd h (lt_irrefl _)
    | sendInLoop data answer => simp [sendCall] at hc
    | runFunctor answer =>
      cases hp : c.pendingFuntors_ with
      | nil => simp [act, hp] at h
      | cons f fs =>
        have hf := hq.plain f (by simp [hp])
        cases f with
        | sendInLoop message => simp [sendCall, hp] at hc
        | shutdownInLoop => exact ⟨answer, rfl, rfl⟩
        | connectEstablished => exact absurd rfl hf.1
        | connectDestroyed => exact absurd rfl hf.2
        | writeCompleteCallback => simp [act, hp, TcpConnection.runFunctor, halfCloses] at h
        | highWaterMarkCallback n => simp [act, hp, TcpConnection.runFunctor, halfCloses] at h
    | handleWrite answer => simp [act, hq.handleWrite] at h
    | handleClose =>
      simp [act, TcpConnection.handleClose, TcpConnection.call, TcpConnection.onChannel,
        halfCloses] at h
    | shutdown =>
      simp only [act, TcpConnection.shutdown] at h
      split_ifs at h
      · exact absurd h (lt_irrefl _)
      · exact absurd h (lt_irrefl _)

/-- Running a queued `shutdownInLoop` half-closes at once: only the test of `isWriting`
stands before it, not one of the buffer. -/
theorem step_shutdownInLoop {s : SendState} (hq : Quiet s.conn) (answer : Except Errno Nat)
    (h : s.conn.pendingFuntors_.head? = some .shutdownInLoop) :
    ∃ t, s.step (.runFunctor answer) = some t ∧ halfCloses s.conn < halfCloses t.conn ∧
      t.conn.unsent = s.conn.unsent ∧ t.conn.written = s.conn.written ∧
      t.accepted = s.accepted := by
  obtain ⟨fs, hp⟩ : ∃ fs, s.conn.pendingFuntors_ = .shutdownInLoop :: fs :=
    List.head?_eq_some_iff.mp h
  have hact : act s.conn (.runFunctor answer) =
      TcpConnection.call { s.conn with pendingFuntors_ := fs } .shutdownWrite := by
    simp only [act, hp, TcpConnection.runFunctor, TcpConnection.shutdownInLoop, hq.idle,
      Bool.not_false, if_true]
  have hposs : possible s.conn (.runFunctor answer) = true := by simp [possible, sendCall, hp]
  refine ⟨_, if_pos hposs, ?_⟩
  simp only [SendState.after, hact, asked, List.append_nil]
  refine ⟨?_, rfl, rfl, trivial⟩
  simp [halfCloses, TcpConnection.call]

theorem queued_of_head {c : TcpConnection} (ho : Ordered c)
    (h : c.pendingFuntors_.head? = some .shutdownInLoop) : queued c.pendingFuntors_ = [] := by
  obtain ⟨fs, hp⟩ := List.head?_eq_some_iff.mp h
  have hlast := ho.last
  rw [hp] at hlast ⊢
  change queued fs = []
  exact queued_eq_nil fun f hf => (List.pairwise_cons.mp hlast).1 f hf rfl

/-- In a state reached by `pre`, running a queued `shutdownInLoop` is clean exactly when
every send of `pre` was taken by the kernel in full. -/
theorem clean_iff_delivers {s : SendState} {missing : List Byte} (hq : Quiet s.conn)
    (ho : Ordered s.conn) (htally : Tally s missing) (answer : Except Errno Nat)
    (h : s.conn.pendingFuntors_.head? = some .shutdownInLoop) :
    CleanHalfClose s (.runFunctor answer) ↔ missing = [] := by
  obtain ⟨t, ht, hclose, hu, hw, hacc⟩ := step_shutdownInLoop hq answer h
  have hsum := htally.accepted
  rw [queued_of_head ho h, List.append_nil] at hsum
  constructor
  · intro hclean
    obtain ⟨-, hperm⟩ := hclean t ht hclose
    rw [hacc, hw] at hperm
    have hlen := (hsum.symm.trans hperm).length_eq
    rw [List.length_append] at hlen
    exact List.length_eq_zero_iff.mp (by omega)
  · intro he t' ht' _
    subst he
    obtain rfl : t = t' := Option.some.inj (ht.symm.trans ht')
    rw [hu, hacc, hw]
    refine ⟨htally.unsent rfl, ?_⟩
    simpa using hsum

/-- Along every run, a half close finds every accepted byte written exactly when each
`sendInLoop` call before it had all its data taken by the kernel. -/
theorem half_close_clean_iff (fd : Nat) (writeComplete highWater : Bool) (es : List SendEvent)
    (hpub : ∀ e ∈ es, e.isPublic = true) :
    Each SendState.step CleanHalfClose (SendState.init fd writeComplete highWater) es ↔
      ∀ pre answer post s, es = pre ++ .runFunctor answer :: post →
        run SendState.step (SendState.init fd writeComplete highWater) pre = some s →
        s.conn.pendingFuntors_.head? = some .shutdownInLoop →
        Each SendState.step Delivers (SendState.init fd writeComplete highWater) pre := by
  have hreach : ∀ pre e post s, es = pre ++ e :: post →
      run SendState.step (SendState.init fd writeComplete highWater) pre = some s →
      Quiet s.conn ∧ Ordered s.conn ∧ ∃ missing, Tally s missing ∧ (missing = [] ↔
        Each SendState.step Delivers (SendState.init fd writeComplete highWater) pre) := by
    intro pre e post s hes hr
    have htally : Tally (SendState.init fd writeComplete highWater) [] := ⟨List.Perm.nil, fun _ => rfl⟩
    have hpre : ∀ e ∈ pre, e.isPublic = true := fun e he => hpub e (by simp [hes, he])
    obtain ⟨hq, ho, missing, hm, hiff⟩ := tally_run (Quiet.init fd writeComplete highWater)
      (Ordered.init fd writeComplete highWater) hpre htally hr
    exact ⟨hq, ho, missing, hm, hiff.trans (by simp)⟩
  rw [each_iff_split]
  constructor
  · intro h pre answer post s hes hr hhead
    obtain ⟨hq, ho, missing, hm, hiff⟩ := hreach pre _ post s hes hr
    obtain ⟨t, ht, -⟩ := step_shutdownInLoop hq answer hhead
    have hclean := h pre _ post s t hes hr ht
    exact hiff.mp ((clean_iff_delivers hq ho hm answer hhead).mp hclean)
  · intro h pre e post s t hes hr ht
    obtain ⟨hq, ho, missing, hm, hiff⟩ := hreach pre e post s hes hr
    intro u hu hclose
    have hconn := (SendState.step_eq_some hu).2.1
    obtain ⟨answer, rfl, hhead⟩ := halfCloses_act hq (hconn ▸ hclose)
    have hmiss := hiff.mpr (h pre answer post s hes hr hhead)
    exact (clean_iff_delivers hq ho hm answer hhead).mpr hmiss u hu hclose

/-- Two bytes the kernel takes, then a half close that finds them written. -/
theorem half_close_clean_iff_sent :
    Each SendState.step CleanHalfClose (SendState.init 7 false false)
      [.send true [1, 2] (.ok 2), .shutdown, .runFunctor (.ok 0)] := by
  apply (half_close_clean_iff 7 false false _ (by decide)).mpr
  intro pre answer post s hes hr hhead
  have hall : Each SendState.step Delivers (SendState.init 7 false false)
      [.send true [1, 2] (.ok 2), .shutdown, .runFunctor (.ok 0)] := by
    intro t ht
    obtain rfl : (SendState.init 7 false false).after (.send true [1, 2] (.ok 2)) = t :=
      Option.some.inj ht
    refine ⟨(delivers_of_call rfl).mpr (Or.inr ⟨by decide, rfl⟩), ?_⟩
    intro u hu
    obtain rfl : SendState.after _ .shutdown = u := Option.some.inj hu
    refine ⟨?_, fun v hv => ⟨?_, trivial⟩⟩
    · intro _ _ h
      cases h
    · intro _ _ h
      cases h
  rw [hes] at hall
  exact hall.left

/-- The kernel takes one byte of two, and the half close cuts off the other. -/
theorem half_close_truncates :
    ¬ Each SendState.step CleanHalfClose (SendState.init 7 false false)
      [.send true [1, 2] (.ok 1), .shutdown, .runFunctor (.ok 0)] := by
  intro h
  have hq := Quiet.init 7 false false
  have h1 : (SendState.init 7 false false).step (.send true [1, 2] (.ok 1)) = some _ := if_pos rfl
  have h2 : ((SendState.init 7 false false).after (.send true [1, 2] (.ok 1))).step .shutdown =
      some _ := if_pos rfl
  have hq1 := quiet_act hq (.send true [1, 2] (.ok 1))
  have hidle := act_of_no_sendCall (e := .shutdown) hq1 rfl
  obtain ⟨t, h3, hclose, hu, -⟩ := step_shutdownInLoop
    (s := ((SendState.init 7 false false).after (.send true [1, 2] (.ok 1))).after .shutdown)
    hidle.1 (.ok 0) rfl
  have hclean := ((((h _ h1).2 _ h2).2 t h3).1 t h3 hclose).1
  have htakes := (unsent_step_iff hq (Or.inl rfl) rfl h1).mp
    (hidle.2.1.symm.trans (hu.symm.trans hclean))
  rcases htakes [1, 2] (.ok 1) rfl with hdown | hfault | hall
  · cases hdown
  · cases hfault
  · cases hall

end Mymuduo.Net
