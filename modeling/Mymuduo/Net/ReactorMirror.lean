import Mymuduo.Net.ReactorLives

namespace Mymuduo.Net

open Lib

/-! Each connection of a server goes through a run of the model of one connection: what happens on
the others does not show in it. -/

/-- A call on a channel does to the channel what it does with any poller, and keeps its address. -/
theorem ChannelCall.call_channel (k : ChannelCall) (p q : EpollPoller) (ch : Channel) (id : Nat) :
    (k.call q { ch with id := id }).2 = { (k.call p ch).2 with id := id } := by
  have hupdate : ∀ m, (q.updateChannel { ch with id := id, events_ := m }).2 =
      { (p.updateChannel { ch with events_ := m }).2 with id := id } := by
    intro m
    rw [EpollPoller.updateChannel_eq, EpollPoller.updateChannel_eq]
    rfl
  cases k with
  | remove =>
    change (q.removeChannel _).2 = { (p.removeChannel ch).2 with id := id }
    rw [EpollPoller.removeChannel_eq, EpollPoller.removeChannel_eq]
  | _ => exact hupdate _

namespace TcpConnection

/-- The connection with another poller behind its loop and another address of its channel. -/
def moved (c : TcpConnection) (p : EpollPoller) (id : Nat) : TcpConnection :=
  { c with poller_ := p, channel_ := { c.channel_ with id := id } }

/-- `d` is `c`, but for these. -/
def Alike (c d : TcpConnection) : Prop := ∃ p id, d = c.moved p id

namespace Alike

variable {c d c' d' : TcpConnection}

theorem ite {P : Prop} [Decidable P] (h : Alike c d) (h' : Alike c' d') :
    Alike (if P then c else c') (if P then d else d') := by
  split_ifs
  · exact h
  · exact h'

theorem queueInLoop (h : Alike c d) (f : Functor) : Alike (c.queueInLoop f) (d.queueInLoop f) := by
  obtain ⟨p, id, rfl⟩ := h
  exact ⟨p, id, rfl⟩

theorem call (h : Alike c d) (a : Call) : Alike (c.call a) (d.call a) := by
  obtain ⟨p, id, rfl⟩ := h
  exact ⟨p, id, rfl⟩

theorem withState (h : Alike c d) (state : StateE) :
    Alike { c with state_ := state } { d with state_ := state } := by
  obtain ⟨p, id, rfl⟩ := h
  exact ⟨p, id, rfl⟩

theorem state_eq (h : Alike c d) : d.state_ = c.state_ := by
  obtain ⟨p, id, rfl⟩ := h
  rfl

theorem onChannel (h : Alike c d) (k : ChannelCall) :
    Alike (c.onChannel k.call) (d.onChannel k.call) := by
  obtain ⟨p, id, rfl⟩ := h
  refine ⟨((c.moved p id).onChannel k.call).poller_, id, ?_⟩
  have hch := k.call_channel c.poller_ p c.channel_ id
  rw [TcpConnection.onChannel, TcpConnection.onChannel, moved, moved]
  simp only [hch]

theorem notifyWriteComplete (h : Alike c d) :
    Alike c.notifyWriteComplete d.notifyWriteComplete := by
  have hif := (h.queueInLoop .writeCompleteCallback).ite (P := c.writeCompleteCallback_) h
  obtain ⟨p, id, rfl⟩ := h
  exact hif

theorem appendRest (h : Alike c d) (rest : List Byte) :
    Alike (c.appendRest rest) (d.appendRest rest) := by
  have hnote : Alike (c.noteHighWater rest.length) (d.noteHighWater rest.length) := by
    have hif := fun len (P : Prop) [Decidable P] =>
      (h.queueInLoop (.highWaterMarkCallback len)).ite (P := P) h
    obtain ⟨p, id, rfl⟩ := h
    exact hif _ _
  have hbuf : Alike { c.noteHighWater rest.length with
        oututBuffer_ := (c.noteHighWater rest.length).oututBuffer_.append rest }
      { d.noteHighWater rest.length with
        oututBuffer_ := (d.noteHighWater rest.length).oututBuffer_.append rest } := by
    obtain ⟨p, id, hd⟩ := hnote
    rw [hd]
    exact ⟨p, id, rfl⟩
  have hif := fun (P : Prop) [Decidable P] => (hbuf.onChannel .enableWriting).ite (P := P) hbuf
  rw [TcpConnection.appendRest, TcpConnection.appendRest, enableIfWriting, enableIfWriting]
  obtain ⟨p, id, hd⟩ := hbuf
  rw [hd] at hif ⊢
  exact hif _

theorem sendInLoop (h : Alike c d) (data : List Byte) (answer : Except Errno Nat) :
    Alike (c.sendInLoop data answer) (d.sendInLoop data answer) := by
  have hrest := h.appendRest data
  obtain ⟨p, id, rfl⟩ := h
  have hwritten : Alike { c with written := c.written ++ data.take (nwrote answer) }
      { c.moved p id with written := c.written ++ data.take (nwrote answer) } := ⟨p, id, rfl⟩
  have hstate : (c.moved p id).state_ = c.state_ := rfl
  have hdirect : (c.moved p id).writesDirectly = c.writesDirectly := rfl
  by_cases hdown : c.state_ = .kDisConnected
  · rw [TcpConnection.sendInLoop, if_pos hdown, TcpConnection.sendInLoop, if_pos (hstate.trans hdown)]
    exact ⟨p, id, rfl⟩
  · rw [TcpConnection.sendInLoop, if_neg hdown, TcpConnection.sendInLoop,
      if_neg (fun hd => hdown (hstate.symm.trans hd)), hdirect]
    refine Alike.ite ?_ (Alike.ite ⟨p, id, rfl⟩ hrest)
    cases answer with
    | ok n =>
      dsimp only
      split_ifs
      · exact hwritten.notifyWriteComplete
      · exact hwritten.appendRest _
    | error e =>
      dsimp only
      split_ifs
      · exact hwritten
      · exact hwritten.appendRest _

theorem shutdownInLoop (h : Alike c d) : Alike c.shutdownInLoop d.shutdownInLoop := by
  have hif := fun (P : Prop) [Decidable P] => (h.call .shutdownWrite).ite (P := P) h
  obtain ⟨p, id, rfl⟩ := h
  exact hif _

theorem userCall (h : Alike c d) (a : UserCall) : Alike (c.userCall a) (d.userCall a) := by
  cases a with
  | send data answer =>
    rw [TcpConnection.userCall, TcpConnection.userCall, send, send, h.state_eq]
    exact ((h.sendInLoop data answer).ite (h.queueInLoop _)).ite h
  | shutdown =>
    rw [TcpConnection.userCall, TcpConnection.userCall, shutdown, shutdown, h.state_eq]
    exact ((h.withState _).queueInLoop _).ite h

theorem messageCallback (h : Alike c d) (calls : List UserCall) :
    Alike (c.messageCallback calls) (d.messageCallback calls) := by
  induction calls generalizing c d with
  | nil => exact h
  | cons a calls ih => exact ih (h.userCall a)

theorem handleWrite (h : Alike c d) (answer : Except Errno Nat) :
    Alike (c.handleWrite answer) (d.handleWrite answer) := by
  have hwrote : Alike (c.wroteBuffered (nwrote answer)) (d.wroteBuffered (nwrote answer)) := by
    obtain ⟨p, id, rfl⟩ := h
    exact ⟨p, id, rfl⟩
  have hdrained : Alike (c.wroteBuffered (nwrote answer)).drained
      (d.wroteBuffered (nwrote answer)).drained := by
    have hdisabled := (hwrote.onChannel .disableWriting).notifyWriteComplete
    rw [drained, drained, shutdownIfDisConnecting, shutdownIfDisConnecting]
    have hstate : ((d.wroteBuffered (nwrote answer)).onChannel
        Channel.disableWriting).notifyWriteComplete.state_ = _ := hdisabled.state_eq
    rw [hstate]
    exact hdisabled.shutdownInLoop.ite hdisabled
  have hif := fun (P Q R : Prop) [Decidable P] [Decidable Q] [Decidable R] =>
    ((hdrained.ite (P := R) hwrote).ite (P := Q) h).ite (P := P) h
  obtain ⟨p, id, rfl⟩ := h
  exact hif _ _ _

theorem connectEstablished (h : Alike c d) : Alike c.connectEstablished d.connectEstablished :=
  ((h.withState .kConnected).onChannel .enableReading).call (.connectionCallback true)

theorem handleClose (h : Alike c d) : Alike c.handleClose d.handleClose :=
  (((h.withState .kDisConnected).onChannel .disableAll).call (.connectionCallback false)).call
    .closeCallback

theorem connectDestroyed (h : Alike c d) : Alike c.connectDestroyed d.connectDestroyed := by
  have hdown := ((h.withState .kDisConnected).onChannel .disableAll).call (.connectionCallback false)
  have hif := fun (P : Prop) [Decidable P] =>
    ((hdown.ite (P := P) h).onChannel .remove).call .channelRemoved
  obtain ⟨p, id, rfl⟩ := h
  exact hif _

theorem runFunctor (h : Alike c d) (answer : Except Errno Nat) (f : Functor) :
    Alike (c.runFunctor answer f) (d.runFunctor answer f) := by
  cases f with
  | sendInLoop message => exact h.sendInLoop message answer
  | shutdownInLoop => exact h.shutdownInLoop
  | writeCompleteCallback => exact h
  | highWaterMarkCallback n => exact h
  | connectEstablished => exact h.connectEstablished
  | connectDestroyed => exact h.connectDestroyed

end Alike

variable {c : TcpConnection}

theorem Registered.connectEstablished (h : c.Registered) : c.connectEstablished.Registered :=
  (ChannelCall.call_spec h .enableReading).registered

theorem Registered.handleClose (h : c.Registered) : c.handleClose.Registered :=
  (ChannelCall.call_spec h .disableAll).registered

theorem Registered.connectDestroyed (h : c.Registered) : c.connectDestroyed.Registered := by
  rw [TcpConnection.connectDestroyed]
  split_ifs
  · have hdown : Registered (TcpConnection.onChannel { c with state_ := .kDisConnected }
        Channel.disableAll) := (ChannelCall.call_spec h .disableAll).registered
    exact (ChannelCall.call_spec hdown .remove).registered
  · exact (ChannelCall.call_spec h .remove).registered

theorem Registered.runFunctor (h : c.Registered) (answer : Except Errno Nat) (f : Functor) :
    (c.runFunctor answer f).Registered := by
  cases f with
  | sendInLoop message => exact (sendInLoop_acts h message answer).registered
  | shutdownInLoop => exact (shutdownInLoop_acts h).registered
  | writeCompleteCallback => exact h
  | highWaterMarkCallback n => exact h
  | connectEstablished => exact h.connectEstablished
  | connectDestroyed => exact h.connectDestroyed

end TcpConnection

namespace TcpServer

variable {m n t : TcpServer}

theorem registered_handleClose (h : m.conn.Registered) : m.handleClose.conn.Registered := by
  rw [TcpServer.handleClose, removeConnection]
  split_ifs
  · exact h.handleClose
  · exact h.handleClose

theorem registered_handleEvent (h : m.conn.Registered) (e : ChannelEvent) :
    (m.handleEventWithGuard e).conn.Registered := by
  have hclose : (closeBranch e m).conn.Registered := by
    rw [closeBranch]
    split_ifs
    · exact registered_handleClose h
    · exact h
  have hread : (readBranch e (closeBranch e m)).conn.Registered := by
    rw [readBranch, TcpServer.handleRead]
    split_ifs
    · cases e.readResult with
      | bytes data =>
        have hbuf : TcpConnection.Registered { (closeBranch e m).conn with
            inputBuffer_ := (closeBranch e m).conn.inputBuffer_.append data } := hclose
        exact (TcpConnection.messageCallback_acts hbuf e.onMessage).registered
      | eof => exact registered_handleClose hclose
      | error savedErrno => exact hclose
    · exact hclose
  rw [handleEventWithGuard, writeBranch]
  split_ifs
  · exact (TcpConnection.handleWrite_acts hread e.answer).registered
  · exact hread

/-- The poller of a connection's loop has its channel as the channel says, at every step. -/
theorem registered_step (h : m.conn.Registered) {e : ServerEvent} (ht : m.step e = some t) :
    t.conn.Registered := by
  cases e with
  | runFunctor answer =>
    simp only [TcpServer.step] at ht
    split at ht
    next => cases ht
    next f fs hf =>
      obtain rfl := Option.some.inj ht
      have htaken : TcpConnection.Registered { m.conn with pendingFuntors_ := fs } := h
      exact htaken.runFunctor answer f
  | channel e =>
    simp only [TcpServer.step] at ht
    split_ifs at ht
    obtain rfl := Option.some.inj ht
    exact registered_handleEvent h e
  | send inLoopThread data answer =>
    obtain rfl := Option.some.inj ht
    rw [onConn, TcpConnection.send]
    split_ifs
    · exact (TcpConnection.sendInLoop_acts h data answer).registered
    · exact h
    · exact h
  | shutdown =>
    obtain rfl := Option.some.inj ht
    exact (TcpConnection.shutdown_acts h).registered
  | baseLoop =>
    simp only [TcpServer.step] at ht
    split_ifs at ht
    obtain rfl := Option.some.inj ht
    exact h
  | destroy =>
    simp only [TcpServer.step] at ht
    split_ifs at ht
    obtain rfl := Option.some.inj ht
    rw [destroy]
    split_ifs
    · exact h.connectDestroyed
    · exact h
    · exact h

theorem registered_run {fd : Nat} {writeComplete highWater : Bool} {es : List ServerEvent}
    (hr : run TcpServer.step (newConnection fd writeComplete highWater true) es = some m) :
    m.conn.Registered := by
  have hnew : (TcpConnection.new fd writeComplete highWater).Registered := ⟨rfl, rfl⟩
  have hall : Always TcpServer.step (fun m => m.conn.Registered)
      (newConnection fd writeComplete highWater true) es :=
    always_of_step (fun _ _ _ h ht => registered_step h ht) hnew.connectEstablished es
  exact hall.last hr

/-- `n` is `m`, but for the poller behind its loop and the address of its channel. -/
def Mirrors (m n : TcpServer) : Prop := ∃ d, m.conn.Alike d ∧ n = { m with conn := d }

namespace Mirrors

theorem conn (h : Mirrors m n) : m.conn.Alike n.conn := by
  obtain ⟨d, hd, rfl⟩ := h
  exact hd

theorem onConn (h : Mirrors m n) {f : TcpConnection → TcpConnection}
    (hf : (f m.conn).Alike (f n.conn)) : Mirrors (m.onConn f) (n.onConn f) := by
  obtain ⟨d, hd, rfl⟩ := h
  exact ⟨f d, hf, rfl⟩

theorem removeConnection (h : Mirrors m n) : Mirrors m.removeConnection n.removeConnection := by
  obtain ⟨d, hd, rfl⟩ := h
  by_cases hloop : m.sameLoop = true
  · have hm : m.removeConnection = m.removeConnectionInLoop := if_pos hloop
    have hn : TcpServer.removeConnection { m with conn := d } =
        TcpServer.removeConnectionInLoop { m with conn := d } := if_pos hloop
    rw [hm, hn]
    exact ⟨_, hd.queueInLoop .connectDestroyed, rfl⟩
  · have hm : m.removeConnection = { m with removals := m.removals + 1 } := if_neg hloop
    have hn : TcpServer.removeConnection { m with conn := d } =
        { m with conn := d, removals := m.removals + 1 } := if_neg hloop
    rw [hm, hn]
    exact ⟨d, hd, rfl⟩

theorem handleClose (h : Mirrors m n) : Mirrors m.handleClose n.handleClose :=
  (h.onConn h.conn.handleClose).removeConnection

theorem handleRead (h : Mirrors m n) (e : ChannelEvent) :
    Mirrors (m.handleRead e) (n.handleRead e) := by
  rw [TcpServer.handleRead, TcpServer.handleRead]
  cases e.readResult with
  | bytes data =>
    apply h.onConn
    apply TcpConnection.Alike.messageCallback
    obtain ⟨p, id, hd⟩ := h.conn
    rw [hd]
    exact ⟨p, id, rfl⟩
  | eof => exact h.handleClose
  | error savedErrno => exact h

theorem handleEvent (h : Mirrors m n) (e : ChannelEvent) :
    Mirrors (m.handleEventWithGuard e) (n.handleEventWithGuard e) := by
  have hclose : Mirrors (closeBranch e m) (closeBranch e n) := by
    rw [closeBranch, closeBranch]
    split_ifs
    · exact h.handleClose
    · exact h
  have hread : Mirrors (readBranch e (closeBranch e m)) (readBranch e (closeBranch e n)) := by
    rw [readBranch, readBranch]
    split_ifs
    · exact hclose.handleRead e
    · exact hclose
  rw [handleEventWithGuard, handleEventWithGuard, writeBranch, writeBranch]
  split_ifs
  · exact hread.onConn (hread.conn.handleWrite e.answer)
  · exact hread

end Mirrors

/-- The step that a call of user code is. -/
def userEvent : UserCall → ServerEvent
  | .send data answer => .send true data answer
  | .shutdown => .shutdown

theorem step_userEvent (m : TcpServer) (a : UserCall) :
    m.step (userEvent a) = some (m.onConn fun c => c.userCall a) := by
  cases a <;> rfl

theorem run_userEvents (m : TcpServer) (calls : List UserCall) :
    run TcpServer.step m (calls.map userEvent) =
      some (m.onConn fun c => c.messageCallback calls) := by
  induction calls generalizing m with
  | nil => rfl
  | cons a calls ih =>
    rw [List.map_cons, run, step_userEvent, Option.bind_some, ih]
    rfl

end TcpServer

namespace Reactor

variable {o : ServerOptions} {s t : Reactor} {id fd : Nat} {m n : TcpServer}

/-- The run of one connection on its own with these events leaves it like this. -/
def Reached (o : ServerOptions) (fd : Nat) (es : List ServerEvent) (n : TcpServer) : Prop :=
  ∃ m, run TcpServer.step (TcpServer.newConnection fd o.writeCompleteCallback_
    o.highWaterMarkCallback_ true) es = some m ∧ m.Mirrors n

namespace Reached

variable {es : List ServerEvent}

/-- The run goes on. -/
theorem extend {n' : TcpServer} {es' : List ServerEvent} (h : Reached o fd es n)
    (hgo : ∀ m, m.Mirrors n → m.conn.Registered →
      ∃ m', run TcpServer.step m es' = some m' ∧ m'.Mirrors n') : Reached o fd (es ++ es') n' := by
  obtain ⟨m, hr, hm⟩ := h
  obtain ⟨m', hr', hm'⟩ := hgo m hm (TcpServer.registered_run hr)
  refine ⟨m', ?_, hm'⟩
  rw [run_append, hr]
  exact hr'

/-- Code on another connection changes the poller. -/
theorem poller (h : Reached o fd es n) (p : EpollPoller) :
    Reached o fd es { n with conn := { n.conn with poller_ := p } } := by
  obtain ⟨m, hr, d, ⟨q, id, hd⟩, hn⟩ := h
  refine ⟨m, hr, m.conn.moved p id, ⟨p, id, rfl⟩, ?_⟩
  rw [hn, hd]
  rfl

theorem calls (h : Reached o fd es n) (calls : List UserCall) :
    Reached o fd (es ++ calls.map TcpServer.userEvent)
      (n.onConn fun c => c.messageCallback calls) := by
  apply h.extend
  intro m hm _
  exact ⟨_, TcpServer.run_userEvents m calls, hm.onConn (hm.conn.messageCallback calls)⟩

/-- The loop reports the channel only while it is added. -/
theorem handleEvent (h : Reached o fd es n) (hadded : n.conn.channel_.index_ = .kAdded)
    (e : ChannelEvent) : Reached o fd (es ++ [.channel e]) (n.handleEventWithGuard e) := by
  apply h.extend
  intro m hm hreg
  have hindex : m.conn.channel_.index_ = .kAdded := by
    obtain ⟨p, id, hd⟩ := hm.conn
    rw [hd] at hadded
    exact hadded
  have hregistered : m.registered = true := by
    rw [TcpServer.registered, hreg.interest, if_pos hindex]
    rfl
  refine ⟨m.handleEventWithGuard e, ?_, hm.handleEvent e⟩
  rw [run, TcpServer.step, if_pos hregistered]
  rfl

theorem runFunctor (h : Reached o fd es n) {f : Functor} {fs : List Functor}
    (hf : n.conn.pendingFuntors_ = f :: fs) (answer : Except Errno Nat) :
    Reached o fd (es ++ [.runFunctor answer]) (n.onConn fun c =>
      TcpConnection.runFunctor { c with pendingFuntors_ := fs } answer f) := by
  apply h.extend
  intro m hm _
  have halike : TcpConnection.Alike { m.conn with pendingFuntors_ := fs }
      { n.conn with pendingFuntors_ := fs } := by
    obtain ⟨p, id, hd⟩ := hm.conn
    rw [hd]
    exact ⟨p, id, rfl⟩
  have hpending : m.conn.pendingFuntors_ = f :: fs := by
    obtain ⟨p, id, hd⟩ := hm.conn
    rw [hd] at hf
    exact hf
  refine ⟨_, ?_, hm.onConn (halike.runFunctor answer f)⟩
  rw [run, TcpServer.step, hpending]
  rfl

end Reached

/-- Events of one connection, and none of the others. -/
def onlyOf (id : Nat) (es : List ServerEvent) (j : Nat) : List ServerEvent :=
  if j = id then es else []

/-- The events in `handleEvemt` of a channel: the acceptor's is for the connection it accepts. -/
def channelEvents (s : Reactor) (id : Nat) (accepted : Option Nat) (onConnection : List UserCall)
    (e : ChannelEvent) : Nat → List ServerEvent :=
  if id = 0 then
    if TcpServer.reads e then
      match accepted with
      | some _ => onlyOf s.nextConnId_ (onConnection.map TcpServer.userEvent)
      | none => fun _ => []
    else fun _ => []
  else onlyOf id [.channel e]

/-- What a step is for each of the connections. -/
def eventsOf (s : Reactor) (a : ReactorAction) : Nat → List ServerEvent :=
  match a, s.phase with
  | .handleEvent accepted onConnection readResult onMessage answer,
    .handling ((id, revents) :: _) =>
    channelEvents s id accepted onConnection ⟨revents, readResult, onMessage, answer⟩
  | .runFunctor answer, .calling _ ((id, _) :: _) => onlyOf id [.runFunctor answer]
  | .call id c, _ => onlyOf id [TcpServer.userEvent c]
  | _, _ => fun _ => []

/-- The events of one connection in a run. -/
def events (o : ServerOptions) (id : Nat) : Reactor → List ReactorAction → List ServerEvent
  | _, [] => []
  | s, a :: as => eventsOf s a id ++ (step o s a).elim [] fun t => events o id t as

/-- What each connection of the server is, those that have ended included, after the events it has
had. -/
structure Followed (o : ServerOptions) (s : Reactor) (es : Nat → List ServerEvent) : Prop where
  reached : ∀ id, 1 ≤ id → id < s.nextConnId_ → Reached o (s.fd id) (es id) (s.view id)
  unborn : ∀ id, s.nextConnId_ ≤ id → es id = []

/-- Channels that are still to be handled are added, and each is there once. -/
structure Polled (s : Reactor) : Prop where
  active : ∀ a ∈ s.phase.activeChannels_, a.1 = 0 ∨ (s.conn a.1).channel_.index_ = .kAdded
  once : (s.phase.activeChannels_.map (·.1)).Nodup

section Follow

variable {es : Nat → List ServerEvent}

theorem Followed.quiet (hf : Followed o s es) : Followed o s fun j => es j ++ [] := by
  simpa only [List.append_nil] using hf

theorem Followed.put
    (hf : ∀ j, 1 ≤ j → j < s.nextConnId_ → j ≠ id → Reached o (s.fd j) (es j) (s.view j))
    (hunborn : ∀ j, s.nextConnId_ ≤ j → es j = []) (h : Core o s)
    (hsmall : s.nextConnId_ ≤ 2 ^ 31) (hid : id ∈ s.alive) (hsteps : (s.view id).Steps m)
    (hhome : m.Home) {new : List ServerEvent} (hm : Reached o (s.fd id) (es id ++ new) m) :
    Followed o (Reactor.put o s id m) fun j => es j ++ onlyOf id new j := by
  constructor
  · intro j hj hlt
    rw [fd_put hsteps, onlyOf]
    split_ifs with hji
    · rw [hji, h.view_put hsmall hid hsteps hhome]
      exact hm
    · rw [h.view_put_other hsmall hid hsteps hji, List.append_nil]
      exact (hf j hj hlt hji).poller m.conn.poller_
  · intro j hle
    have hlt := (h.numbers id hid).2
    have hge : s.nextConnId_ ≤ j := hle
    have hne : j ≠ id := by omega
    rw [hunborn j hge, onlyOf, if_neg hne]
    rfl

theorem Followed.reap (hf : Followed o s es) (h : Good o s) : Followed o s.reap es := by
  refine ⟨?_, hf.unborn⟩
  intro id hpos hlt
  have hview : s.reap.view id = s.view id := by
    rw [view, h.reap_poller]
    rfl
  rw [hview]
  exact hf.reached id hpos hlt

/-- The loop goes on with the queue as it is. -/
theorem Followed.rephase (hf : Followed o s es) {phase : LoopPhase} {pending : List (Nat × Functor)}
    (hq : phase.left ++ pending = s.queue) :
    Followed o { s with phase := phase, pendingFuntors_ := pending } es := by
  refine ⟨?_, hf.unborn⟩
  intro id hpos hlt
  have hold := hf.reached id hpos hlt
  rw [view, ← hq] at hold
  exact hold

/-- A new connection is where a run of one connection starts. -/
theorem Good.reached_new (h : Good o s) (hsmall : s.nextConnId_ < 2 ^ 31) (fd : Nat)
    (onConnection : List UserCall) :
    Reached o fd (onConnection.map TcpServer.userEvent)
      (((Reactor.create o s fd).view s.nextConnId_).onConn fun c =>
        c.connectEstablished.messageCallback onConnection) := by
  have halike : (TcpConnection.new fd o.writeCompleteCallback_ o.highWaterMarkCallback_).Alike
      ((Reactor.create o s fd).view s.nextConnId_).conn := by
    refine ⟨s.poller_, s.nextConnId_, ?_⟩
    have hself : (Reactor.create o s fd).conn s.nextConnId_ = { TcpConnection.new fd
        o.writeCompleteCallback_ o.highWaterMarkCallback_ with
          channel_ := Channel.new s.nextConnId_ fd } := Function.update_self _ _ _
    have hnone : own s.nextConnId_ (Reactor.create o s fd).queue = [] := h.own_new
    simp only [view, hself, hnone]
    rfl
  have hstart : Reached o fd [] (((Reactor.create o s fd).view s.nextConnId_).onConn
      TcpConnection.connectEstablished) := by
    refine ⟨_, rfl, _, halike.connectEstablished, ?_⟩
    rw [TcpServer.onConn, view, h.listed_new hsmall fd]
    rfl
  exact hstart.calls onConnection

theorem Followed.newConnection (hf : Followed o s es) (h : Good o s)
    (hsmall : s.nextConnId_ < 2 ^ 31) (hfree : s.freeFd o fd = true)
    (onConnection : List UserCall) :
    Followed o (newConnection o s fd onConnection) fun j =>
      es j ++ onlyOf s.nextConnId_ (onConnection.map TcpServer.userEvent) j := by
  have hself : (create o s fd).fd s.nextConnId_ = fd := by
    simp [Reactor.fd, create, Channel.new]
  refine Followed.put ?_ ?_ (h.create hsmall hfree) hsmall List.mem_cons_self
    (h.steps_new hsmall hfree onConnection) ⟨rfl, rfl, rfl⟩ ?_
  · intro j hj hlt hne
    have hold : j < s.nextConnId_ := by
      have hle : j < s.nextConnId_ + 1 := hlt
      omega
    rw [h.view_create hsmall fd hne, Reactor.fd, (h.create_other hsmall fd hne).1]
    exact hf.reached j hj hold
  · intro j hle
    exact hf.unborn j (Nat.le_of_succ_le hle)
  · rw [hself, hf.unborn s.nextConnId_ le_rfl]
    exact h.reached_new hsmall fd onConnection

theorem Followed.handleEvent (hf : Followed o s es) (hpolled : s.Polled) (h : Good o s)
    (hsmall : s.nextConnId_ < 2 ^ 31) {revents : Mask} {rest : List (Nat × Mask)}
    (hphase : s.phase = .handling ((id, revents) :: rest)) {accepted : Option Nat}
    (hfree : accepted.all (s.freeFd o) = true) (onConnection : List UserCall) (e : ChannelEvent) :
    Followed o
      (Reactor.handleEvent o { s with phase := .handling rest } id accepted onConnection e)
      fun j => es j ++ channelEvents s id accepted onConnection e j := by
  have hgood := h.handled hphase
  have hrest : Followed o { s with phase := .handling rest } es := by
    apply hf.rephase
    rw [queue, hphase]
    rfl
  have hactive := hpolled.active
  have hobjects := h.active
  rw [hphase] at hactive hobjects
  rw [Reactor.handleEvent]
  unfold channelEvents
  by_cases hzero : id = 0
  · rw [if_pos hzero, if_pos hzero]
    split_ifs
    · cases accepted with
      | none => exact hrest.quiet
      | some fd => exact hrest.newConnection hgood hsmall hfree onConnection
    · exact hrest.quiet
  · have hid : id ∈ s.alive := by
      rcases (hobjects (id, revents) List.mem_cons_self).resolve_left hzero with hl | hd
      · exact h.listed_alive hl
      · exact h.queued_alive (List.mem_append_right _ hd)
    have hadded := (hactive (id, revents) List.mem_cons_self).resolve_left hzero
    obtain ⟨hpos, hlt⟩ := h.numbers id hid
    rw [if_neg hzero, if_neg hzero, if_pos (List.contains_iff_mem.mpr hid)]
    exact Followed.put (fun j hj hlt _ => hrest.reached j hj hlt) hf.unborn hgood.toCore hsmall.le hid
      ((hgood.staged id hid).handleEvent (hgood.registered id hid) rfl e)
      ((view_home _ id).handleEvent e) ((hrest.reached id hpos hlt).handleEvent hadded e)

theorem Followed.runFunctor (hf : Followed o s es) (h : Good o s) (hsmall : s.nextConnId_ ≤ 2 ^ 31)
    {f : Functor} {functors rest : List (Nat × Functor)}
    (hphase : s.phase = .calling functors ((id, f) :: rest)) (answer : Except Errno Nat) :
    Followed o (Reactor.runFunctor o { s with phase := .calling functors rest } id f answer)
      fun j => es j ++ onlyOf id [.runFunctor answer] j := by
  have hqueue : s.queue = (id, f) :: (rest ++ s.pendingFuntors_) := by
    rw [queue, hphase]
    rfl
  have hid : id ∈ s.alive := h.queued_alive (hqueue ▸ List.mem_cons_self)
  obtain ⟨hcore, hsteps⟩ := h.called hphase answer
  obtain ⟨hpos, hlt⟩ := h.numbers id hid
  have hown : own id s.queue = f :: own id (rest ++ s.pendingFuntors_) := by
    rw [hqueue, own_cons, if_pos rfl]
  rw [Reactor.runFunctor, if_pos (List.contains_iff_mem.mpr hid)]
  refine Followed.put (s := { s with phase := .calling functors rest }) ?_ hf.unborn hcore hsmall hid
    hsteps ((view_home _ id).onConn _) ((hf.reached id hpos hlt).runFunctor hown answer)
  intro j hj hlt hne
  have hold := hf.reached j hj hlt
  have hskip : own j s.queue = own j (rest ++ s.pendingFuntors_) := by
    rw [hqueue, own_cons, if_neg hne.symm]
  rw [view, hskip] at hold
  exact hold

end Follow

/-- A call of user code leaves an added channel added. -/
theorem Good.added_call (h : Good o s) (hid : id ∈ s.alive) (c : UserCall)
    (hadded : (s.conn id).channel_.index_ = .kAdded) :
    ((s.view id).conn.userCall c).channel_.index_ = .kAdded := by
  have hreg : (s.view id).conn.Registered := h.registered id hid
  have hacts := TcpConnection.userCall_acts hreg c
  rcases h.staged id hid with ⟨-, -, hwatch⟩ | ⟨-, -, hquiet⟩
  · exact (hacts.watching hwatch).index
  · rw [hacts.quiet hquiet]
    exact hadded

/-- An event of one channel is nothing to the channels behind it. -/
theorem Polled.handleEvent (hpolled : s.Polled) (h : Good o s) {revents : Mask}
    {rest : List (Nat × Mask)} (hphase : s.phase = .handling ((id, revents) :: rest))
    (accepted : Option Nat) (onConnection : List UserCall) (e : ChannelEvent) :
    (Reactor.handleEvent o { s with phase := .handling rest } id accepted onConnection e).Polled := by
  obtain ⟨hactive, honce⟩ := hpolled
  have hobjects := h.active
  rw [hphase] at hactive honce hobjects
  obtain ⟨hnot, honce⟩ := List.nodup_cons.mp honce
  -- the other channels' objects are there already, and are not this one
  have hother : ∀ a ∈ rest, a.1 ≠ 0 → a.1 ≠ id ∧ a.1 ≠ s.nextConnId_ := by
    intro a ha hne
    constructor
    · intro hid
      exact hnot (List.mem_map.mpr ⟨a, ha, hid⟩)
    · have halive : a.1 ∈ s.alive := by
        rcases (hobjects a (List.mem_cons_of_mem _ ha)).resolve_left hne with hl | hd
        · exact h.listed_alive hl
        · exact h.queued_alive (List.mem_append_right _ hd)
      exact (h.numbers a.1 halive).2.ne
  have hkept : ∀ u : Reactor, u.phase = .handling rest →
      (∀ j, j ≠ id → j ≠ s.nextConnId_ → u.conn j = s.conn j) → u.Polled := by
    intro u hu hconn
    refine ⟨?_, ?_⟩
    · intro a ha
      rw [hu] at ha
      by_cases hzero : a.1 = 0
      · exact Or.inl hzero
      · obtain ⟨hid, hnew⟩ := hother a ha hzero
        rw [hconn a.1 hid hnew]
        exact hactive a (List.mem_cons_of_mem _ ha)
    · rw [hu]
      exact honce
  rw [Reactor.handleEvent]
  split_ifs
  · cases accepted with
    | none => exact hkept _ rfl fun _ _ _ => rfl
    | some fd =>
      refine hkept _ rfl ?_
      intro j _ hnew
      exact (conn_put_other hnew).trans (Function.update_of_ne hnew _ _)
  · exact hkept _ rfl fun _ _ _ => rfl
  · exact hkept _ rfl fun j hid _ => conn_put_other hid
  · exact hkept _ rfl fun _ _ _ => rfl

theorem Polled.step (hpolled : s.Polled) (h : Good o s) {a : ReactorAction}
    (ht : step o s a = some t) : t.Polled := by
  have hidle : ∀ u : Reactor, u.phase.activeChannels_ = [] → u.Polled := by
    intro u hu
    refine ⟨?_, ?_⟩
    · rw [hu]
      exact fun _ ha => absurd ha List.not_mem_nil
    · rw [hu]
      exact List.nodup_nil
  cases step_moves o ht with
  | poll hphase hready =>
    refine ⟨?_, h.once_reported hready⟩
    intro a ha
    obtain ⟨r, -, hr⟩ := List.mem_filterMap.mp ha
    exact (h.reported hr).imp (fun hzero => hzero.1) fun hadded => hadded.2.2
  | handleEvent hphase _ => exact ⟨(hpolled.handleEvent h hphase _ _ _).active,
      (hpolled.handleEvent h hphase _ _ _).once⟩
  | runFunctor hphase =>
    apply hidle
    change (Reactor.runFunctor o _ _ _ _).phase.activeChannels_ = []
    rw [Reactor.runFunctor]
    split_ifs <;> rfl
  | batch hphase => exact hidle _ rfl
  | batchEnd hphase => exact hidle _ rfl
  | keep _ => exact ⟨hpolled.active, hpolled.once⟩
  | release => exact ⟨hpolled.active, hpolled.once⟩
  | @call id c hu =>
    refine ⟨?_, hpolled.once⟩
    intro a ha
    refine (hpolled.active a ha).imp_right ?_
    intro hadded
    by_cases hid : a.1 = id
    · have hself : (reap (put o s id ((s.view id).onConn fun m => m.userCall c))).conn a.1 =
          (s.view id).conn.userCall c := by
        rw [hid]
        exact conn_put_self (o := o)
      rw [hself]
      exact h.added_call (h.users_alive hu) c (hid ▸ hadded)
    · have hother : (reap (put o s id ((s.view id).onConn fun m => m.userCall c))).conn a.1 =
          s.conn a.1 := conn_put_other (o := o) hid
      rw [hother]
      exact hadded

/-- One step is the events of it. -/
theorem Followed.step {es : Nat → List ServerEvent} (hf : Followed o s es) (hpolled : s.Polled)
    (h : Good o s) (hsmall : s.nextConnId_ < 2 ^ 31) {a : ReactorAction}
    (ht : step o s a = some t) : Followed o t fun j => es j ++ eventsOf s a j := by
  cases step_moves o ht with
  | poll hphase _ =>
    refine ⟨(hf.quiet.rephase ?_).reached, hf.quiet.unborn⟩
    rw [queue, hphase]
    rfl
  | handleEvent hphase hfree =>
    simp only [eventsOf, hphase]
    exact (hf.handleEvent hpolled h hsmall hphase hfree _ _).reap
      (h.handleEvent hsmall hphase hfree _ _)
  | runFunctor hphase =>
    simp only [eventsOf, hphase]
    exact (hf.runFunctor h hsmall.le hphase _).reap (h.runFunctor hsmall.le hphase _)
  | batch hphase =>
    apply hf.quiet.rephase
    rw [queue, hphase]
    exact List.append_nil _
  | batchEnd hphase =>
    refine Followed.reap (hf.quiet.rephase ?_) (h.batchEnd hphase)
    rw [queue, hphase]
    rfl
  | keep _ => exact ⟨hf.quiet.reached, hf.quiet.unborn⟩
  | @release id =>
    have hgood : Good o { s with users := s.users.erase id } :=
      h.hold fun j hj => h.users_alive (List.mem_of_mem_erase hj)
    have hheld : Followed o { s with users := s.users.erase id } fun j => es j ++ [] :=
      ⟨hf.quiet.reached, hf.quiet.unborn⟩
    exact hheld.reap hgood
  | @call id c hu =>
    have hid := h.users_alive hu
    have hreg : (s.view id).conn.Registered := h.registered id hid
    have hsteps := (h.staged id hid).acts (TcpConnection.userCall_acts hreg c)
    obtain ⟨hpos, hlt⟩ := h.numbers id hid
    refine Followed.reap ?_ (h.put hsmall.le hid hsteps)
    exact Followed.put (fun j hj hlt _ => hf.reached j hj hlt) hf.unborn h.toCore hsmall.le hid hsteps
      ((view_home s id).onConn fun m => m.userCall c) ((hf.reached id hpos hlt).calls [c])

theorem followed_run {es : Nat → List ServerEvent} (hf : Followed o s es) (hpolled : s.Polled)
    (h : Good o s) {as : List ReactorAction}
    (hsmall : Always (step o) (fun s => s.nextConnId_ < 2 ^ 31) s as)
    (hr : run (step o) s as = some t) : Followed o t fun j => es j ++ events o j s as := by
  induction as generalizing s es with
  | nil =>
    obtain rfl := Option.some.inj hr
    exact hf.quiet
  | cons a as ih =>
    obtain ⟨u, hu, hr⟩ := Option.bind_eq_some_iff.mp hr
    obtain ⟨hlt, hsmall⟩ := hsmall
    have hnext := ih (hf.step hpolled h hlt hu) (hpolled.step h hu) (h.step hlt hu) (hsmall u hu) hr
    simp only [events, hu, Option.elim_some, ← List.append_assoc]
    exact hnext

/-- What a server does with each of its connections is the run of that connection on its own with
its own events: what happens on the others does not show in it. -/
theorem connection_run (o : ServerOptions) {as : List ReactorAction}
    (hsmall : Always (step o) (fun s => s.nextConnId_ < 2 ^ 31) (init o) as)
    (hr : run (step o) (init o) as = some s) (hpos : 1 ≤ id) (hlt : id < s.nextConnId_) :
    ∃ m, run TcpServer.step (TcpServer.newConnection (s.fd id) o.writeCompleteCallback_
      o.highWaterMarkCallback_ true) (events o id (init o) as) = some m ∧ m.Mirrors (s.view id) := by
  have hfollowed : Followed o (init o) fun _ => [] := by
    refine ⟨?_, fun _ _ => rfl⟩
    intro id hpos hlt
    have hone : id < 1 := hlt
    omega
  have hpolled : (init o).Polled := ⟨fun _ ha => absurd ha List.not_mem_nil, List.nodup_nil⟩
  exact (followed_run hfollowed hpolled (.init o) hsmall hr).reached id hpos hlt

/-- The first client asks and is answered while the second comes in. -/
theorem connection_run_oneSession : ∃ s, run (step localOptions) (init localOptions) oneSession =
    some s ∧ ∃ m, run TcpServer.step (TcpServer.newConnection (s.fd 1) true false true)
      (events localOptions 1 (init localOptions) oneSession) = some m ∧ m.Mirrors (s.view 1) := by
  have hrun : ((run (step localOptions) (init localOptions) oneSession).any fun s =>
      decide (1 < s.nextConnId_)) = true := by decide +kernel
  obtain ⟨s, hs, hlt⟩ := (Option.any_eq_true _ _).mp hrun
  exact ⟨s, hs, connection_run localOptions (by decide +kernel) hs le_rfl (of_decide_eq_true hlt)⟩

end Reactor

end Mymuduo.Net
