import Mymuduo.Net.Reactor

namespace Mymuduo.Net

open Lib

namespace EpollPoller.CallSpec

variable {p : EpollPoller} {ch : Channel}

theorem refl (h : p.Registered ch ch.events_) : p.CallSpec ch (p, ch) :=
  ⟨h, rfl, rfl, fun _ _ => rfl, fun _ _ => rfl⟩

theorem trans {r r' : EpollPoller × Channel} (h : p.CallSpec ch r) (h' : r.1.CallSpec r.2 r') :
    p.CallSpec ch r' := by
  refine ⟨h'.registered, h'.fd_.trans h.fd_, h'.fatal.trans h.fatal, ?_, ?_⟩
  · intro fd hfd
    rw [h'.interest fd (h.fd_.symm ▸ hfd), h.interest fd hfd]
  · intro fd hfd
    rw [h'.channels fd (h.fd_.symm ▸ hfd), h.channels fd hfd]

end EpollPoller.CallSpec

theorem ChannelCall.call_id (c : ChannelCall) (p : EpollPoller) (ch : Channel) :
    (c.call p ch).2.id = ch.id := by
  have hupdate : ∀ m, (p.updateChannel { ch with events_ := m }).2.id = ch.id := by
    intro m
    rw [EpollPoller.updateChannel_eq]
  cases c with
  | remove =>
    rw [call, Channel.remove, EpollPoller.removeChannel_eq]
  | _ => exact hupdate _

namespace TcpConnection

/-- The connection's channel is registered as the channel says. -/
def Registered (c : TcpConnection) : Prop := c.poller_.Registered c.channel_ c.channel_.events_

/-- How `d` may differ from `c` after code that does not close the connection: its channel is
registered as it then is, and a functor with `this` is queued only for a connection that is up. -/
structure Acts (c d : TcpConnection) : Prop where
  id : d.channel_.id = c.channel_.id
  spec : c.poller_.CallSpec c.channel_ (d.poller_, d.channel_)
  state : d.state_ = c.state_ ∨ c.state_ = .kConnected ∧ d.state_ = .kDisConnecting
  quiet : c.channel_.isWriting = false → d.channel_ = c.channel_
  watching : Watching c.poller_ c.channel_ → Watching d.poller_ d.channel_
  pending : ∃ fs, d.pendingFuntors_ = c.pendingFuntors_ ++ fs ∧
    ∀ f ∈ fs, (f ≠ .connectEstablished ∧ f ≠ .connectDestroyed) ∧
      (f.owns = true ∨ c.state_ = .kConnected)

namespace Acts

variable {c d e : TcpConnection}

theorem of_same (h : c.Registered) (hs : d.state_ = c.state_)
    (hf : d.pendingFuntors_ = c.pendingFuntors_) (hch : d.channel_ = c.channel_)
    (hp : d.poller_ = c.poller_) : Acts c d := by
  refine ⟨congrArg Channel.id hch, ?_, Or.inl hs, fun _ => hch, ?_, [], by simp [hf], by simp⟩
  · rw [hch, hp]
    exact .refl h
  · rw [hch, hp]
    exact fun w => w

theorem refl (h : c.Registered) : Acts c c := of_same h rfl rfl rfl rfl

theorem registered (h : Acts c d) : d.Registered := h.spec.registered

theorem trans (h : Acts c d) (h' : Acts d e) : Acts c e := by
  obtain ⟨fs, hfs, hf⟩ := h.pending
  obtain ⟨gs, hgs, hg⟩ := h'.pending
  have hup : d.state_ = .kConnected → c.state_ = .kConnected := by
    intro hd
    rcases h.state with hs | ⟨hs, -⟩
    · exact hs ▸ hd
    · exact hs
  refine ⟨h'.id.trans h.id, h.spec.trans h'.spec, ?_, ?_, fun w => h'.watching (h.watching w),
    fs ++ gs, ?_, ?_⟩
  · rcases h.state with hs | ⟨hs, hs'⟩
    · rw [← hs]
      exact h'.state
    · rcases h'.state with ks | ⟨ks, -⟩
      · exact Or.inr ⟨hs, ks.trans hs'⟩
      · rw [hs'] at ks
        cases ks
  · intro hw
    have hsame := h.quiet hw
    rw [← hsame] at hw
    rw [h'.quiet hw, hsame]
  · rw [hgs, hfs, List.append_assoc]
  · intro f hm
    rcases List.mem_append.mp hm with hm | hm
    · exact hf f hm
    · exact ⟨(hg f hm).1, (hg f hm).2.imp_right hup⟩

theorem enqueue (h : c.Registered) {f : Functor}
    (hf : f ≠ .connectEstablished ∧ f ≠ .connectDestroyed) (howns : f.owns = true) :
    Acts c (c.queueInLoop f) := by
  refine ⟨rfl, .refl h, Or.inl rfl, fun _ => rfl, fun w => w, [f], rfl, ?_⟩
  intro g hg
  rw [List.mem_singleton.mp hg]
  exact ⟨hf, Or.inl howns⟩

theorem onChannel (h : c.Registered) (k : ChannelCall) (hw : c.channel_.isWriting = true)
    (hk : Watching c.poller_ c.channel_ →
      Watching (k.call c.poller_ c.channel_).1 (k.call c.poller_ c.channel_).2) :
    Acts c (c.onChannel k.call) := by
  refine ⟨k.call_id c.poller_ c.channel_, ChannelCall.call_spec h k, Or.inl rfl, ?_, hk, [], ?_, ?_⟩
  · intro hnot
    rw [hw] at hnot
    cases hnot
  · exact (List.append_nil _).symm
  · simp

end Acts

variable {c : TcpConnection}

theorem notifyWriteComplete_acts (h : c.Registered) : Acts c c.notifyWriteComplete := by
  rw [notifyWriteComplete]
  split_ifs
  · exact Acts.enqueue h (by simp) rfl
  · exact Acts.refl h

theorem noteHighWater_acts (h : c.Registered) (remaining : Nat) :
    Acts c (c.noteHighWater remaining) := by
  simp only [noteHighWater]
  split_ifs
  · exact Acts.enqueue h (by simp) rfl
  · exact Acts.refl h

theorem enableIfWriting_acts (h : c.Registered) : Acts c c.enableIfWriting := by
  rw [enableIfWriting]
  split_ifs with hw
  · exact Acts.onChannel h .enableWriting hw fun w => w.enableWriting
  · exact Acts.refl h

theorem appendRest_acts (h : c.Registered) (rest : List Byte) : Acts c (c.appendRest rest) := by
  have hnote := noteHighWater_acts h rest.length
  have hbuf : Acts (c.noteHighWater rest.length) { c.noteHighWater rest.length with
      oututBuffer_ := (c.noteHighWater rest.length).oututBuffer_.append rest } :=
    Acts.of_same hnote.registered rfl rfl rfl rfl
  exact (hnote.trans hbuf).trans (enableIfWriting_acts hbuf.registered)

theorem sendInLoop_acts (h : c.Registered) (data : List Byte) (answer : Except Errno Nat) :
    Acts c (c.sendInLoop data answer) := by
  have hw : Acts c { c with written := c.written ++ data.take (nwrote answer) } :=
    Acts.of_same h rfl rfl rfl rfl
  rw [sendInLoop]
  split_ifs
  · exact Acts.refl h
  · cases answer with
    | ok n =>
      simp only
      split_ifs
      · exact hw.trans (notifyWriteComplete_acts hw.registered)
      · exact hw.trans (appendRest_acts hw.registered _)
    | error e =>
      simp only
      split_ifs
      · exact hw
      · exact hw.trans (appendRest_acts hw.registered _)
  · exact Acts.refl h
  · exact appendRest_acts h data

theorem shutdownInLoop_acts (h : c.Registered) : Acts c c.shutdownInLoop := by
  rw [shutdownInLoop]
  split_ifs
  · exact Acts.of_same h rfl rfl rfl rfl
  · exact Acts.refl h

theorem shutdown_acts (h : c.Registered) : Acts c c.shutdown := by
  rw [shutdown]
  split_ifs with hs
  · refine ⟨rfl, .refl h, Or.inr ⟨hs, rfl⟩, fun _ => rfl, fun w => w, [.shutdownInLoop], rfl, ?_⟩
    intro f hf
    rw [List.mem_singleton.mp hf]
    exact ⟨by simp, Or.inr hs⟩
  · exact Acts.refl h

/-- The calls of user code on the loop's thread. -/
theorem userCall_acts (h : c.Registered) (a : UserCall) : Acts c (c.userCall a) := by
  cases a with
  | send data answer =>
    rw [userCall, send]
    split_ifs with hs hloop
    · exact sendInLoop_acts h data answer
    · exact absurd rfl hloop
    · exact Acts.refl h
  | shutdown => exact shutdown_acts h

theorem messageCallback_acts (h : c.Registered) (calls : List UserCall) :
    Acts c (c.messageCallback calls) := by
  induction calls generalizing c with
  | nil => exact Acts.refl h
  | cons a calls ih =>
    have hcall := userCall_acts h a
    exact hcall.trans (ih hcall.registered)

theorem handleWrite_acts (h : c.Registered) (answer : Except Errno Nat) :
    Acts c (c.handleWrite answer) := by
  have hb : Acts c (c.wroteBuffered (nwrote answer)) := Acts.of_same h rfl rfl rfl rfl
  rw [handleWrite]
  split_ifs with hw
  · have hd := Acts.onChannel hb.registered .disableWriting hw fun w => w.disableWriting
    have hn := notifyWriteComplete_acts hd.registered
    have hdrained : Acts (c.wroteBuffered (nwrote answer)) (c.wroteBuffered (nwrote answer)).drained := by
      rw [drained, shutdownIfDisConnecting]
      split_ifs
      · exact (hd.trans hn).trans (shutdownInLoop_acts hn.registered)
      · exact hd.trans hn
    exact hb.trans hdrained
  · exact hb
  · exact Acts.refl h
  · exact Acts.refl h

end TcpConnection

namespace TcpServer

/-- The connection is up, watched and in `connections_`, or closed and out of it. -/
def Staged (m : TcpServer) : Prop :=
  (m.inConnections = true ∧ (m.conn.state_ = .kConnected ∨ m.conn.state_ = .kDisConnecting) ∧
    Watching m.conn.poller_ m.conn.channel_) ∨
    (m.inConnections = false ∧ m.conn.state_ = .kDisConnected ∧ m.conn.channel_.isWriting = false)

/-- What code on a connection of the loop does to it. A connection that leaves `connections_`
leaves a `connectDestroyed`, and no functor with `this` is behind the last one of these. -/
structure Steps (m n : TcpServer) : Prop where
  loop : n.sameLoop = m.sameLoop
  id : n.conn.channel_.id = m.conn.channel_.id
  spec : m.conn.poller_.CallSpec m.conn.channel_ (n.conn.poller_, n.conn.channel_)
  staged : n.Staged
  stays : m.inConnections = false → n.inConnections = false
  added : ∃ fs, n.conn.pendingFuntors_ = m.conn.pendingFuntors_ ++ fs ∧
    .connectEstablished ∉ fs ∧ (m.inConnections ≠ n.inConnections → .connectDestroyed ∈ fs) ∧
    (m.inConnections = false → m.conn.channel_.index_ = .kNew →
      n.conn.channel_.index_ = .kNew ∨ .connectDestroyed ∈ fs) ∧
    (.connectDestroyed ∈ fs → n.inConnections = false) ∧
    ∀ pre f post, fs = pre ++ f :: post → f.owns = false →
      n.inConnections = true ∨ .connectDestroyed ∈ post

namespace Steps

variable {m n k : TcpServer}

theorem registered (h : Steps m n) : n.conn.Registered := h.spec.registered

theorem trans (h : Steps m n) (h' : Steps n k) : Steps m k := by
  obtain ⟨fs, hfs, hest, hleft, hquiet, hgone, hraw⟩ := h.added
  obtain ⟨gs, hgs, hest', hleft', hquiet', hgone', hraw'⟩ := h'.added
  refine ⟨h'.loop.trans h.loop, h'.id.trans h.id, h.spec.trans h'.spec, h'.staged,
    fun hm => h'.stays (h.stays hm), fs ++ gs, ?_, ?_, ?_, ?_, ?_, ?_⟩
  · rw [hgs, hfs, List.append_assoc]
  · rw [List.mem_append, not_or]
    exact ⟨hest, hest'⟩
  · intro hne
    rw [List.mem_append]
    by_cases hmn : m.inConnections = n.inConnections
    · exact Or.inr (hleft' (hmn ▸ hne))
    · exact Or.inl (hleft hmn)
  · intro hm hnew
    rw [List.mem_append]
    rcases hquiet hm hnew with hq | hq
    · exact (hquiet' (h.stays hm) hq).imp_right Or.inr
    · exact Or.inr (Or.inl hq)
  · intro hd
    rcases List.mem_append.mp hd with hd | hd
    · exact h'.stays (hgone hd)
    · exact hgone' hd
  · intro pre f post heq howns
    rcases List.append_eq_append_iff.mp heq with ⟨mid, hpre, hgs'⟩ | ⟨mid, hfs', hpost⟩
    · exact hraw' mid f post hgs' howns
    · cases mid with
      | nil =>
        rw [List.nil_append] at hpost
        exact hraw' [] f post hpost.symm howns
      | cons g mid =>
        obtain ⟨rfl, rfl⟩ := List.cons.inj hpost
        rcases hraw pre f mid hfs' howns with hn | hd
        · by_cases hnk : n.inConnections = k.inConnections
          · exact Or.inl (hnk ▸ hn)
          · exact Or.inr (List.mem_append_right mid (hleft' hnk))
        · exact Or.inr (List.mem_append_left gs hd)

end Steps

variable {m : TcpServer}

/-- Code that does not close the connection. -/
theorem Staged.acts (hs : m.Staged) {d : TcpConnection} (h : m.conn.Acts d) :
    Steps m { m with conn := d } := by
  obtain ⟨fs, hfs, hf⟩ := h.pending
  have hup : m.conn.state_ = .kConnected → m.inConnections = true := by
    intro hc
    rcases hs with ⟨hin, -⟩ | ⟨-, hdown, -⟩
    · exact hin
    · rw [hc] at hdown
      cases hdown
  refine ⟨rfl, h.id, h.spec, ?_, fun hin => hin, fs, hfs, fun hm => (hf _ hm).1.1 rfl,
    fun hne => absurd rfl hne, ?_, fun hm => absurd rfl (hf _ hm).1.2, ?_⟩
  · rcases hs with ⟨hin, hstate, hwatch⟩ | ⟨hin, hstate, hw⟩
    · refine Or.inl ⟨hin, ?_, h.watching hwatch⟩
      rcases h.state with hd | ⟨-, hd⟩
      · rw [hd]
        exact hstate
      · exact Or.inr hd
    · refine Or.inr ⟨hin, ?_, ?_⟩
      · rcases h.state with hd | ⟨hc, -⟩
        · exact hd.trans hstate
        · rw [hstate] at hc
          cases hc
      · rw [h.quiet hw]
        exact hw
  · intro hin hnew
    rcases hs with ⟨hin', -⟩ | ⟨-, -, hw⟩
    · rw [hin] at hin'
      cases hin'
    · refine Or.inl ?_
      rw [h.quiet hw]
      exact hnew
  · rintro pre f post rfl howns
    have hmem : f ∈ pre ++ f :: post := List.mem_append_right pre List.mem_cons_self
    rcases (hf f hmem).2 with ho | hc
    · rw [howns] at ho
      cases ho
    · exact Or.inl (hup hc)

theorem Staged.refl (hs : m.Staged) (h : m.conn.Registered) : Steps m m :=
  hs.acts (.refl h)

/-- A close, of a connection that is up or once more of one that is closed. -/
theorem steps_handleClose (h : m.conn.Registered) (hloop : m.sameLoop = true) :
    Steps m m.handleClose := by
  have heq : m.handleClose = { m with
      conn := m.conn.handleClose.queueInLoop .connectDestroyed, inConnections := false } :=
    if_pos hloop
  have hspec := ChannelCall.call_spec h .disableAll
  rw [heq]
  refine ⟨rfl, ChannelCall.call_id .disableAll m.conn.poller_ m.conn.channel_, hspec,
    Or.inr ⟨rfl, rfl, ?_⟩, fun _ => rfl, [.connectDestroyed], rfl, ?_, fun _ => ?_,
    fun _ _ => Or.inr ?_, fun _ => rfl, ?_⟩
  · exact Channel.isWriting_disableAll m.conn.poller_ m.conn.channel_
  · simp
  · exact List.mem_singleton_self _
  · exact List.mem_singleton_self _
  · intro pre f post hfs howns
    have hmem : f ∈ [Functor.connectDestroyed] :=
      hfs ▸ List.mem_append_right pre List.mem_cons_self
    rw [List.mem_singleton.mp hmem] at howns
    cases howns

/-- The end of a connection that is closed. -/
theorem Staged.connectDestroyed (hs : m.Staged) (h : m.conn.Registered)
    (hdown : m.inConnections = false) :
    Steps m { m with conn := m.conn.connectDestroyed } ∧
      m.conn.connectDestroyed.channel_.index_ = .kNew := by
  obtain ⟨hstate, hw⟩ : m.conn.state_ = .kDisConnected ∧ m.conn.channel_.isWriting = false := by
    rcases hs with ⟨hin, -⟩ | ⟨-, hstate⟩
    · rw [hdown] at hin
      cases hin
    · exact hstate
  have hne : m.conn.state_ ≠ .kConnected := by simp [hstate]
  have heq : m.conn.connectDestroyed = (m.conn.onChannel Channel.remove).call .channelRemoved := by
    simp only [TcpConnection.connectDestroyed, hne, if_false]
  have hnew : (m.conn.onChannel Channel.remove).channel_.index_ = .kNew := by
    rw [TcpConnection.onChannel, Channel.remove, EpollPoller.removeChannel_eq]
  rw [heq]
  refine ⟨⟨rfl, ChannelCall.call_id .remove m.conn.poller_ m.conn.channel_,
    ChannelCall.call_spec h .remove, Or.inr ⟨hdown, hstate, ?_⟩, fun hin => hin, [],
    (List.append_nil _).symm, List.not_mem_nil, fun hchange => absurd rfl hchange,
    fun _ _ => Or.inl hnew, fun _ => hdown, ?_⟩, hnew⟩
  · rw [Channel.isWriting_eq] at hw ⊢
    exact hw
  · intro pre f post hfs
    exact absurd hfs.symm (by simp)

/-- A functor other than the ends of a connection's life. -/
theorem Staged.runFunctor (hs : m.Staged) (h : m.conn.Registered) {f : Functor}
    (hf : f ≠ .connectEstablished ∧ f ≠ .connectDestroyed) (answer : Except Errno Nat) :
    Steps m (m.onConn fun c => c.runFunctor answer f) := by
  cases f with
  | sendInLoop message => exact hs.acts (TcpConnection.sendInLoop_acts h message answer)
  | shutdownInLoop => exact hs.acts (TcpConnection.shutdownInLoop_acts h)
  | writeCompleteCallback => exact hs.refl h
  | highWaterMarkCallback n => exact hs.refl h
  | connectEstablished => exact absurd rfl hf.1
  | connectDestroyed => exact absurd rfl hf.2

theorem Staged.handleRead (hs : m.Staged) (h : m.conn.Registered) (hloop : m.sameLoop = true)
    (e : ChannelEvent) : Steps m (m.handleRead e) := by
  rw [TcpServer.handleRead]
  cases e.readResult with
  | bytes data =>
    have hb : m.conn.Acts { m.conn with inputBuffer_ := m.conn.inputBuffer_.append data } :=
      .of_same h rfl rfl rfl rfl
    exact hs.acts (hb.trans (TcpConnection.messageCallback_acts hb.registered e.onMessage))
  | eof => exact steps_handleClose h hloop
  | error savedErrno => exact hs.refl h

/-- Every event of the channel, also one that closes the connection twice. -/
theorem Staged.handleEvent (hs : m.Staged) (h : m.conn.Registered) (hloop : m.sameLoop = true)
    (e : ChannelEvent) : Steps m (m.handleEventWithGuard e) := by
  have hclose : Steps m (closeBranch e m) := by
    rw [closeBranch]
    split_ifs
    · exact steps_handleClose h hloop
    · exact hs.refl h
  have hread : Steps m (readBranch e (closeBranch e m)) := by
    rw [readBranch]
    split_ifs
    · exact hclose.trans
        (hclose.staged.handleRead hclose.registered (hclose.loop.trans hloop) e)
    · exact hclose
  rw [handleEventWithGuard, writeBranch]
  split_ifs
  · exact hread.trans
      (hread.staged.acts (TcpConnection.handleWrite_acts hread.registered e.answer))
  · exact hread

end TcpServer

end Mymuduo.Net
