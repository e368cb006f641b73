import Mymuduo.Net.ReactorSafety

namespace Mymuduo.Net

open Lib

namespace TcpServer

/-- `n` is `m` after code on other connections: the poller they share has changed, but not for
the fd of this one. -/
structure Framed (m n : TcpServer) : Prop where
  same : n = { m with conn := { m.conn with poller_ := n.conn.poller_ } }
  interest : n.conn.poller_.interest m.conn.channel_.fd_ =
    m.conn.poller_.interest m.conn.channel_.fd_

variable {m n : TcpServer}

theorem Managed.framed (h : m.Managed) (hf : Framed m n) : n.Managed := by
  have hwatch : Watching m.conn.poller_ m.conn.channel_ →
      Watching n.conn.poller_ m.conn.channel_ := fun w => w.congr hf.interest
  have hun : Unwatched m.conn.poller_ m.conn.channel_ →
      Unwatched n.conn.poller_ m.conn.channel_ :=
    fun u => ⟨u.index, u.events, hf.interest.trans u.interest⟩
  rw [hf.same]
  refine ⟨h.once, h.entry, h.removed, ?_⟩
  rcases h.stage with hs | hs | hs
  · exact Or.inl ⟨hs.state, hs.calls, hs.pending, hun hs.unwatched, hs.away, hs.removals, hs.listed⟩
  · exact Or.inr (Or.inl
      ⟨hs.state, hs.calls, hs.pending, hwatch hs.watching, hs.home, hs.removals, hs.listed⟩)
  · exact Or.inr (Or.inr
      ⟨hs.state, hs.calls, hs.pending, hun hs.unwatched, hs.removals, hs.listed⟩)

/-- A connection that has just come up. -/
theorem managed_connectEstablished (hun : Unwatched m.conn.poller_ m.conn.channel_)
    (halive : m.alive = true) (hremovals : m.removals = 0) (hin : m.inConnections = true)
    (hcalls : m.conn.calls = []) (hpend : m.conn.pendingFuntors_ = []) :
    { m with conn := m.conn.connectEstablished }.Managed := by
  obtain ⟨hstate, hcalls', hpend', hwatch⟩ := TcpConnection.connectEstablished_fields hun
  rw [hcalls, List.nil_append] at hcalls'
  rw [hpend] at hpend'
  refine ⟨?_, fun _ => halive, ?_, Or.inr (Or.inl ⟨Or.inl hstate, ?_, ?_, hwatch, fun _ => halive,
    hremovals, fun _ => hin⟩)⟩
  · simp [destructions, hcalls', hpend', hin]
  · have hnil : DownBeforeRemoved [] := by
      intro pre post heq
      exact absurd heq.symm (by simp)
    simp only [hcalls']
    exact hnil.append (by simp)
  · simp only [hcalls']
    exact ⟨rfl, rfl, rfl⟩
  · simp [hpend']

theorem lifecycle_nil : Lifecycle [] :=
  ⟨List.nil_prefix, fun pre post heq => absurd heq.symm (by simp), Nat.zero_le _, Nat.zero_le _⟩

/-- A connection of the server's own loop, with the server alive. -/
structure Home (m : TcpServer) : Prop where
  loop : m.sameLoop = true
  alive : m.alive = true
  removals : m.removals = 0

theorem Home.onConn (h : m.Home) (f : TcpConnection → TcpConnection) : (m.onConn f).Home :=
  ⟨h.loop, h.alive, h.removals⟩

theorem Home.handleClose (h : m.Home) : m.handleClose.Home := by
  have heq : m.handleClose = { m with
      conn := m.conn.handleClose.queueInLoop .connectDestroyed, inConnections := false } :=
    if_pos h.loop
  rw [heq]
  exact ⟨h.loop, h.alive, h.removals⟩

theorem Home.handleRead (h : m.Home) (e : ChannelEvent) : (m.handleRead e).Home := by
  rw [TcpServer.handleRead]
  split
  · exact h.onConn _
  · exact h.handleClose
  · exact h

theorem Home.handleEvent (h : m.Home) (e : ChannelEvent) : (m.handleEventWithGuard e).Home := by
  have hclose : (closeBranch e m).Home := by
    rw [closeBranch]
    split_ifs
    · exact h.handleClose
    · exact h
  have hread : (readBranch e (closeBranch e m)).Home := by
    rw [readBranch]
    split_ifs
    · exact hclose.handleRead e
    · exact hclose
  rw [handleEventWithGuard, writeBranch]
  split_ifs
  · exact hread.onConn _
  · exact hread

end TcpServer

namespace Reactor

variable {o : ServerOptions} {s t : Reactor} {id : Nat} {m : TcpServer}

theorem view_home (s : Reactor) (id : Nat) : (s.view id).Home := ⟨rfl, rfl, rfl⟩

theorem own_append (id : Nat) (fs gs : List (Nat × Functor)) :
    own id (fs ++ gs) = own id fs ++ own id gs := List.filterMap_append

theorem own_cons (id : Nat) (f : Nat × Functor) (fs : List (Nat × Functor)) :
    own id (f :: fs) = if f.1 = id then f.2 :: own id fs else own id fs := by
  rw [own, List.filterMap_cons]
  split_ifs <;> rfl

theorem own_self (id : Nat) (fs : List Functor) : own id (fs.map fun f => (id, f)) = fs := by
  rw [own, List.filterMap_map]
  simp

theorem own_other {j : Nat} (hne : j ≠ id) (fs : List Functor) :
    own j (fs.map fun f => (id, f)) = [] := by
  rw [own, List.filterMap_eq_nil_iff]
  intro g hg
  obtain ⟨f, -, rfl⟩ := List.mem_map.mp hg
  exact if_neg hne.symm

/-- What code on a connection leaves is what the server then shows of it. -/
theorem Core.view_put (h : Core o s) (hsmall : s.nextConnId_ ≤ 2 ^ 31) (hid : id ∈ s.alive)
    (hsteps : (s.view id).Steps m) (hhome : m.Home) : (Reactor.put o s id m).view id = m := by
  obtain ⟨fs, hfs, -⟩ := hsteps.added
  have hp := h.placed hsmall hid hsteps hfs
  have hself : (Reactor.put o s id m).conn id = m.conn := conn_put_self
  have hqueue : own id (Reactor.put o s id m).queue = m.conn.pendingFuntors_ := by
    rw [hp.queue, own_append, own_self, hfs]
    rfl
  obtain ⟨conn, sameLoop, alive, inConnections, removals⟩ := m
  obtain ⟨rfl, rfl, rfl⟩ := hhome
  rw [view, hqueue, hp.listedSelf, hself]
  rfl

/-- Of another connection, ended or not, it leaves all but the poller. -/
theorem Core.view_put_other (h : Core o s) (hsmall : s.nextConnId_ ≤ 2 ^ 31) (hid : id ∈ s.alive)
    (hsteps : (s.view id).Steps m) {j : Nat} (hne : j ≠ id) : (Reactor.put o s id m).view j =
      { s.view j with conn := { (s.view j).conn with poller_ := m.conn.poller_ } } := by
  obtain ⟨fs, hfs, -⟩ := hsteps.added
  have hp := h.placed hsmall hid hsteps hfs
  have hother : (Reactor.put o s id m).conn j = s.conn j := conn_put_other hne
  have hqueue : own j (Reactor.put o s id m).queue = own j s.queue := by
    rw [hp.queue, own_append, own_other hne, List.append_nil]
  simp only [view, hqueue, hp.listed j hne, hother]
  rfl

theorem Core.framed_put (h : Core o s) (hsmall : s.nextConnId_ ≤ 2 ^ 31) (hid : id ∈ s.alive)
    (hsteps : (s.view id).Steps m) {j : Nat} (hj : j ∈ s.alive) (hne : j ≠ id) :
    (s.view j).Framed ((Reactor.put o s id m).view j) := by
  rw [h.view_put_other hsmall hid hsteps hne]
  exact ⟨rfl, hsteps.spec.interest _ fun heq => hne (h.distinct j hj id hid heq)⟩

/-- The life of one connection, which may have ended. Of the channels that are still to be handled,
each is there once, and that of the connection only while it is up. -/
structure Past (id : Nat) (s : Reactor) : Prop where
  calls : TcpServer.Lifecycle (s.conn id).calls
  active : ∀ a ∈ s.phase.activeChannels_, a.1 = id → id = 0 ∨ s.listed id = true
  once : (s.phase.activeChannels_.map (·.1)).Nodup

structure Lives (id : Nat) (s : Reactor) : Prop extends Past id s where
  managed : id ∈ s.alive → (s.view id).Managed

/-- A connection of the map is up. -/
theorem Good.up (h : Good o s) (hl : s.listed id = true) (hm : (s.view id).Managed) :
    (s.view id).Up := by
  have hne := (h.listed_iff_up (h.listed_alive hl)).mp hl
  rcases hm.stage with hs | hs | hs
  · have haway := hs.away
    cases haway
  · exact hs
  · exact absurd hs.state hne

/-- Code on the connection. -/
theorem Past.put (hpast : s.Past id) (h : Core o s) (hsmall : s.nextConnId_ ≤ 2 ^ 31)
    (hid : id ∈ s.alive) (hsteps : (s.view id).Steps m) (hhome : m.Home) (hm : m.Managed)
    (hactive : ∀ a ∈ s.phase.activeChannels_, a.1 = id → m.inConnections = true) :
    (Reactor.put o s id m).Lives id := by
  obtain ⟨fs, hfs, -⟩ := hsteps.added
  have hp := h.placed hsmall hid hsteps hfs
  have hself : (Reactor.put o s id m).conn id = m.conn := conn_put_self
  refine ⟨⟨?_, ?_, hpast.once⟩, ?_⟩
  · rw [hself]
    exact hm.lifecycle
  · intro a ha hai
    refine Or.inr ?_
    rw [hp.listedSelf]
    exact hactive a ha hai
  · intro _
    rw [h.view_put hsmall hid hsteps hhome]
    exact hm

/-- Code on another connection. -/
theorem Lives.putOther {j : Nat} (hlives : s.Lives id) (h : Core o s)
    (hsmall : s.nextConnId_ ≤ 2 ^ 31) (hj : j ∈ s.alive) (hne : id ≠ j)
    (hsteps : (s.view j).Steps m) : (Reactor.put o s j m).Lives id := by
  obtain ⟨fs, hfs, -⟩ := hsteps.added
  have hp := h.placed hsmall hj hsteps hfs
  have hconn : (Reactor.put o s j m).conn id = s.conn id := conn_put_other hne
  refine ⟨⟨?_, ?_, hlives.once⟩, ?_⟩
  · rw [hconn]
    exact hlives.calls
  · rw [hp.listed id hne]
    exact hlives.active
  · intro hid
    exact (hlives.managed hid).framed (h.framed_put hsmall hj hsteps hid hne)

theorem Lives.reap (hlives : s.Lives id) (h : Good o s) : s.reap.Lives id := by
  refine ⟨⟨hlives.calls, hlives.active, hlives.once⟩, ?_⟩
  intro hid
  have hview : s.reap.view id = s.view id := by
    rw [view, h.reap_poller]
    rfl
  rw [hview]
  exact hlives.managed (List.mem_of_mem_filter hid)

/-- Nothing is queued for a number that is still to be given out. -/
theorem Core.own_new (h : Core o s) : own s.nextConnId_ s.queue = [] := by
  rw [own, List.filterMap_eq_nil_iff]
  rintro ⟨id, f⟩ hf
  have hlt := (h.numbers id (h.queued_alive hf)).2
  exact if_neg hlt.ne

theorem Lives.newConnection (hlives : s.Lives id) (h : Good o s) (hsmall : s.nextConnId_ < 2 ^ 31)
    {fd : Nat} (hfree : s.freeFd o fd = true) (onConnection : List UserCall) :
    (newConnection o s fd onConnection).Lives id := by
  have hcore := h.create hsmall hfree
  have hnew : s.nextConnId_ ∈ (create o s fd).alive := List.mem_cons_self
  have hlisted : (create o s fd).listed s.nextConnId_ = true := h.listed_new hsmall fd
  have hsteps := h.steps_new hsmall hfree onConnection
  by_cases hne : id = s.nextConnId_
  · have hcalls : ((create o s fd).conn s.nextConnId_).calls = [] := by
      simp [create, TcpConnection.new]
    have hpast : (create o s fd).Past s.nextConnId_ := by
      refine ⟨?_, fun _ _ _ => Or.inr hlisted, hlives.once⟩
      rw [hcalls]
      exact TcpServer.lifecycle_nil
    rw [hne]
    refine hpast.put hcore hsmall hnew hsteps ⟨rfl, rfl, rfl⟩ ?_ fun _ _ _ => hlisted
    exact (TcpServer.managed_connectEstablished (h.unwatched_create hfree) rfl rfl hlisted hcalls
      h.own_new).keeps (TcpConnection.messageCallback_keeps _ onConnection)
  · have hold : (create o s fd).Lives id := by
      refine ⟨⟨?_, ?_, hlives.once⟩, ?_⟩
      · rw [(h.create_other hsmall fd hne).1]
        exact hlives.calls
      · intro a ha hai
        refine (hlives.active a ha hai).imp_right fun hl => ?_
        rw [h.listed_create hsmall, hl]
        rfl
      · intro hid
        rw [h.view_create hsmall fd hne]
        exact hlives.managed ((List.mem_cons.mp hid).resolve_left hne)
    exact hold.putOther hcore hsmall hnew hne hsteps

theorem lives_init (o : ServerOptions) (id : Nat) : (init o).Lives id :=
  ⟨⟨TcpServer.lifecycle_nil, fun _ h => absurd h List.not_mem_nil, List.nodup_nil⟩,
    fun h => absurd h List.not_mem_nil⟩

/-- Two fds are never of one channel. -/
theorem Core.once_reported (h : Core o s) {ready : List (Nat × Mask)}
    (hready : (ready.map (·.1)).Nodup) : ((s.poll ready).phase.activeChannels_.map (·.1)).Nodup := by
  change (((ready.filterMap fun r => s.poller_.wait r.1 r.2)).map (·.1)).Nodup
  rw [List.Nodup, List.pairwise_map] at hready ⊢
  rw [List.pairwise_filterMap]
  refine hready.imp ?_
  intro r r' hne a ha b hb heq
  rcases h.reported ha with ⟨hzero, hfd⟩ | ⟨hid, hfd, -⟩
  · rcases h.reported hb with ⟨-, hfd'⟩ | ⟨hid', -⟩
    · exact hne (hfd.trans hfd'.symm)
    · have hpos := (h.numbers b.1 hid').1
      omega
  · rcases h.reported hb with ⟨hzero', -⟩ | ⟨-, hfd', -⟩
    · have hpos := (h.numbers a.1 hid).1
      omega
    · rw [heq] at hfd
      exact hne (hfd.symm.trans hfd')

theorem Lives.poll (hlives : s.Lives id) (h : Good o s) (hphase : s.phase = .poll)
    {ready : List (Nat × Mask)} (hready : (ready.map (·.1)).Nodup) : (s.poll ready).Lives id := by
  refine ⟨⟨hlives.calls, ?_, ?_⟩, ?_⟩
  · intro a ha hai
    obtain ⟨r, -, hr⟩ := List.mem_filterMap.mp ha
    rcases h.reported hr with ⟨hzero, -⟩ | ⟨hid, -, hadded⟩
    · exact Or.inl (hai.symm.trans hzero)
    · rw [hai] at hid hadded
      refine Or.inr ((h.listed_iff_up hid).mpr ?_)
      intro hdown
      rcases (hlives.managed hid).stage with hs | hs | hs
      · have haway := hs.away
        cases haway
      · rcases hs.state with hup | hup
        · exact absurd (hup.symm.trans hdown) (by decide)
        · exact absurd (hup.symm.trans hdown) (by decide)
      · exact hs.unwatched.index hadded
  · exact h.once_reported hready
  · intro hid
    have hold := hlives.managed hid
    rw [view, queue, hphase] at hold
    exact hold

theorem Lives.handleEvent {j : Nat} (hlives : s.Lives id) (h : Good o s)
    (hsmall : s.nextConnId_ < 2 ^ 31) {revents : Mask} {rest : List (Nat × Mask)}
    (hphase : s.phase = .handling ((j, revents) :: rest)) {accepted : Option Nat}
    (hfree : accepted.all (s.freeFd o) = true) (onConnection : List UserCall) {e : ChannelEvent}
    (he : j = id → TcpServer.hangsUp e = true → TcpServer.reads e = true →
      e.readResult ≠ .eof) :
    (Reactor.handleEvent o { s with phase := .handling rest } j accepted onConnection e).Lives
      id := by
  have hgood := h.handled hphase
  have hactive := hlives.active
  have honce := hlives.once
  rw [hphase] at hactive honce
  obtain ⟨hnot, honce⟩ := List.nodup_cons.mp honce
  have hrest : Reactor.Lives id { s with phase := .handling rest } := by
    refine ⟨⟨hlives.calls, fun a ha => hactive a (List.mem_cons_of_mem _ ha), honce⟩, ?_⟩
    intro hid
    have hm := hlives.managed hid
    rw [view, queue, hphase] at hm
    exact hm
  rw [Reactor.handleEvent]
  split_ifs with hzero hreads halive
  · cases accepted with
    | none => exact hrest
    | some fd => exact hrest.newConnection hgood hsmall hfree onConnection
  · exact hrest
  · have hj : j ∈ s.alive := List.contains_iff_mem.mp halive
    have hsteps := (hgood.staged j hj).handleEvent (hgood.registered j hj) rfl e
    by_cases hjid : j = id
    · rw [hjid] at hj hsteps hnot ⊢
      have hl : s.listed id = true :=
        (hactive (j, revents) List.mem_cons_self hjid).resolve_left (hjid ▸ hzero)
      have hm := hrest.managed hj
      refine hrest.toPast.put hgood.toCore hsmall.le hj hsteps ((view_home _ id).handleEvent e)
        (hm.handleEvent (hgood.up hl hm) e (he hjid)) ?_
      intro a ha hai
      refine absurd ?_ hnot
      exact List.mem_map.mpr ⟨a, ha, hai⟩
    · exact hrest.putOther hgood.toCore hsmall.le hj (Ne.symm hjid) hsteps
  · exact ⟨⟨hrest.calls, hrest.active, hrest.once⟩, hrest.managed⟩

theorem Lives.runFunctor {j : Nat} (hlives : s.Lives id) (h : Good o s)
    (hsmall : s.nextConnId_ ≤ 2 ^ 31) {f : Functor} {functors rest : List (Nat × Functor)}
    (hphase : s.phase = .calling functors ((j, f) :: rest)) (answer : Except Errno Nat) :
    (Reactor.runFunctor o { s with phase := .calling functors rest } j f answer).Lives id := by
  have hqueue : s.queue = (j, f) :: (rest ++ s.pendingFuntors_) := by
    rw [queue, hphase]
    rfl
  have hhead : (j, f) ∈ s.queue := hqueue ▸ List.mem_cons_self
  have hj : j ∈ s.alive := h.queued_alive hhead
  obtain ⟨hcore, hsteps⟩ := h.called hphase answer
  rw [Reactor.runFunctor, if_pos (List.contains_iff_mem.mpr hj)]
  by_cases hjid : j = id
  · subst hjid
    have hown : (s.view j).conn.pendingFuntors_ = f :: own j (rest ++ s.pendingFuntors_) := by
      have hview : (s.view j).conn.pendingFuntors_ = own j s.queue := rfl
      rw [hview, hqueue, own_cons, if_pos rfl]
    have hm : TcpServer.Managed ((view { s with phase := .calling functors rest } j).onConn
        fun c => c.runFunctor answer f) := by
      refine (hlives.managed hj).runFunctor answer hown ?_
      rintro rfl hstate
      have hdown := h.destroyed j hhead
      have hup := (h.listed_iff_up hj).mpr
      rw [hdown] at hup
      refine absurd (hup ?_) Bool.false_ne_true
      intro heq
      exact absurd (hstate.symm.trans heq) (by decide)
    have hpast : Past j { s with phase := .calling functors rest } :=
      ⟨hlives.calls, fun _ ha => absurd ha List.not_mem_nil, List.nodup_nil⟩
    exact hpast.put hcore hsmall hj hsteps ((view_home _ j).onConn _) hm
      fun _ ha => absurd ha List.not_mem_nil
  · have hold : Reactor.Lives id { s with phase := .calling functors rest } := by
      refine ⟨⟨hlives.calls, fun _ ha => absurd ha List.not_mem_nil, List.nodup_nil⟩, ?_⟩
      intro hid
      have hm := hlives.managed hid
      have hskip : own id s.queue = own id (rest ++ s.pendingFuntors_) := by
        rw [hqueue, own_cons, if_neg hjid]
      rw [view, hskip] at hm
      exact hm
    exact hold.putOther hcore hsmall hj (Ne.symm hjid) hsteps

/-- The loop goes on with the queue as it is, and handles no channel. -/
theorem Lives.rephase (hlives : s.Lives id) {phase : LoopPhase} {pending : List (Nat × Functor)}
    (hq : phase.left ++ pending = s.queue) (hactive : phase.activeChannels_ = []) :
    Reactor.Lives id { s with phase := phase, pendingFuntors_ := pending } := by
  refine ⟨⟨hlives.calls, ?_, ?_⟩, ?_⟩
  · rw [hactive]
    exact fun _ ha => absurd ha List.not_mem_nil
  · rw [hactive]
    exact List.nodup_nil
  · intro hid
    have hm := hlives.managed hid
    rw [view, ← hq] at hm
    exact hm

/-- The step is not an event of the connection that both hangs up and ends its input, which would
close it twice. -/
def parted (id : Nat) (s : Reactor) : ReactorAction → Bool
  | .handleEvent _ _ readResult onMessage answer =>
    match s.phase with
    | .handling ((j, revents) :: _) =>
      j != id || !(TcpServer.hangsUp ⟨revents, readResult, onMessage, answer⟩ &&
        TcpServer.reads ⟨revents, readResult, onMessage, answer⟩ && readResult = .eof)
    | _ => true
  | _ => true

theorem Lives.step (hlives : s.Lives id) (h : Good o s) (hsmall : s.nextConnId_ < 2 ^ 31)
    {a : ReactorAction} (ht : step o s a = some t) (hparted : s.parted id a = true) :
    t.Lives id := by
  cases step_moves o ht with
  | poll hphase hready => exact hlives.poll h hphase hready
  | @handleEvent j revents rest accepted onConnection onMessage readResult answer hphase hfree =>
    refine (hlives.handleEvent h hsmall hphase hfree onConnection ?_).reap
      (h.handleEvent hsmall hphase hfree onConnection _)
    intro hjid hhup hreads heof
    simp only [parted, hphase, hhup, hreads] at hparted
    simp [hjid, show readResult = .eof from heof] at hparted
  | runFunctor hphase =>
    exact (hlives.runFunctor h hsmall.le hphase _).reap (h.runFunctor hsmall.le hphase _)
  | batch hphase =>
    apply hlives.rephase _ rfl
    rw [queue, hphase]
    exact List.append_nil _
  | batchEnd hphase =>
    apply Lives.reap _ (h.batchEnd hphase)
    apply hlives.rephase _ rfl
    rw [queue, hphase]
    rfl
  | keep _ => exact ⟨⟨hlives.calls, hlives.active, hlives.once⟩, hlives.managed⟩
  | release =>
    refine Lives.reap ?_ (h.hold fun j hj => h.users_alive (List.mem_of_mem_erase hj))
    exact ⟨⟨hlives.calls, hlives.active, hlives.once⟩, hlives.managed⟩
  | @call j c hu =>
    have hj := h.users_alive hu
    have hreg : (s.view j).conn.Registered := h.registered j hj
    have hsteps := (h.staged j hj).acts (TcpConnection.userCall_acts hreg c)
    refine Lives.reap ?_ (h.put hsmall.le hj hsteps)
    by_cases hjid : j = id
    · subst hjid
      refine hlives.toPast.put h.toCore hsmall.le hj hsteps ((view_home s j).onConn _)
        ((hlives.managed hj).keeps (TcpConnection.messageCallback_keeps _ [c])) ?_
      intro a ha hai
      have hpos := (h.numbers j hj).1
      exact (hlives.active a ha hai).resolve_left (by omega)
    · exact hlives.putOther h.toCore hsmall.le hj (Ne.symm hjid) hsteps

/-- A connection of which no event both hangs up and ends its input lives once, whatever happens on
the others: one callback for its coming up, then one for its going down before its channel is
removed, at most one close and one `connectDestroyed`. -/
theorem lifecycle_run (o : ServerOptions) {as : List ReactorAction} (id : Nat)
    (hsmall : Always (step o) (fun s => s.nextConnId_ < 2 ^ 31) (init o) as)
    (hparted : Each (step o) (fun s a => s.parted id a = true) (init o) as) :
    Always (step o) (fun s => TcpServer.Lifecycle (s.conn id).calls) (init o) as := by
  have hinv : Always (step o) (fun s => Good o s ∧ s.Lives id) (init o) as :=
    always_of_each (fun _ _ _ h ht hc => ⟨h.1.step hc.1 ht, h.2.step h.1 hc.1 ht hc.2⟩)
      ⟨.init o, lives_init o id⟩ (hsmall.each.and hparted)
  exact hinv.mono fun _ h => h.2.calls

/-- Two clients, of which the first asks and then ends its input. -/
def politeSession : List ReactorAction :=
  [.poll [(3, EPOLLIN)], .handleEvent (some 5) [] .eof [] (.ok 0), .next, .next,
    .poll [(5, EPOLLIN), (3, EPOLLIN)],
    .handleEvent none [] (.bytes [71]) [.send [72, 73] (.ok 2), .shutdown] (.ok 0),
    .handleEvent (some 6) [] .eof [] (.ok 0), .next, .runFunctor (.ok 0), .runFunctor (.ok 0), .next,
    .poll [(5, EPOLLIN)], .handleEvent none [] .eof [] (.ok 0), .next, .runFunctor (.ok 0), .next]

theorem lifecycle_run_politeSession :
    Always (step localOptions) (fun s => TcpServer.Lifecycle (s.conn 1).calls)
      (init localOptions) politeSession :=
  lifecycle_run localOptions 1 (by decide +kernel) (by decide +kernel)

end Reactor

end Mymuduo.Net
