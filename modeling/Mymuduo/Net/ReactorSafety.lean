import Mymuduo.Net.ReactorRun

namespace Mymuduo.Net

open Lib

namespace Reactor

variable {o : ServerOptions} {s t : Reactor} {id : Nat}

/-- The acceptor's channel is all there is in the poller. -/
theorem Good.init (o : ServerOptions) : Good o (init o) := by
  have hspec : EpollPoller.init.CallSpec (Channel.new 0 o.listenfd) _ :=
    ChannelCall.call_spec ⟨rfl, rfl⟩ .enableReading
  have hid := ChannelCall.call_id .enableReading EpollPoller.init (Channel.new 0 o.listenfd)
  refine ⟨⟨rfl, hspec.fatal, ⟨hid, hspec.fd_, rfl, hspec.registered⟩, le_rfl, ?_, ?_, ?_, ?_, ?_, ?_,
    List.nodup_nil, ?_, ?_, ?_, ⟨[], rfl⟩, .nil, ?_⟩, ?_, ?_⟩
  · exact fun _ h => absurd h List.not_mem_nil
  · exact fun _ h => absurd h List.not_mem_nil
  · exact fun _ h => absurd h List.not_mem_nil
  · exact fun _ h => absurd h List.not_mem_nil
  · intro k hk
    by_contra hne
    have hfd : k ≠ (Channel.new 0 o.listenfd).fd_ := fun heq => hne (Or.inl heq)
    rcases hk with hk | hk
    · exact hk (hspec.interest k hfd)
    · exact hk (hspec.channels k hfd)
  · exact fun _ h => absurd h List.not_mem_nil
  · exact fun _ h => absurd h List.not_mem_nil
  · exact fun _ h => absurd h List.not_mem_nil
  · exact fun _ h => absurd h Bool.false_ne_true
  · exact fun _ h => absurd h List.not_mem_nil
  · exact fun _ h => absurd h List.not_mem_nil
  · exact fun _ h => absurd h List.not_mem_nil

section Phase

variable (phase : LoopPhase) (pending : List (Nat × Functor))

/-- The loop goes on, and perhaps takes functors from the front of its queue. -/
theorem Core.rephase (h : Core o s) (hq : phase.left ++ pending <:+ s.queue)
    (hf : ∀ f ∈ phase.functors ++ pending, f ∈ s.phase.functors ++ s.pendingFuntors_)
    (hbatch : ∃ pre, phase.functors = pre ++ phase.left)
    (hactive : ∀ a ∈ phase.activeChannels_, a.1 = 0 ∨ s.listed a.1 = true ∨
      (a.1, .connectDestroyed) ∈ pending) :
    Core o { s with phase := phase, pendingFuntors_ := pending } := by
  obtain ⟨gone, hgone⟩ := hq
  have hmem : ∀ f ∈ phase.left ++ pending, f ∈ s.queue :=
    fun f hm => hgone ▸ List.mem_append_right gone hm
  refine ⟨h.noFault, h.noFatal, h.acceptor, h.counter, h.numbers, h.channels, h.distinct,
    h.registered, h.covered, h.names, h.once, fun id hd => h.destroyed id (hmem _ hd),
    fun id hd => h.established id (hmem _ hd), ?_, hbatch, ?_, hactive⟩
  · intro id href
    rcases referred_iff.mp href with hl | hu | ⟨f, hm, howns⟩
    · exact h.listed_alive hl
    · exact h.holders id (referred_iff.mpr (Or.inr (Or.inl hu)))
    · exact h.holders id (referred_iff.mpr (Or.inr (Or.inr ⟨f, hf _ hm, howns⟩)))
  · intro pre id f post heq howns
    refine h.raw (gone ++ pre) id f post ?_ howns
    have hqueue : phase.left ++ pending = pre ++ (id, f) :: post := heq
    rw [← hgone, hqueue, List.append_assoc]

/-- The same where the queue stays. -/
theorem Good.rephase (h : Good o s) (hq : phase.left ++ pending = s.queue)
    (hf : ∀ f ∈ phase.functors ++ pending, f ∈ s.phase.functors ++ s.pendingFuntors_)
    (hbatch : ∃ pre, phase.functors = pre ++ phase.left)
    (hactive : ∀ a ∈ phase.activeChannels_, a.1 = 0 ∨ s.listed a.1 = true ∨
      (a.1, .connectDestroyed) ∈ pending) :
    Good o { s with phase := phase, pendingFuntors_ := pending } := by
  refine ⟨h.toCore.rephase phase pending (hq ▸ List.suffix_refl _) hf hbatch hactive, h.staged, ?_⟩
  intro id hid hl
  have hqueue : Reactor.queue { s with phase := phase, pendingFuntors_ := pending } = s.queue := hq
  rw [hqueue]
  exact h.closed id hid hl

/-- What `epoll_wait` reports is the acceptor's, or of an object that is added. -/
theorem Core.reported (h : Core o s) {fd : Nat} {occurred : Mask} {a : Nat × Mask}
    (hw : s.poller_.wait fd occurred = some a) :
    (a.1 = 0 ∧ fd = o.listenfd) ∨
      (a.1 ∈ s.alive ∧ s.fd a.1 = fd ∧ (s.conn a.1).channel_.index_ = .kAdded) := by
  obtain ⟨e, he, ha⟩ := Option.bind_eq_some_iff.mp hw
  split_ifs at ha with hzero
  obtain rfl := Option.some.inj ha
  rcases h.covered fd (Or.inl (by simp [he])) with rfl | ⟨id, hid, rfl⟩
  · have hreg := h.acceptor.registered.interest
    rw [h.acceptor.fd_, he, h.acceptor.index, if_pos rfl] at hreg
    rw [Option.some.inj hreg]
    exact Or.inl ⟨h.acceptor.id, rfl⟩
  · have hreg := (h.registered id hid).interest
    rw [← fd, he] at hreg
    split_ifs at hreg with hadded
    rw [Option.some.inj hreg]
    dsimp only
    rw [(h.channels id hid).1]
    exact Or.inr ⟨hid, rfl, hadded⟩

/-- Between two batches of functors, nothing has destroyed a connection that is added. -/
theorem Good.active_poll (h : Good o s) (hphase : s.phase = .poll) {fd : Nat} {occurred : Mask}
    {a : Nat × Mask} (hw : s.poller_.wait fd occurred = some a) :
    a.1 = 0 ∨ s.listed a.1 = true ∨ (a.1, .connectDestroyed) ∈ s.pendingFuntors_ := by
  rcases h.reported hw with ⟨hzero, -⟩ | ⟨hid, -, hadded⟩
  · exact Or.inl hzero
  · cases hl : s.listed a.1 with
    | true => exact Or.inr (Or.inl rfl)
    | false =>
      rcases h.closed a.1 hid hl with hd | hnew
      · rw [queue, hphase] at hd
        exact Or.inr (Or.inr hd)
      · rw [hadded] at hnew
        cases hnew

end Phase

theorem Good.poll (h : Good o s) (hphase : s.phase = .poll) (ready : List (Nat × Mask)) :
    Good o (s.poll ready) := by
  have hreported : ∀ a ∈ ready.filterMap (fun r => s.poller_.wait r.1 r.2), a.1 = 0 ∨
      s.listed a.1 = true ∨ (a.1, .connectDestroyed) ∈ s.pendingFuntors_ := by
    intro a ha
    obtain ⟨r, -, hr⟩ := List.mem_filterMap.mp ha
    exact h.active_poll hphase hr
  have hgood := h.rephase (.handling (ready.filterMap fun r : Nat × Mask => s.poller_.wait r.1 r.2))
    s.pendingFuntors_ (by rw [queue, hphase]; rfl) (by rw [hphase]; exact fun _ hf => hf) ⟨[], rfl⟩
    hreported
  have hnone : (ready.filterMap fun r => s.poller_.wait r.1 r.2).any
      (fun a => a.1 != 0 && !s.alive.contains a.1) = false := by
    rw [List.any_eq_false]
    intro a ha
    rcases hreported a ha with h0 | hl | hd
    · simp [h0]
    · simp [h.listed_alive hl]
    · simp [h.queued_alive (List.mem_append_right _ hd)]
  have hfault : (s.poll ready).fault = false := by
    rw [Reactor.poll, h.noFault, hnone]
    rfl
  exact ⟨{ hgood.toCore with noFault := hfault }, hgood.staged, hgood.closed⟩

/-- A channel is taken from `activeChannels_`. -/
theorem Good.handled (h : Good o s) {a : Nat × Mask} {rest : List (Nat × Mask)}
    (hphase : s.phase = .handling (a :: rest)) : Good o { s with phase := .handling rest } := by
  have hactive := h.active
  rw [hphase] at hactive
  apply h.rephase (.handling rest) s.pendingFuntors_
  · rw [queue, hphase]
    rfl
  · rw [hphase]
    exact fun _ hf => hf
  · exact ⟨[], rfl⟩
  · exact fun b hb => hactive b (List.mem_cons_of_mem _ hb)

/-- One channel of `activeChannels_`, whose object is there. -/
theorem Good.handleEvent (h : Good o s) (hsmall : s.nextConnId_ < 2 ^ 31)
    {revents : Mask} {rest : List (Nat × Mask)} (hphase : s.phase = .handling ((id, revents) :: rest))
    {accepted : Option Nat} (hfree : accepted.all (s.freeFd o) = true) (onConnection : List UserCall)
    (e : ChannelEvent) :
    Good o (handleEvent o { s with phase := .handling rest } id accepted onConnection e) := by
  have hgood := h.handled hphase
  have hactive := h.active
  rw [hphase] at hactive
  rw [Reactor.handleEvent]
  split_ifs with hzero hreads halive
  · cases accepted with
    | none => exact hgood
    | some fd => exact hgood.newConnection hsmall hfree onConnection
  · exact hgood
  · have hid : id ∈ s.alive := List.contains_iff_mem.mp halive
    exact hgood.put hsmall.le hid ((hgood.staged id hid).handleEvent (hgood.registered id hid) rfl e)
  · refine absurd (List.contains_iff_mem.mpr ?_) halive
    rcases (hactive (id, revents) List.mem_cons_self).resolve_left hzero with hl | hd
    · exact h.listed_alive hl
    · exact h.queued_alive (List.mem_append_right _ hd)

section Functors

variable {f : Functor} {functors rest : List (Nat × Functor)}

/-- A functor is taken from the batch, and runs. -/
theorem Good.called (h : Good o s) (hphase : s.phase = .calling functors ((id, f) :: rest))
    (answer : Except Errno Nat) :
    Core o { s with phase := .calling functors rest } ∧
      TcpServer.Steps (view { s with phase := .calling functors rest } id)
        ((view { s with phase := .calling functors rest } id).onConn fun c =>
          c.runFunctor answer f) := by
  have hqueue : s.queue = (id, f) :: (rest ++ s.pendingFuntors_) := by
    rw [queue, hphase]
    rfl
  have hhead : (id, f) ∈ s.queue := hqueue ▸ List.mem_cons_self
  have hid : id ∈ s.alive := h.queued_alive hhead
  obtain ⟨pre, hpre⟩ := h.batch
  rw [hphase] at hpre
  have hcore : Core o { s with phase := .calling functors rest } := by
    apply h.toCore.rephase (.calling functors rest) s.pendingFuntors_
    · rw [hqueue]
      exact List.suffix_cons _ _
    · rw [hphase]
      exact fun _ hf => hf
    · refine ⟨pre ++ [(id, f)], hpre.trans ?_⟩
      simp [LoopPhase.left]
    · exact fun a ha => absurd ha List.not_mem_nil
  have hstaged : TcpServer.Staged (view { s with phase := .calling functors rest } id) :=
    h.staged id hid
  refine ⟨hcore, ?_⟩
  by_cases hdes : f = .connectDestroyed
  · subst hdes
    exact (hstaged.connectDestroyed (hcore.registered id hid) (h.destroyed id hhead)).1
  · have hest : f ≠ .connectEstablished := by
      rintro rfl
      exact h.established id hhead
    exact hstaged.runFunctor (hcore.registered id hid) ⟨hest, hdes⟩ answer

/-- One functor of the batch. After the `connectDestroyed` of a connection its channel is out of
the poller. -/
theorem Good.runFunctor (h : Good o s) (hsmall : s.nextConnId_ ≤ 2 ^ 31)
    (hphase : s.phase = .calling functors ((id, f) :: rest)) (answer : Except Errno Nat) :
    Good o (runFunctor o { s with phase := .calling functors rest } id f answer) := by
  have hqueue : s.queue = (id, f) :: (rest ++ s.pendingFuntors_) := by
    rw [queue, hphase]
    rfl
  have hhead : (id, f) ∈ s.queue := hqueue ▸ List.mem_cons_self
  have hid : id ∈ s.alive := h.queued_alive hhead
  obtain ⟨hcore, hsteps⟩ := h.called hphase answer
  -- the queue has lost this one functor
  have hclosed : ∀ j ∈ s.alive, (j, .connectDestroyed) ≠ (id, f) →
      Reactor.Closed { s with phase := .calling functors rest } j := by
    intro j hj hne hl
    refine (h.closed j hj hl).imp_left ?_
    intro hd
    rw [hqueue] at hd
    exact (List.mem_cons.mp hd).resolve_left hne
  rw [Reactor.runFunctor, if_pos (List.contains_iff_mem.mpr hid)]
  refine ⟨hcore.put hsmall hid hsteps, hcore.put_staged hsmall hid hsteps
    (fun j hj _ => h.staged j hj), hcore.put_closed hsmall hid hsteps ?_ ?_⟩
  · by_cases hdes : f = .connectDestroyed
    · subst hdes
      have hstaged : TcpServer.Staged (view { s with phase := .calling functors rest } id) :=
        h.staged id hid
      exact Or.inr (hstaged.connectDestroyed (hcore.registered id hid) (h.destroyed id hhead)).2
    · refine Or.inl (hclosed id hid ?_)
      intro heq
      exact hdes (Prod.mk.inj heq).2.symm
  · intro j hj hne
    refine hclosed j hj ?_
    intro heq
    exact hne (Prod.mk.inj heq).1

/-- The batch is done, and what it owned is let go. -/
theorem Good.batchEnd (h : Good o s) (hphase : s.phase = .calling functors []) :
    Good o { s with phase := .poll } := by
  apply h.rephase .poll s.pendingFuntors_
  · rw [queue, hphase]
    rfl
  · exact fun f hf => List.mem_append_right _ hf
  · exact ⟨[], rfl⟩
  · exact fun a ha => absurd ha List.not_mem_nil

end Functors

/-- User code takes or drops pointers. -/
theorem Good.hold (h : Good o s) {users : List Nat} (hu : ∀ id ∈ users, id ∈ s.alive) :
    Good o { s with users := users } := by
  refine ⟨{ h.toCore with holders := ?_ }, h.staged, h.closed⟩
  intro id href
  rcases referred_iff.mp href with hl | hm | hf
  · exact h.listed_alive hl
  · exact hu id hm
  · exact h.holders id (referred_iff.mpr (Or.inr (Or.inr hf)))

theorem Good.users_alive (h : Good o s) (hid : id ∈ s.users) : id ∈ s.alive :=
  h.holders id (referred_iff.mpr (Or.inr (Or.inl hid)))

/-- A step keeps the invariant while the next number is an `int`. -/
theorem Good.step (h : Good o s) (hsmall : s.nextConnId_ < 2 ^ 31) {a : ReactorAction}
    (ht : step o s a = some t) : Good o t := by
  cases step_moves o ht with
  | poll hphase _ => exact h.poll hphase _
  | handleEvent hphase hfree => exact (h.handleEvent hsmall hphase hfree _ _).reap
  | runFunctor hphase => exact (h.runFunctor hsmall.le hphase _).reap
  | batch hphase =>
    apply h.rephase (.calling s.pendingFuntors_ s.pendingFuntors_) []
    · rw [queue, hphase]
      exact List.append_nil _
    · rw [hphase]
      exact fun f hf => (List.append_nil s.pendingFuntors_) ▸ hf
    · exact ⟨[], rfl⟩
    · exact fun a ha => absurd ha List.not_mem_nil
  | batchEnd hphase => exact (h.batchEnd hphase).reap
  | keep hid =>
    apply h.hold
    intro j hj
    rcases List.mem_cons.mp hj with rfl | hj
    · exact hid
    · exact h.users_alive hj
  | release => exact (h.hold fun j hj => h.users_alive (List.mem_of_mem_erase hj)).reap
  | @call id c hu =>
    have hid := h.users_alive hu
    have hreg : (s.view id).conn.Registered := h.registered id hid
    exact (h.put hsmall.le hid ((h.staged id hid).acts (TcpConnection.userCall_acts hreg c))).reap

/-- Every run in which `nextConnId_` stays an `int`. -/
theorem good_run (o : ServerOptions) {as : List ReactorAction}
    (hsmall : Always (step o) (fun s => s.nextConnId_ < 2 ^ 31) (init o) as) :
    Always (step o) (Good o) (init o) as :=
  always_of_always (fun _ _ _ hgood hlt ht => hgood.step hlt ht) (.init o) hsmall

/-- No object is kept that nobody refers to. -/
def Kept (s : Reactor) : Prop := ∀ id ∈ s.alive, s.referred id = true

theorem kept_reap (s : Reactor) : s.reap.Kept :=
  fun _ hid => (List.mem_filter.mp hid).2

theorem Kept.step (h : s.Kept) {a : ReactorAction} (ht : step o s a = some t) : t.Kept := by
  cases step_moves o ht with
  | poll hphase _ =>
    intro id hid
    have href := h id hid
    rw [referred, hphase] at href
    exact href
  | batch hphase =>
    intro id hid
    have href := h id hid
    rw [referred, hphase] at href
    rw [referred]
    simp only [LoopPhase.functors, List.append_nil]
    exact href
  | keep _ =>
    intro j hj
    rcases referred_iff.mp (h j hj) with hl | hu | hf
    · exact referred_iff.mpr (Or.inl hl)
    · exact referred_iff.mpr (Or.inr (Or.inl (List.mem_cons_of_mem _ hu)))
    · exact referred_iff.mpr (Or.inr (Or.inr hf))
  | _ => exact kept_reap _

/-- What the map of the server, its objects and its poller say of each other. The server is at
rest when its loop waits and nothing is queued. -/
structure Registry (o : ServerOptions) (s : Reactor) : Prop where
  entries : ∀ name id, (name, id) ∈ s.connections_ ↔
    name = o.connName id ∧ id ∈ s.alive ∧ (s.conn id).state_ ≠ .kDisConnected
  names : (s.connections_.map (·.1)).Nodup
  watched : ∀ id, s.listed id = true → ∃ e, s.poller_.interest (s.fd id) = some e ∧ e.ptr = id ∧
    Mask.has e.events EPOLLIN = true
  covered : ∀ fd, s.poller_.interest fd ≠ none ∨ s.poller_.channels_ fd ≠ none →
    fd = o.listenfd ∨ ∃ id ∈ s.alive, s.fd id = fd
  atRest : s.phase = .poll → s.pendingFuntors_ = [] →
    (∀ id ∈ s.alive, s.listed id = true ∨ id ∈ s.users) ∧
    ∀ fd, s.poller_.channels_ fd ≠ none ↔ fd = o.listenfd ∨ ∃ id, s.listed id = true ∧ s.fd id = fd

theorem Good.listed_iff_up (h : Good o s) (hid : id ∈ s.alive) :
    s.listed id = true ↔ (s.conn id).state_ ≠ .kDisConnected := by
  rcases h.staged id hid with ⟨hl, hup, -⟩ | ⟨hl, hdown, -⟩
  · have hlisted : s.listed id = true := hl
    have hne : (s.conn id).state_ ≠ .kDisConnected := by
      intro heq
      rcases hup with hs | hs
      · exact absurd (hs.symm.trans heq) (by decide)
      · exact absurd (hs.symm.trans heq) (by decide)
    exact ⟨fun _ => hne, fun _ => hlisted⟩
  · have hlisted : s.listed id = false := hl
    have heq : (s.conn id).state_ = .kDisConnected := hdown
    simp [hlisted, heq]

theorem Good.entries (h : Good o s) (name : List Byte) :
    (name, id) ∈ s.connections_ ↔
      name = o.connName id ∧ id ∈ s.alive ∧ (s.conn id).state_ ≠ .kDisConnected := by
  constructor
  · intro hm
    obtain ⟨hname, halive⟩ := h.names _ hm
    exact ⟨hname, halive, (h.listed_iff_up halive).mp (listed_iff.mpr ⟨_, hm, rfl⟩)⟩
  · rintro ⟨rfl, halive, hup⟩
    obtain ⟨⟨name, j⟩, hm, rfl⟩ := listed_iff.mp ((h.listed_iff_up halive).mpr hup)
    obtain rfl : name = o.connName j := (h.names _ hm).1
    exact hm

/-- A connection in the map is in the epoll set, under its own number and with read interest. -/
theorem Good.watched (h : Good o s) (hl : s.listed id = true) :
    ∃ e, s.poller_.interest (s.fd id) = some e ∧ e.ptr = id ∧
      Mask.has e.events EPOLLIN = true := by
  have halive := h.listed_alive hl
  have hwatch : Watching s.poller_ (s.conn id).channel_ := by
    rcases h.staged id halive with ⟨-, -, hwatch⟩ | ⟨hout, -⟩
    · exact hwatch
    · have hlisted : s.listed id = false := hout
      rw [hl] at hlisted
      cases hlisted
  refine ⟨_, (h.registered id halive).interest.trans (if_pos hwatch.index), (h.channels id halive).1,
    ?_⟩
  rw [Mask.has, bne_iff_ne]
  intro hzero
  have hbit := congrArg (BitVec.getLsbD · 0) hzero
  simp only [BitVec.getLsbD_and, hwatch.reading] at hbit
  exact absurd hbit (by decide)

theorem Good.registry (h : Good o s) (hkept : s.Kept) (hsmall : s.nextConnId_ ≤ 2 ^ 31) :
    Registry o s := by
  refine ⟨fun name id => h.entries name, ?_, fun id hl => h.watched hl, h.covered, ?_⟩
  · have hmap : s.connections_.map (·.1) = (s.connections_.map (·.2)).map o.connName := by
      rw [List.map_map]
      exact List.map_congr_left fun e he => (h.names e he).1
    rw [hmap]
    refine h.once.map_on ?_
    intro i hi j hj heq
    obtain ⟨e, he, rfl⟩ := List.mem_map.mp hi
    obtain ⟨e', he', rfl⟩ := List.mem_map.mp hj
    exact o.connName_inj ((h.numbers _ (h.names e he).2).2.trans_le hsmall)
      ((h.numbers _ (h.names e' he').2).2.trans_le hsmall) heq
  · intro hphase hempty
    have hqueue : s.queue = [] := by
      rw [queue, hphase, hempty]
      rfl
    refine ⟨?_, ?_⟩
    · intro id hid
      rcases referred_iff.mp (hkept id hid) with hl | hu | ⟨f, hf, -⟩
      · exact Or.inl hl
      · exact Or.inr hu
      · rw [hphase, hempty] at hf
        exact absurd hf List.not_mem_nil
    · intro fd
      constructor
      · intro hne
        rcases h.covered fd (Or.inr hne) with hl | ⟨id, hid, rfl⟩
        · exact Or.inl hl
        · refine Or.inr ⟨id, ?_, rfl⟩
          by_contra hl
          rcases h.closed id hid (Bool.eq_false_iff.mpr hl) with hd | hnew
          · rw [hqueue] at hd
            exact List.not_mem_nil hd
          · have hreg := (h.registered id hid).channels
            rw [hnew, if_pos rfl] at hreg
            exact hne hreg
      · rintro (rfl | ⟨id, hl, rfl⟩)
        · have hreg := h.acceptor.registered.channels
          rw [h.acceptor.index, h.acceptor.fd_] at hreg
          simp [hreg]
        · have hid := h.listed_alive hl
          obtain ⟨e, he, -⟩ := h.watched hl
          have hint := (h.registered id hid).interest
          rw [← Reactor.fd, he] at hint
          split_ifs at hint with hadded
          have hreg := (h.registered id hid).channels
          rw [← Reactor.fd, hadded] at hreg
          simp [hreg]

/-- No pointer to a channel or a connection that has ended is used, and no `epoll_ctl` fails in a
way that ends the program. -/
theorem never_dangles (o : ServerOptions) {as : List ReactorAction}
    (hsmall : Always (step o) (fun s => s.nextConnId_ < 2 ^ 31) (init o) as) :
    Always (step o) (fun s => s.fault = false ∧ s.poller_.fatal = false) (init o) as :=
  (good_run o hsmall).mono fun _ h => ⟨h.noFault, h.noFatal⟩

/-- A server that listens on 127.0.0.1:8000. -/
def localOptions : ServerOptions where
  nameArg := [104, 116, 116, 112]
  listenAddr := ⟨(127, 0, 0, 1), (31, 64)⟩
  listenfd := 3
  writeCompleteCallback_ := true
  highWaterMarkCallback_ := false

/-- Two clients; the first asks, gets its answer and a half-close, and then hangs up with urgent
data on the way, which closes its connection twice. -/
def oneSession : List ReactorAction :=
  [.poll [(3, EPOLLIN)], .handleEvent (some 5) [] .eof [] (.ok 0), .next, .next,
    .poll [(5, EPOLLIN), (3, EPOLLIN)],
    .handleEvent none [] (.bytes [71]) [.send [72, 73] (.ok 2), .shutdown] (.ok 0),
    .handleEvent (some 6) [] .eof [] (.ok 0), .next, .runFunctor (.ok 0), .runFunctor (.ok 0), .next,
    .poll [(5, EPOLLHUP ||| EPOLLPRI)], .handleEvent none [] .eof [] (.ok 0), .next,
    .runFunctor (.ok 0), .runFunctor (.ok 0), .next]

theorem never_dangles_oneSession :
    Always (step localOptions) (fun s => s.fault = false ∧ s.poller_.fatal = false)
      (init localOptions) oneSession :=
  never_dangles localOptions (by decide +kernel)

/-- In every state `connections_`, the objects and the poller agree, and at rest the poller has
the acceptor and the connections of the map, and nothing else but the two channels of the loop that
are left out here. -/
theorem registry_run (o : ServerOptions) {as : List ReactorAction}
    (hsmall : Always (step o) (fun s => s.nextConnId_ < 2 ^ 31) (init o) as) :
    Always (step o) (Registry o) (init o) as := by
  have hkept : Always (step o) Kept (init o) as :=
    always_of_step (fun _ _ _ h ht => h.step ht) (fun _ h => absurd h List.not_mem_nil) as
  exact (((good_run o hsmall).and hkept).and hsmall).mono
    fun _ h => h.1.1.registry h.1.2 (le_of_lt h.2)

theorem registry_run_oneSession :
    Always (step localOptions) (Registry localOptions) (init localOptions) oneSession :=
  registry_run localOptions (by decide +kernel)

end Reactor

end Mymuduo.Net
