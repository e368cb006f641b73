import Mymuduo.Net.ReactorSteps

namespace Mymuduo.Net

open Lib

/-- The names of connections differ: `snprintf` has room for an address and an `int`. -/
theorem ServerOptions.connName_inj (o : ServerOptions) {i j : Nat} (hi : i < 2 ^ 31) (hj : j < 2 ^ 31)
    (h : o.connName i = o.connName j) : i = j := by
  have haddr := o.listenAddr.length_toIpPort_le
  have hwhole : ∀ k, k < 2 ^ 31 → (45 :: o.listenAddr.toIpPort ++ 35 :: decimal k).take 63 =
      45 :: o.listenAddr.toIpPort ++ 35 :: decimal k := by
    intro k hk
    have hdigits : (decimal k).length ≤ 10 := length_decimal_le (by decide) (by omega)
    apply List.take_of_length_le
    simp only [List.length_append, List.length_cons]
    omega
  rw [connName, connName, hwhole i hi, hwhole j hj] at h
  exact decimal_inj (List.cons.inj (List.append_cancel_left (List.append_cancel_left h))).2

theorem Watching.congr {p q : EpollPoller} {ch : Channel} (h : Watching p ch)
    (heq : q.interest ch.fd_ = p.interest ch.fd_) : Watching q ch :=
  ⟨h.index, h.reading, heq ▸ h.interest⟩

/-- The start of a connection's life. -/
theorem TcpServer.steps_connectEstablished {m : TcpServer} (h : m.conn.Registered)
    (hun : Unwatched m.conn.poller_ m.conn.channel_) (hin : m.inConnections = true) :
    Steps m { m with conn := m.conn.connectEstablished } := by
  refine ⟨rfl, ChannelCall.call_id .enableReading m.conn.poller_ m.conn.channel_,
    ChannelCall.call_spec h .enableReading, Or.inl ⟨hin, Or.inl rfl, hun.enableReading⟩,
    fun hout => hout, [],
    (List.append_nil _).symm, List.not_mem_nil, fun hchange => absurd rfl hchange, ?_,
    fun hmem => absurd hmem List.not_mem_nil, fun pre f post hfs => absurd hfs.symm (by simp)⟩
  intro hout
  rw [hin] at hout
  cases hout

namespace Reactor

variable {o : ServerOptions} {s : Reactor} {id : Nat} {m : TcpServer}

def fd (s : Reactor) (id : Nat) : Nat := (s.conn id).channel_.fd_

/-- Behind every functor that has `this` there is a `connectDestroyed` of its connection, unless
the connection is in `connections_`. -/
def Tailed (listed : Nat → Bool) (q : List (Nat × Functor)) : Prop :=
  ∀ pre id f post, q = pre ++ (id, f) :: post → f.owns = false →
    listed id = true ∨ (id, .connectDestroyed) ∈ post

namespace Tailed

variable {listed listed' : Nat → Bool} {q r : List (Nat × Functor)} {f : Nat × Functor}

theorem nil : Tailed listed [] := by
  intro pre id f post heq
  exact absurd heq.symm (by simp)

theorem tail (h : Tailed listed (f :: q)) : Tailed listed q := by
  intro pre id g post heq howns
  exact h (f :: pre) id g post (congrArg (f :: ·) heq) howns

/-- Functors are queued, those of connections that leave `connections_` among them. -/
theorem append (h : Tailed listed q) (h' : Tailed listed' r)
    (hleft : ∀ id, listed id = true → listed' id = true ∨ (id, .connectDestroyed) ∈ r) :
    Tailed listed' (q ++ r) := by
  intro pre id f post heq howns
  rcases List.append_eq_append_iff.mp heq with ⟨mid, -, hr⟩ | ⟨mid, hq, hpost⟩
  · exact h' mid id f post hr howns
  · cases mid with
    | nil =>
      rw [List.nil_append] at hpost
      exact h' [] id f post hpost.symm howns
    | cons g mid =>
      obtain ⟨rfl, rfl⟩ := List.cons.inj hpost
      rcases h pre id f mid hq howns with hl | hd
      · exact (hleft id hl).imp_right (List.mem_append_right mid)
      · exact Or.inr (List.mem_append_left r hd)

/-- The functors that code on one connection queues. -/
theorem of_steps {n : TcpServer} {fs : List Functor} {id : Nat}
    (hraw : ∀ pre f post, fs = pre ++ f :: post → f.owns = false →
      n.inConnections = true ∨ .connectDestroyed ∈ post) (hl : listed id = n.inConnections) :
    Tailed listed (fs.map fun f => (id, f)) := by
  intro pre j f post heq howns
  obtain ⟨l, l', rfl, -, hcons⟩ := List.map_eq_append_iff.mp heq
  obtain ⟨g, l'', rfl, hg, rfl⟩ := List.map_eq_cons_iff.mp hcons
  obtain ⟨rfl, rfl⟩ := Prod.mk.inj hg
  rcases hraw l g l'' rfl howns with hin | hd
  · exact Or.inl (hl.trans hin)
  · exact Or.inr (List.mem_map.mpr ⟨_, hd, rfl⟩)

end Tailed

/-- The acceptor's channel, which the server never takes out of its poller. -/
structure Listening (o : ServerOptions) (p : EpollPoller) (ch : Channel) : Prop where
  id : ch.id = 0
  fd_ : ch.fd_ = o.listenfd
  index : ch.index_ = .kAdded
  registered : p.Registered ch ch.events_

/-- What holds at every step of the loop, but for the stage of single connections. Code on a
connection may run through `this` only while the connection is in `connections_`, or a
`connectDestroyed` that owns it is still to come. -/
structure Core (o : ServerOptions) (s : Reactor) : Prop where
  noFault : s.fault = false
  noFatal : s.poller_.fatal = false
  acceptor : Listening o s.poller_ s.acceptChannel_
  counter : 1 ≤ s.nextConnId_
  numbers : ∀ id ∈ s.alive, 1 ≤ id ∧ id < s.nextConnId_
  channels : ∀ id ∈ s.alive, (s.conn id).channel_.id = id ∧ s.fd id ≠ o.listenfd
  distinct : ∀ i ∈ s.alive, ∀ j ∈ s.alive, s.fd i = s.fd j → i = j
  registered : ∀ id ∈ s.alive,
    s.poller_.Registered (s.conn id).channel_ (s.conn id).channel_.events_
  covered : ∀ k, s.poller_.interest k ≠ none ∨ s.poller_.channels_ k ≠ none →
    k = o.listenfd ∨ ∃ id ∈ s.alive, s.fd id = k
  names : ∀ e ∈ s.connections_, e.1 = o.connName e.2 ∧ e.2 ∈ s.alive
  once : (s.connections_.map (·.2)).Nodup
  destroyed : ∀ id, (id, .connectDestroyed) ∈ s.queue → s.listed id = false
  established : ∀ id, (id, .connectEstablished) ∉ s.queue
  holders : ∀ id, s.referred id = true → id ∈ s.alive
  batch : ∃ pre, s.phase.functors = pre ++ s.phase.left
  raw : Tailed s.listed s.queue
  active : ∀ a ∈ s.phase.activeChannels_, a.1 = 0 ∨ s.listed a.1 = true ∨
    (a.1, .connectDestroyed) ∈ s.pendingFuntors_

/-- A connection that is closed is out of the poller, or will be. -/
def Closed (s : Reactor) (id : Nat) : Prop :=
  s.listed id = false → (id, .connectDestroyed) ∈ s.queue ∨ (s.conn id).channel_.index_ = .kNew

structure Good (o : ServerOptions) (s : Reactor) : Prop extends Core o s where
  staged : ∀ id ∈ s.alive, (s.view id).Staged
  closed : ∀ id ∈ s.alive, s.Closed id

theorem listed_iff : s.listed id = true ↔ ∃ e ∈ s.connections_, e.2 = id := by
  simp [listed]

theorem referred_iff : s.referred id = true ↔ s.listed id = true ∨ id ∈ s.users ∨
    ∃ f, (id, f) ∈ s.phase.functors ++ s.pendingFuntors_ ∧ f.owns = true := by
  rw [referred, Bool.or_eq_true, Bool.or_eq_true, or_assoc, List.contains_iff_mem, List.any_eq_true]
  simp only [Bool.and_eq_true, decide_eq_true_eq, Prod.exists]
  constructor
  · rintro (h | h | ⟨j, f, hf, rfl, howns⟩)
    · exact Or.inl h
    · exact Or.inr (Or.inl h)
    · exact Or.inr (Or.inr ⟨f, hf, howns⟩)
  · rintro (h | h | ⟨f, hf, howns⟩)
    · exact Or.inl h
    · exact Or.inr (Or.inl h)
    · exact Or.inr (Or.inr ⟨id, f, hf, rfl, howns⟩)

theorem Core.listed_alive (h : Core o s) (hl : s.listed id = true) : id ∈ s.alive :=
  h.holders id (referred_iff.mpr (Or.inl hl))

theorem Core.owner_alive (h : Core o s) {f : Functor} (hf : (id, f) ∈ s.queue)
    (howns : f.owns = true) : id ∈ s.alive := by
  obtain ⟨pre, hpre⟩ := h.batch
  refine h.holders id (referred_iff.mpr (Or.inr (Or.inr ⟨f, ?_, howns⟩)))
  rw [hpre, List.append_assoc]
  exact List.mem_append_right pre hf

/-- Whatever is queued is queued on an object. -/
theorem Core.queued_alive (h : Core o s) {f : Functor} (hf : (id, f) ∈ s.queue) : id ∈ s.alive := by
  cases howns : f.owns with
  | true => exact h.owner_alive hf howns
  | false =>
    obtain ⟨pre, post, hq⟩ := List.append_of_mem hf
    rcases h.raw pre id f post hq howns with hl | hd
    · exact h.listed_alive hl
    · apply h.owner_alive (f := .connectDestroyed) _ rfl
      rw [hq]
      exact List.mem_append_right pre (List.mem_cons_of_mem _ hd)

/-- The names of connections, while `nextConnId_` has not gone beyond an `int`. -/
theorem Core.name_ne (h : Core o s) (hsmall : s.nextConnId_ ≤ 2 ^ 31) {i j : Nat} (hi : i ∈ s.alive)
    (hj : j < 2 ^ 31) (hne : i ≠ j) : o.connName i ≠ o.connName j :=
  fun heq => hne (o.connName_inj ((h.numbers i hi).2.trans_le hsmall) hj heq)

section Put

/-- A name leaves the map, and with it one connection. -/
theorem Core.listed_filter (h : Core o s) (hsmall : s.nextConnId_ ≤ 2 ^ 31) (hid : id < 2 ^ 31)
    (j : Nat) : (s.connections_.filter fun e => e.1 ≠ o.connName id).any (fun e => e.2 = j) =
      (s.listed j && j ≠ id) := by
  rw [Bool.eq_iff_iff, Bool.and_eq_true, listed_iff]
  simp only [List.any_eq_true, List.mem_filter, decide_eq_true_eq]
  constructor
  · rintro ⟨e, ⟨he, hname⟩, rfl⟩
    refine ⟨⟨e, he, rfl⟩, ?_⟩
    rintro rfl
    exact hname (h.names e he).1
  · rintro ⟨⟨e, he, rfl⟩, hne⟩
    refine ⟨e, ⟨he, ?_⟩, rfl⟩
    rw [(h.names e he).1]
    exact h.name_ne hsmall (h.names e he).2 hid hne

/-- What code on one connection leaves of the server. -/
structure Placed (o : ServerOptions) (s : Reactor) (id : Nat) (m : TcpServer) (fs : List Functor) :
    Prop where
  pending : (put o s id m).pendingFuntors_ = s.pendingFuntors_ ++ fs.map fun f => (id, f)
  listedSelf : (put o s id m).listed id = m.inConnections
  listed : ∀ j, j ≠ id → (put o s id m).listed j = s.listed j
  sub : ((put o s id m).connections_).Sublist s.connections_

theorem Placed.queue {fs : List Functor} (hp : Placed o s id m fs) :
    (put o s id m).queue = s.queue ++ fs.map fun f => (id, f) := by
  rw [Reactor.queue, hp.pending, Reactor.queue, List.append_assoc]
  rfl

theorem Core.placed (h : Core o s) (hsmall : s.nextConnId_ ≤ 2 ^ 31) (hid : id ∈ s.alive)
    (hsteps : (s.view id).Steps m) {fs : List Functor}
    (hfs : m.conn.pendingFuntors_ = own id s.queue ++ fs) : Placed o s id m fs := by
  have hlt := (h.numbers id hid).2.trans_le hsmall
  have hpending : (put o s id m).pendingFuntors_ = s.pendingFuntors_ ++ fs.map fun f => (id, f) := by
    simp only [put, hfs, List.drop_left]
  by_cases hin : m.inConnections = s.listed id
  · have hmap : (put o s id m).connections_ = s.connections_ := if_pos hin
    have hlisted : ∀ j, (put o s id m).listed j = s.listed j := by
      intro j
      rw [Reactor.listed, hmap, Reactor.listed]
    exact ⟨hpending, (hlisted id).trans hin.symm, fun j _ => hlisted j, hmap ▸ List.Sublist.refl _⟩
  · have hmap : (put o s id m).connections_ =
        s.connections_.filter fun e => e.1 ≠ o.connName id := if_neg hin
    have hout : m.inConnections = false := by
      cases hl : s.listed id with
      | true =>
        rw [hl] at hin
        exact Bool.eq_false_iff.mpr hin
      | false => exact hsteps.stays hl
    have hlisted : ∀ j, (put o s id m).listed j = (s.listed j && j ≠ id) := by
      intro j
      rw [Reactor.listed, hmap]
      exact h.listed_filter hsmall hlt j
    refine ⟨hpending, ?_, ?_, hmap ▸ List.filter_sublist⟩
    · rw [hlisted, hout]
      simp
    · intro j hj
      rw [hlisted]
      simp [hj]

theorem conn_put_self : (Reactor.put o s id m).conn id = m.conn := Function.update_self _ _ _

theorem conn_put_other {j : Nat} (hne : j ≠ id) : (Reactor.put o s id m).conn j = s.conn j :=
  Function.update_of_ne hne _ _

theorem fd_put (hsteps : (s.view id).Steps m) (j : Nat) : (Reactor.put o s id m).fd j = s.fd j := by
  by_cases hj : j = id
  · rw [hj, fd, conn_put_self]
    exact hsteps.spec.fd_
  · rw [fd, conn_put_other hj]
    rfl

theorem Core.put (h : Core o s) (hsmall : s.nextConnId_ ≤ 2 ^ 31) (hid : id ∈ s.alive)
    (hsteps : (s.view id).Steps m) : Core o (put o s id m) := by
  obtain ⟨fs, hfs, hest, hleft, -, hgone, hraw⟩ := hsteps.added
  have hp := h.placed hsmall hid hsteps hfs
  have hspec : s.poller_.CallSpec (s.conn id).channel_ (m.conn.poller_, m.conn.channel_) :=
    hsteps.spec
  have hqueue := hp.queue
  have hconn : ∀ j, j ≠ id → (Reactor.put o s id m).conn j = s.conn j :=
    fun j hj => conn_put_other hj
  have hself : (Reactor.put o s id m).conn id = m.conn := conn_put_self
  have hfd : ∀ j, (Reactor.put o s id m).fd j = s.fd j := fd_put hsteps
  -- a connection that was in the map still is, or its `connectDestroyed` is among the new functors
  have hstill : ∀ j, s.listed j = true → (Reactor.put o s id m).listed j = true ∨
      (j = id ∧ .connectDestroyed ∈ fs) := by
    intro j hj
    by_cases hji : j = id
    · subst hji
      rw [hp.listedSelf]
      by_cases hin : s.listed j = m.inConnections
      · exact Or.inl (hin ▸ hj)
      · exact Or.inr ⟨rfl, hleft hin⟩
    · exact Or.inl ((hp.listed j hji).trans hj)
  have hsub : ∀ j, (Reactor.put o s id m).listed j = true → s.listed j = true := by
    intro j hj
    obtain ⟨e, he, rfl⟩ := listed_iff.mp hj
    exact listed_iff.mpr ⟨e, hp.sub.subset he, rfl⟩
  have hother : ∀ ch : Channel, ch.fd_ ≠ s.fd id → s.poller_.Registered ch ch.events_ →
      m.conn.poller_.Registered ch ch.events_ := by
    intro ch hne hr
    exact ⟨(hspec.interest ch.fd_ hne).trans hr.interest,
      (hspec.channels ch.fd_ hne).trans hr.channels⟩
  have hmem : ∀ f : Nat × Functor, f ∈ fs.map (fun f => (id, f)) → f.1 = id ∧ f.2 ∈ fs := by
    intro f hf
    obtain ⟨g, hg, rfl⟩ := List.mem_map.mp hf
    exact ⟨rfl, hg⟩
  refine ⟨h.noFault, hspec.fatal.trans h.noFatal, { h.acceptor with registered := ?_ }, h.counter,
    h.numbers, ?_, ?_, ?_, ?_, ?_, ?_, ?_, ?_, ?_, h.batch, ?_, ?_⟩
  · apply hother _ _ h.acceptor.registered
    rw [h.acceptor.fd_]
    exact (h.channels id hid).2.symm
  · intro j hj
    rw [hfd]
    refine ⟨?_, (h.channels j hj).2⟩
    by_cases hji : j = id
    · rw [hji, hself]
      exact hsteps.id.trans (h.channels id hid).1
    · rw [hconn j hji]
      exact (h.channels j hj).1
  · intro i hi j hj hij
    rw [hfd, hfd] at hij
    exact h.distinct i hi j hj hij
  · intro j hj
    by_cases hji : j = id
    · rw [hji, hself]
      exact hspec.registered
    · rw [hconn j hji]
      exact hother _ (fun he => hji (h.distinct j hj id hid he)) (h.registered j hj)
  · intro k hk
    by_cases hki : k = s.fd id
    · exact Or.inr ⟨id, hid, (hfd id).trans hki.symm⟩
    · have hk' : s.poller_.interest k ≠ none ∨ s.poller_.channels_ k ≠ none := by
        rw [← hspec.interest k hki, ← hspec.channels k hki]
        exact hk
      rcases h.covered k hk' with hl | ⟨j, hj, hjk⟩
      · exact Or.inl hl
      · exact Or.inr ⟨j, hj, (hfd j).trans hjk⟩
  · exact fun e he => h.names e (hp.sub.subset he)
  · exact h.once.sublist (hp.sub.map _)
  · intro j hj
    rw [hqueue] at hj
    rcases List.mem_append.mp hj with hj | hj
    · have hl := h.destroyed j hj
      by_contra hne
      rw [hsub j (Bool.eq_true_of_not_eq_false hne)] at hl
      cases hl
    · obtain ⟨rfl, hd⟩ := hmem _ hj
      exact hp.listedSelf.trans (hgone hd)
  · intro j hj
    rw [hqueue] at hj
    rcases List.mem_append.mp hj with hj | hj
    · exact h.established j hj
    · exact hest (hmem _ hj).2
  · intro j hj
    rcases referred_iff.mp hj with hl | hu | ⟨f, hf, howns⟩
    · exact h.listed_alive (hsub j hl)
    · exact h.holders j (referred_iff.mpr (Or.inr (Or.inl hu)))
    · rw [hp.pending, ← List.append_assoc] at hf
      rcases List.mem_append.mp hf with hf | hf
      · exact h.holders j (referred_iff.mpr (Or.inr (Or.inr ⟨f, hf, howns⟩)))
      · have hji : j = id := (hmem _ hf).1
        rw [hji]
        exact hid
  · rw [hqueue]
    refine h.raw.append (.of_steps hraw hp.listedSelf) ?_
    intro j hj
    rcases hstill j hj with hl | ⟨rfl, hd⟩
    · exact Or.inl hl
    · exact Or.inr (List.mem_map.mpr ⟨_, hd, rfl⟩)
  · intro a ha
    rcases h.active a ha with h0 | hl | hd
    · exact Or.inl h0
    · rcases hstill a.1 hl with hl' | ⟨hji, hd⟩
      · exact Or.inr (Or.inl hl')
      · refine Or.inr (Or.inr ?_)
        rw [hp.pending, hji]
        exact List.mem_append_right _ (List.mem_map.mpr ⟨_, hd, rfl⟩)
    · refine Or.inr (Or.inr ?_)
      rw [hp.pending]
      exact List.mem_append_left _ hd

/-- The stage of the connection that code has run on is what the code says. -/
theorem Core.put_staged (h : Core o s) (hsmall : s.nextConnId_ ≤ 2 ^ 31) (hid : id ∈ s.alive)
    (hsteps : (s.view id).Steps m)
    (hstaged : ∀ j ∈ s.alive, j ≠ id → (s.view j).Staged) :
    ∀ j ∈ s.alive, ((Reactor.put o s id m).view j).Staged := by
  obtain ⟨fs, hfs, -⟩ := hsteps.added
  have hp := h.placed hsmall hid hsteps hfs
  intro j hj
  by_cases hji : j = id
  · subst hji
    have hself : (Reactor.put o s j m).conn j = m.conn := conn_put_self
    have hs := hsteps.staged
    simp only [TcpServer.Staged, view, hp.listedSelf, hself] at hs ⊢
    exact hs
  · have hother : (Reactor.put o s id m).conn j = s.conn j := conn_put_other hji
    have hinterest : m.conn.poller_.interest (s.conn j).channel_.fd_ =
        s.poller_.interest (s.conn j).channel_.fd_ :=
      hsteps.spec.interest _ fun heq => hji (h.distinct j hj id hid heq)
    have hs := hstaged j hj hji
    simp only [TcpServer.Staged, view, hp.listed j hji, hother] at hs ⊢
    exact hs.imp_left fun hup => ⟨hup.1, hup.2.1, hup.2.2.congr hinterest⟩

theorem Core.put_closed (h : Core o s) (hsmall : s.nextConnId_ ≤ 2 ^ 31) (hid : id ∈ s.alive)
    (hsteps : (s.view id).Steps m)
    (hself : s.Closed id ∨ m.conn.channel_.index_ = .kNew)
    (hclosed : ∀ j ∈ s.alive, j ≠ id → s.Closed j) :
    ∀ j ∈ s.alive, (Reactor.put o s id m).Closed j := by
  obtain ⟨fs, hfs, -, hleft, hquiet, -⟩ := hsteps.added
  have hp := h.placed hsmall hid hsteps hfs
  have hqueue := hp.queue
  intro j hj hl
  rw [hqueue]
  by_cases hji : j = id
  · subst hji
    have hconn : (Reactor.put o s j m).conn j = m.conn := conn_put_self
    rw [hconn]
    rw [hp.listedSelf] at hl
    by_cases hin : s.listed j = m.inConnections
    · rcases hself with hc | hnew
      · rw [hl] at hin
        rcases hc hin with hd | hnew
        · exact Or.inl (List.mem_append_left _ hd)
        · rcases hquiet hin hnew with hnew' | hd
          · exact Or.inr hnew'
          · exact Or.inl (List.mem_append_right _ (List.mem_map.mpr ⟨_, hd, rfl⟩))
      · exact Or.inr hnew
    · exact Or.inl (List.mem_append_right _ (List.mem_map.mpr ⟨_, hleft hin, rfl⟩))
  · have hconn : (Reactor.put o s id m).conn j = s.conn j := conn_put_other hji
    rw [hp.listed j hji] at hl
    rw [hconn]
    exact (hclosed j hj hji hl).imp_left (List.mem_append_left _)

theorem Good.put (h : Good o s) (hsmall : s.nextConnId_ ≤ 2 ^ 31) (hid : id ∈ s.alive)
    (hsteps : (s.view id).Steps m) : Good o (Reactor.put o s id m) :=
  ⟨h.toCore.put hsmall hid hsteps,
    h.toCore.put_staged hsmall hid hsteps fun j hj _ => h.staged j hj,
    h.toCore.put_closed hsmall hid hsteps (Or.inl (h.closed id hid)) fun j hj _ => h.closed j hj⟩

end Put

section Create

variable {fd : Nat}

theorem freeFd_iff : s.freeFd o fd = true ↔ fd ≠ o.listenfd ∧ ∀ id ∈ s.alive, s.fd id ≠ fd := by
  simp [freeFd, Reactor.fd]

theorem Core.listed_create (h : Core o s) (hsmall : s.nextConnId_ < 2 ^ 31) (j : Nat) :
    (create o s fd).listed j = (s.listed j || j = s.nextConnId_) := by
  have hfilter := h.listed_filter hsmall.le hsmall j
  have hcons : (create o s fd).listed j = (decide (s.nextConnId_ = j) ||
      (s.connections_.filter fun e => e.1 ≠ o.connName s.nextConnId_).any fun e => e.2 = j) := rfl
  rw [hcons, hfilter]
  by_cases hj : j = s.nextConnId_
  · simp [hj]
  · simp [hj, Ne.symm hj]

/-- An fd that the kernel gives out is in neither the epoll set nor the map. -/
theorem Good.free_unregistered (h : Good o s) (hfree : s.freeFd o fd = true) :
    s.poller_.interest fd = none ∧ s.poller_.channels_ fd = none := by
  obtain ⟨hlisten, hfree⟩ := freeFd_iff.mp hfree
  by_contra hne
  rw [not_and_or] at hne
  rcases h.covered fd hne with hl | ⟨id, hid, he⟩
  · exact hlisten hl
  · exact hfree id hid he

/-- The connection that the constructor has made, before `connectEstablished`. -/
theorem Good.create (h : Good o s) (hsmall : s.nextConnId_ < 2 ^ 31) (hfree : s.freeFd o fd = true) :
    Core o (create o s fd) := by
  have hnone := h.free_unregistered hfree
  obtain ⟨hlisten, hfree⟩ := freeFd_iff.mp hfree
  have hfresh : ∀ id ∈ s.alive, id ≠ s.nextConnId_ := fun id hid => (h.numbers id hid).2.ne
  have hconn : ∀ id, id ≠ s.nextConnId_ → (Reactor.create o s fd).conn id = s.conn id :=
    fun id hid => Function.update_of_ne hid _ _
  have hself : ((Reactor.create o s fd).conn s.nextConnId_).channel_ =
      Channel.new s.nextConnId_ fd := by
    simp [Reactor.create]
  have hfd : ∀ id ∈ s.alive, (Reactor.create o s fd).fd id = s.fd id := by
    intro id hid
    rw [Reactor.fd, hconn id (hfresh id hid), Reactor.fd]
  have hfdself : (Reactor.create o s fd).fd s.nextConnId_ = fd := by
    rw [Reactor.fd, hself]
    rfl
  have hold : ∀ id, s.listed id = true → (Reactor.create o s fd).listed id = true := by
    intro id hl
    rw [h.listed_create hsmall, hl]
    rfl
  refine ⟨h.noFault, h.noFatal, h.acceptor, Nat.le_succ_of_le h.counter, ?_, ?_, ?_, ?_, ?_, ?_, ?_,
    ?_, h.established, ?_, h.batch, ?_, ?_⟩
  · intro id hid
    rcases List.mem_cons.mp hid with rfl | hid
    · exact ⟨h.counter, Nat.lt_succ_self _⟩
    · exact ⟨(h.numbers id hid).1, Nat.lt_succ_of_lt (h.numbers id hid).2⟩
  · intro id hid
    rcases List.mem_cons.mp hid with rfl | hid
    · rw [hself, hfdself]
      exact ⟨rfl, hlisten⟩
    · rw [hconn id (hfresh id hid), hfd id hid]
      exact h.channels id hid
  · intro i hi j hj hij
    rcases List.mem_cons.mp hi with rfl | hi <;> rcases List.mem_cons.mp hj with rfl | hj
    · rfl
    · rw [hfdself, hfd j hj] at hij
      exact absurd hij.symm (hfree j hj)
    · rw [hfdself, hfd i hi] at hij
      exact absurd hij (hfree i hi)
    · rw [hfd i hi, hfd j hj] at hij
      exact h.distinct i hi j hj hij
  · intro id hid
    rcases List.mem_cons.mp hid with rfl | hid
    · rw [hself]
      exact ⟨hnone.1, hnone.2⟩
    · rw [hconn id (hfresh id hid)]
      exact h.registered id hid
  · intro k hk
    rcases h.covered k hk with hl | ⟨id, hid, he⟩
    · exact Or.inl hl
    · exact Or.inr ⟨id, List.mem_cons_of_mem _ hid, (hfd id hid).trans he⟩
  · intro e he
    rcases List.mem_cons.mp he with rfl | he
    · exact ⟨rfl, List.mem_cons_self⟩
    · obtain ⟨hname, halive⟩ := h.names e (List.mem_of_mem_filter he)
      exact ⟨hname, List.mem_cons_of_mem _ halive⟩
  · refine List.nodup_cons.mpr ⟨?_, h.once.sublist (List.filter_sublist.map _)⟩
    intro hm
    obtain ⟨e, he, heq⟩ := List.mem_map.mp hm
    exact hfresh e.2 (h.names e (List.mem_of_mem_filter he)).2 heq
  · intro id hid
    have hne := hfresh id (h.queued_alive hid)
    rw [h.listed_create hsmall, h.destroyed id hid]
    simp [hne]
  · intro id hid
    rcases referred_iff.mp hid with hl | hu
    · rw [h.listed_create hsmall, Bool.or_eq_true, decide_eq_true_eq] at hl
      rcases hl with hl | rfl
      · exact List.mem_cons_of_mem _ (h.listed_alive hl)
      · exact List.mem_cons_self
    · exact List.mem_cons_of_mem _ (h.holders id (referred_iff.mpr (Or.inr hu)))
  · have hnil : Tailed (Reactor.create o s fd).listed [] := .nil
    have hq := h.raw.append hnil (fun id hl => Or.inl (hold id hl))
    rw [List.append_nil] at hq
    exact hq
  · intro a ha
    exact (h.active a ha).imp_right (Or.imp_left (hold a.1))

theorem Good.unwatched_create (h : Good o s) (hfree : s.freeFd o fd = true) :
    Unwatched s.poller_ ((Reactor.create o s fd).conn s.nextConnId_).channel_ := by
  have hself : ((Reactor.create o s fd).conn s.nextConnId_).channel_ =
      Channel.new s.nextConnId_ fd := by
    simp [Reactor.create]
  rw [hself]
  exact ⟨by simp [Channel.new], rfl, (h.free_unregistered hfree).1⟩

theorem Core.listed_new (h : Core o s) (hsmall : s.nextConnId_ < 2 ^ 31) (fd : Nat) :
    (Reactor.create o s fd).listed s.nextConnId_ = true := by
  rw [h.listed_create hsmall]
  simp

theorem Core.create_other (h : Core o s) (hsmall : s.nextConnId_ < 2 ^ 31) (fd : Nat)
    (hne : id ≠ s.nextConnId_) : (Reactor.create o s fd).conn id = s.conn id ∧
      (Reactor.create o s fd).listed id = s.listed id := by
  refine ⟨Function.update_of_ne hne _ _, ?_⟩
  rw [h.listed_create hsmall]
  simp [hne]

theorem Core.view_create (h : Core o s) (hsmall : s.nextConnId_ < 2 ^ 31) (fd : Nat)
    (hne : id ≠ s.nextConnId_) : (Reactor.create o s fd).view id = s.view id := by
  obtain ⟨hconn, hl⟩ := h.create_other hsmall fd hne
  rw [view, hconn, hl]
  rfl

/-- `connectEstablished` of the new connection, and what user code then does. -/
theorem Good.steps_new (h : Good o s) (hsmall : s.nextConnId_ < 2 ^ 31)
    (hfree : s.freeFd o fd = true) (onConnection : List UserCall) :
    TcpServer.Steps ((Reactor.create o s fd).view s.nextConnId_)
      (((Reactor.create o s fd).view s.nextConnId_).onConn fun c =>
        c.connectEstablished.messageCallback onConnection) := by
  have hreg := (h.create hsmall hfree).registered s.nextConnId_ List.mem_cons_self
  have hup := TcpServer.steps_connectEstablished
    (m := (Reactor.create o s fd).view s.nextConnId_) hreg (h.unwatched_create hfree)
    (h.listed_new hsmall fd)
  exact hup.trans
    (hup.staged.acts (TcpConnection.messageCallback_acts hup.registered onConnection))

theorem Good.newConnection (h : Good o s) (hsmall : s.nextConnId_ < 2 ^ 31)
    (hfree : s.freeFd o fd = true) (onConnection : List UserCall) :
    Good o (newConnection o s fd onConnection) := by
  have hcore := h.create hsmall hfree
  have hid : s.nextConnId_ ∈ (Reactor.create o s fd).alive := List.mem_cons_self
  have hsteps := h.steps_new hsmall hfree onConnection
  have hle : (Reactor.create o s fd).nextConnId_ ≤ 2 ^ 31 := hsmall
  refine ⟨hcore.put hle hid hsteps, hcore.put_staged hle hid hsteps ?_,
    hcore.put_closed hle hid hsteps (Or.inl ?_) ?_⟩
  · intro j hj hne
    rw [h.view_create hsmall fd hne]
    exact h.staged j ((List.mem_cons.mp hj).resolve_left hne)
  · intro hl
    rw [h.listed_new hsmall fd] at hl
    cases hl
  · intro j hj hne hl
    obtain ⟨hconn, hl'⟩ := h.create_other hsmall fd hne
    rw [hl'] at hl
    rw [hconn]
    exact h.closed j ((List.mem_cons.mp hj).resolve_left hne) hl

end Create

section Reap

/-- Nothing of an object that ends is left in the poller or the epoll set. -/
theorem Good.unregistered (h : Good o s) (hid : id ∈ s.alive) (href : s.referred id = false) :
    s.poller_.interest (s.fd id) = none ∧ s.poller_.channels_ (s.fd id) = none := by
  have hout : ¬ (s.listed id = true ∨ id ∈ s.users ∨
      ∃ f, (id, f) ∈ s.phase.functors ++ s.pendingFuntors_ ∧ f.owns = true) := by
    rw [← referred_iff, href]
    exact Bool.false_ne_true
  rw [not_or, not_or] at hout
  have hnew : (s.conn id).channel_.index_ = .kNew := by
    rcases h.closed id hid (Bool.eq_false_iff.mpr hout.1) with hd | hnew
    · obtain ⟨pre, hpre⟩ := h.batch
      refine absurd ⟨.connectDestroyed, ?_, rfl⟩ hout.2.2
      rw [hpre, List.append_assoc]
      exact List.mem_append_right pre hd
    · exact hnew
  have hreg := h.registered id hid
  exact ⟨by rw [fd, hreg.interest, hnew]; rfl, by rw [fd, hreg.channels, hnew]; rfl⟩

theorem Good.reap_poller (h : Good o s) : s.reap.poller_ = s.poller_ := by
  have hinterest : s.reap.poller_.interest = s.poller_.interest := by
    funext k
    simp only [reap]
    split_ifs with hdead
    · obtain ⟨id, hid, heq⟩ := List.any_eq_true.mp hdead
      obtain ⟨halive, href⟩ := List.mem_filter.mp hid
      have hnone := (h.unregistered halive (by simpa using href)).1
      rw [fd, of_decide_eq_true heq] at hnone
      exact hnone.symm
    · rfl
  have hsame : s.reap.poller_ = { s.poller_ with interest := s.reap.poller_.interest } := rfl
  rw [hsame, hinterest]

theorem Good.reap (h : Good o s) : Good o s.reap := by
  have hsub : ∀ id ∈ s.reap.alive, id ∈ s.alive := fun id hid => List.mem_of_mem_filter hid
  have hkept : ∀ id ∈ s.alive, s.referred id = true → id ∈ s.reap.alive :=
    fun id hid href => List.mem_filter.mpr ⟨hid, href⟩
  have hpoller := h.reap_poller
  refine ⟨⟨h.noFault, ?_, ?_, h.counter, fun id hid => h.numbers id (hsub id hid),
    fun id hid => h.channels id (hsub id hid),
    fun i hi j hj => h.distinct i (hsub i hi) j (hsub j hj), ?_, ?_, ?_, h.once, h.destroyed,
    h.established, fun id href => hkept id (h.holders id href) href, h.batch, h.raw, h.active⟩,
    ?_, fun id hid => h.closed id (hsub id hid)⟩
  · rw [hpoller]
    exact h.noFatal
  · rw [hpoller]
    exact h.acceptor
  · intro id hid
    rw [hpoller]
    exact h.registered id (hsub id hid)
  · intro k hk
    rw [hpoller] at hk
    rcases h.covered k hk with hl | ⟨id, hid, rfl⟩
    · exact Or.inl hl
    · refine Or.inr ⟨id, hkept id hid ?_, rfl⟩
      by_contra href
      obtain ⟨hi, hc⟩ := h.unregistered hid (Bool.eq_false_iff.mpr href)
      rcases hk with hk | hk
      · exact hk hi
      · exact hk hc
  · intro e he
    obtain ⟨hname, halive⟩ := h.names e he
    refine ⟨hname, hkept e.2 halive (referred_iff.mpr (Or.inl ?_))⟩
    exact listed_iff.mpr ⟨e, he, rfl⟩
  · intro id hid
    have hs := h.staged id (hsub id hid)
    simp only [TcpServer.Staged, view, hpoller] at hs ⊢
    exact hs

end Reap

end Reactor

end Mymuduo.Net
