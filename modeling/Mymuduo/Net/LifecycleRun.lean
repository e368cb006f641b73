import Mymuduo.Net.Lifecycle

namespace Mymuduo.Net

open Lib

namespace TcpConnection

/-- What the start of a connection's life does. -/
theorem connectEstablished_fields {c : TcpConnection} (h : Unwatched c.poller_ c.channel_) :
    c.connectEstablished.state_ = .kConnected ∧
      c.connectEstablished.calls = c.calls ++ [.connectionCallback true] ∧
      c.connectEstablished.pendingFuntors_ = c.pendingFuntors_ ∧
      Watching c.connectEstablished.poller_ c.connectEstablished.channel_ :=
  ⟨rfl, rfl, rfl, h.enableReading⟩

theorem handleClose_fields {c : TcpConnection} (h : Watching c.poller_ c.channel_) :
    c.handleClose.state_ = .kDisConnected ∧
      c.handleClose.calls = c.calls ++ [.connectionCallback false, .closeCallback] ∧
      c.handleClose.pendingFuntors_ = c.pendingFuntors_ ∧
      Unwatched c.handleClose.poller_ c.handleClose.channel_ :=
  ⟨rfl, by simp [handleClose, call, onChannel, connected], rfl, h.disableAll⟩

/-- What the end of a connection's life does to a connection that is up. -/
theorem connectDestroyed_of_up {c : TcpConnection} (hs : c.state_ = .kConnected)
    (h : Watching c.poller_ c.channel_) :
    c.connectDestroyed.state_ = .kDisConnected ∧
      c.connectDestroyed.calls = c.calls ++ [.connectionCallback false] ++ [.channelRemoved] ∧
      c.connectDestroyed.pendingFuntors_ = c.pendingFuntors_ ∧
      Unwatched c.connectDestroyed.poller_ c.connectDestroyed.channel_ := by
  simp only [connectDestroyed, hs, if_true]
  exact ⟨rfl, rfl, rfl, h.disableAll.remove⟩

/-- And to one that has been closed. -/
theorem connectDestroyed_of_down {c : TcpConnection} (hs : c.state_ = .kDisConnected)
    (h : Unwatched c.poller_ c.channel_) :
    c.connectDestroyed.state_ = .kDisConnected ∧
      c.connectDestroyed.calls = c.calls ++ [.channelRemoved] ∧
      c.connectDestroyed.pendingFuntors_ = c.pendingFuntors_ ∧
      Unwatched c.connectDestroyed.poller_ c.connectDestroyed.channel_ := by
  have hne : c.state_ ≠ .kConnected := by simp [hs]
  simp only [connectDestroyed, hne, if_false]
  exact ⟨hs, rfl, rfl, h.remove⟩

end TcpConnection

namespace TcpServer

@[simp] theorem ups_append (xs ys : List Call) : ups (xs ++ ys) = ups xs ++ ups ys :=
  List.filterMap_append

@[simp] theorem ups_halfCloses (k : Nat) : ups (List.replicate k .shutdownWrite) = [] := by
  simp [ups]

/-- Every removal of the channel comes after both callbacks. -/
def DownBeforeRemoved (calls : List Call) : Prop :=
  ∀ pre post, calls = pre ++ .channelRemoved :: post → ups pre = [true, false]

theorem DownBeforeRemoved.append {calls more : List Call} (h : DownBeforeRemoved calls)
    (hm : .channelRemoved ∉ more) : DownBeforeRemoved (calls ++ more) := by
  intro pre post heq
  rcases List.append_eq_append_iff.mp heq with ⟨mid, -, hmore⟩ | ⟨mid, hcalls, hpost⟩
  · exact absurd (by simp [hmore]) hm
  · cases mid with
    | nil =>
      rw [List.nil_append] at hpost
      exact absurd (by simp [← hpost]) hm
    | cons x mid =>
      obtain ⟨rfl, -⟩ := List.cons.inj hpost
      exact h pre mid hcalls

theorem DownBeforeRemoved.remove {calls : List Call} (h : DownBeforeRemoved calls)
    (hu : ups calls = [true, false]) : DownBeforeRemoved (calls ++ [.channelRemoved]) := by
  intro pre post heq
  rcases List.append_eq_append_iff.mp heq with ⟨mid, hpre, hmore⟩ | ⟨mid, hcalls, hpost⟩
  · cases mid with
    | nil =>
      rw [hpre, List.append_nil]
      exact hu
    | cons x mid => simp at hmore
  · cases mid with
    | nil =>
      rw [List.append_nil] at hcalls
      rw [← hcalls]
      exact hu
    | cons x mid =>
      obtain ⟨rfl, -⟩ := List.cons.inj hpost
      exact h pre mid hcalls

/-- Accepted, with `connectEstablished` at the head of its loop's queue. -/
structure Fresh (m : TcpServer) : Prop where
  state : m.conn.state_ = .kConnecting
  calls : ups m.conn.calls = [] ∧ m.conn.calls.count .closeCallback = 0 ∧
    m.conn.calls.count .channelRemoved = 0
  pending : ∃ fs, m.conn.pendingFuntors_ = .connectEstablished :: fs ∧ .connectEstablished ∉ fs
  unwatched : Unwatched m.conn.poller_ m.conn.channel_
  away : m.sameLoop = false
  removals : m.removals = 0
  listed : m.alive = true → m.inConnections = true

/-- Established and not yet closed. -/
structure Up (m : TcpServer) : Prop where
  state : m.conn.state_ = .kConnected ∨ m.conn.state_ = .kDisConnecting
  calls : ups m.conn.calls = [true] ∧ m.conn.calls.count .closeCallback = 0 ∧
    m.conn.calls.count .channelRemoved = 0
  pending : .connectEstablished ∉ m.conn.pendingFuntors_
  watching : Watching m.conn.poller_ m.conn.channel_
  home : m.sameLoop = true → m.alive = true
  removals : m.removals = 0
  listed : m.alive = true → m.inConnections = true

/-- Closed, and perhaps destroyed. -/
structure Down (m : TcpServer) : Prop where
  state : m.conn.state_ = .kDisConnected
  calls : ups m.conn.calls = [true, false] ∧ m.conn.calls.count .closeCallback ≤ 1
  pending : .connectEstablished ∉ m.conn.pendingFuntors_
  unwatched : Unwatched m.conn.poller_ m.conn.channel_
  removals : m.removals ≤ 1
  listed : m.alive = true → 0 < m.removals → m.inConnections = true

theorem Up.not_down {m : TcpServer} (h : m.Up) : ¬ m.Down := by
  intro hd
  rcases h.state with hs | hs <;> simp [hd.state] at hs

/-- The number of `connectDestroyed` runs that are done, queued, or owed by the entry in
`connections_`. -/
def destructions (m : TcpServer) : Nat :=
  m.conn.pendingFuntors_.count .connectDestroyed + m.conn.calls.count .channelRemoved +
    m.inConnections.toNat

structure Managed (m : TcpServer) : Prop where
  once : m.destructions = 1
  entry : m.inConnections = true → m.alive = true
  removed : DownBeforeRemoved m.conn.calls
  stage : m.Fresh ∨ m.Up ∨ m.Down

theorem Managed.lifecycle {m : TcpServer} (h : m.Managed) : Lifecycle m.conn.calls := by
  have hone := h.once
  unfold destructions at hone
  refine ⟨?_, h.removed, ?_, by omega⟩
  · rcases h.stage with hs | hs | hs
    · simp [hs.calls.1]
    · simp [hs.calls.1]
    · simp [hs.calls.1]
  · rcases h.stage with hs | hs | hs
    · simp [hs.calls.2.1]
    · simp [hs.calls.2.1]
    · exact hs.calls.2

/-- The lists that decide the stage, after code that touches neither end of the life. -/
theorem keeps_lists {c d : TcpConnection} (k : Keeps c d) :
    ups d.calls = ups c.calls ∧ d.calls.count .closeCallback = c.calls.count .closeCallback ∧
      d.calls.count .channelRemoved = c.calls.count .channelRemoved ∧
      d.pendingFuntors_.count .connectDestroyed = c.pendingFuntors_.count .connectDestroyed ∧
      (.connectEstablished ∈ d.pendingFuntors_ → .connectEstablished ∈ c.pendingFuntors_) := by
  obtain ⟨i, hi⟩ := k.calls
  obtain ⟨fs, hfs, hf⟩ := k.pending
  have hd : fs.count .connectDestroyed = 0 :=
    List.count_eq_zero.mpr fun hm => (hf _ hm).2 rfl
  refine ⟨?_, ?_, ?_, ?_, ?_⟩
  · simp [hi]
  · simp [hi, List.count_replicate]
  · simp [hi, List.count_replicate]
  · simp [hfs, hd]
  · intro hm
    rw [hfs] at hm
    rcases List.mem_append.mp hm with hm | hm
    · exact hm
    · exact absurd rfl (hf _ hm).1

theorem Managed.keeps {m : TcpServer} (h : m.Managed) {d : TcpConnection} (k : Keeps m.conn d) :
    { m with conn := d }.Managed := by
  obtain ⟨hu, hclose, hrem, hdes, hest⟩ := keeps_lists k
  obtain ⟨i, hi⟩ := k.calls
  refine ⟨?_, h.entry, ?_, ?_⟩
  · have hone := h.once
    unfold destructions at hone ⊢
    simp only [hrem, hdes]
    exact hone
  · change DownBeforeRemoved d.calls
    rw [hi]
    exact h.removed.append (by simp [List.mem_replicate])
  · rcases h.stage with hs | hs | hs
    · obtain ⟨fs, hfs, hnot⟩ := hs.pending
      obtain ⟨gs, hgs, hg⟩ := k.pending
      refine Or.inl ⟨?_, ?_, ⟨fs ++ gs, ?_, ?_⟩, k.unwatched hs.unwatched, hs.away, hs.removals,
        hs.listed⟩
      · rcases k.state with ks | ⟨ks, -⟩
        · exact ks.trans hs.state
        · rw [hs.state] at ks
          cases ks
      · simp only [hu, hclose, hrem]
        exact hs.calls
      · simp [hgs, hfs]
      · intro hm
        rcases List.mem_append.mp hm with hm | hm
        · exact hnot hm
        · exact absurd rfl (hg _ hm).1
    · refine Or.inr (Or.inl ⟨?_, ?_, fun hm => hs.pending (hest hm), k.watching hs.watching,
        hs.home, hs.removals, hs.listed⟩)
      · rcases k.state with ks | ⟨-, ks⟩
        · simp only [ks]
          exact hs.state
        · exact Or.inr ks
      · simp only [hu, hclose, hrem]
        exact hs.calls
    · refine Or.inr (Or.inr ⟨?_, ?_, fun hm => hs.pending (hest hm), k.unwatched hs.unwatched,
        hs.removals, hs.listed⟩)
      · rcases k.state with ks | ⟨ks, -⟩
        · exact ks.trans hs.state
        · rw [hs.state] at ks
          cases ks
      · simp only [hu, hclose]
        exact hs.calls

/-- The loop takes a functor that is not one of the ends of the life from its queue. -/
theorem Managed.dequeue {m : TcpServer} (h : m.Managed) {f : Functor} {fs : List Functor}
    (hp : m.conn.pendingFuntors_ = f :: fs)
    (hf : f ≠ .connectEstablished ∧ f ≠ .connectDestroyed) :
    { m with conn := { m.conn with pendingFuntors_ := fs } }.Managed := by
  refine ⟨?_, h.entry, h.removed, ?_⟩
  · have hone := h.once
    unfold destructions at hone ⊢
    rw [hp, List.count_cons_of_ne hf.2] at hone
    exact hone
  · rcases h.stage with hs | hs | hs
    · obtain ⟨gs, hgs, -⟩ := hs.pending
      rw [hp] at hgs
      exact absurd (List.cons.inj hgs).1 hf.1
    · have hnot := hs.pending
      rw [hp] at hnot
      exact Or.inr (Or.inl ⟨hs.state, hs.calls, fun hm => hnot (List.mem_cons_of_mem f hm),
        hs.watching, hs.home, hs.removals, hs.listed⟩)
    · have hnot := hs.pending
      rw [hp] at hnot
      exact Or.inr (Or.inr ⟨hs.state, hs.calls, fun hm => hnot (List.mem_cons_of_mem f hm),
        hs.unwatched, hs.removals, hs.listed⟩)

/-- The loop runs `connectEstablished`. -/
theorem Managed.establish {m : TcpServer} (h : m.Managed) {fs : List Functor}
    (hp : m.conn.pendingFuntors_ = .connectEstablished :: fs) :
    { m with conn :=
      TcpConnection.connectEstablished { m.conn with pendingFuntors_ := fs } }.Managed := by
  have hs : m.Fresh := by
    rcases h.stage with hs | hs | hs
    · exact hs
    · exact absurd (by simp [hp]) hs.pending
    · exact absurd (by simp [hp]) hs.pending
  obtain ⟨gs, hgs, hnot⟩ := hs.pending
  obtain rfl : fs = gs := by
    rw [hp] at hgs
    exact (List.cons.inj hgs).2
  obtain ⟨hstate, hcalls, hpend, hwatch⟩ :=
    TcpConnection.connectEstablished_fields (c := { m.conn with pendingFuntors_ := fs }) hs.unwatched
  have hold := hs.calls
  refine ⟨?_, h.entry, ?_, Or.inr (Or.inl ⟨Or.inl hstate, ?_, ?_, hwatch, ?_, hs.removals,
    hs.listed⟩)⟩
  · have hone := h.once
    unfold destructions at hone ⊢
    rw [hp] at hone
    simpa [hcalls, hpend] using hone
  · simp only [hcalls]
    exact h.removed.append (by simp)
  · simp only [hcalls, ups_append, List.count_append, hold]
    exact ⟨rfl, rfl, rfl⟩
  · simp only [hpend]
    exact hnot
  · intro hsame
    rw [hs.away] at hsame
    cases hsame

/-- What `connectDestroyed` leaves of an established connection that no `shutdown` waits on. -/
theorem connectDestroyed_spec {m : TcpServer} (h : m.Managed) (hs : m.Up ∨ m.Down)
    (hne : m.conn.state_ ≠ .kDisConnecting) (fs : List Functor) {d : TcpConnection}
    (hd : d = TcpConnection.connectDestroyed { m.conn with pendingFuntors_ := fs }) :
    d.state_ = .kDisConnected ∧ ups d.calls = [true, false] ∧
      d.calls.count .closeCallback ≤ 1 ∧
      d.calls.count .channelRemoved = m.conn.calls.count .channelRemoved + 1 ∧
      DownBeforeRemoved d.calls ∧ d.pendingFuntors_ = fs ∧ Unwatched d.poller_ d.channel_ := by
  rcases hs with hs | hs
  · have hup : m.conn.state_ = .kConnected := hs.state.resolve_right hne
    obtain ⟨hstate, hcalls, hpend, hun⟩ :=
      TcpConnection.connectDestroyed_of_up (c := { m.conn with pendingFuntors_ := fs }) hup hs.watching
    rw [← hd] at hstate hcalls hpend hun
    have hold := hs.calls
    have hups : ups (m.conn.calls ++ [.connectionCallback false]) = [true, false] := by
      simp only [ups_append, hold]
      rfl
    refine ⟨hstate, ?_, ?_, ?_, ?_, hpend, hun⟩
    · rw [hcalls, ups_append, hups]
      rfl
    · simp [hcalls, hold]
    · simp [hcalls]
    · rw [hcalls]
      exact (h.removed.append (by simp)).remove hups
  · obtain ⟨hstate, hcalls, hpend, hun⟩ := TcpConnection.connectDestroyed_of_down
      (c := { m.conn with pendingFuntors_ := fs }) hs.state hs.unwatched
    rw [← hd] at hstate hcalls hpend hun
    have hold := hs.calls
    refine ⟨hstate, ?_, ?_, ?_, ?_, hpend, hun⟩
    · rw [hcalls, ups_append, hold.1]
      rfl
    · simp [hcalls, hold.2]
    · simp [hcalls]
    · rw [hcalls]
      exact h.removed.remove hold.1

/-- The loop runs a queued `connectDestroyed`. -/
theorem Managed.runDestroyed {m : TcpServer} (h : m.Managed) {fs : List Functor}
    (hp : m.conn.pendingFuntors_ = .connectDestroyed :: fs)
    (hne : m.conn.state_ ≠ .kDisConnecting) :
    { m with conn :=
      TcpConnection.connectDestroyed { m.conn with pendingFuntors_ := fs } }.Managed := by
  have hs : m.Up ∨ m.Down := by
    rcases h.stage with hs | hs
    · obtain ⟨gs, hgs, -⟩ := hs.pending
      rw [hp] at hgs
      cases (List.cons.inj hgs).1
    · exact hs
  obtain ⟨hstate, hups, hclose, hrem, hdown, hpend, hun⟩ := connectDestroyed_spec h hs hne fs rfl
  have hone := h.once
  unfold destructions at hone
  rw [hp, List.count_cons_self] at hone
  refine ⟨?_, h.entry, hdown, Or.inr (Or.inr ⟨hstate, ⟨hups, hclose⟩, ?_, hun, ?_, ?_⟩)⟩
  · unfold destructions
    simp only [hpend, hrem]
    omega
  · simp only [hpend]
    rcases hs with hs | hs
    · exact fun hm => hs.pending (by simp [hp, hm])
    · exact fun hm => hs.pending (by simp [hp, hm])
  · rcases hs with hs | hs
    · simp [hs.removals]
    · exact hs.removals
  · rcases hs with hs | hs
    · intro _ hpos
      rw [show m.removals = 0 from hs.removals] at hpos
      exact absurd hpos (lt_irrefl 0)
    · exact hs.listed

/-- Queueing a `connectDestroyed` in place of the entry in `connections_`. -/
theorem Managed.queueDestroyed {m : TcpServer} (h : m.Managed) (hin : m.inConnections = true)
    (alive : Bool) (removals : Nat) (hr : removals ≤ m.removals)
    (hlisted : alive = true → removals = 0 ∧ m.Down) (haway : m.sameLoop = true → m.Down) :
    TcpServer.Managed { m with
      conn := m.conn.queueInLoop .connectDestroyed, alive := alive, inConnections := false,
      removals := removals } := by
  have hone := h.once
  unfold destructions at hone
  refine ⟨?_, by simp, h.removed, ?_⟩
  · unfold destructions
    simp only [TcpConnection.queueInLoop, List.count_append, List.count_singleton_self,
      Bool.toNat_false]
    simp only [hin, Bool.toNat_true] at hone
    omega
  · rcases h.stage with hs | hs | hs
    · obtain ⟨fs, hfs, hnot⟩ := hs.pending
      refine Or.inl ⟨hs.state, hs.calls, ⟨fs ++ [.connectDestroyed], ?_, ?_⟩, hs.unwatched, hs.away,
        Nat.le_zero.mp (hs.removals ▸ hr), ?_⟩
      · simp [TcpConnection.queueInLoop, hfs]
      · simp [hnot]
      · intro ha
        have hbad := (hlisted ha).2.state
        rw [hs.state] at hbad
        cases hbad
    · refine Or.inr (Or.inl ⟨hs.state, hs.calls, ?_, hs.watching, ?_,
        Nat.le_zero.mp (hs.removals ▸ hr), ?_⟩)
      · simp [TcpConnection.queueInLoop, hs.pending]
      · exact fun hsame => absurd (haway hsame) hs.not_down
      · exact fun ha => absurd (hlisted ha).2 hs.not_down
    · refine Or.inr (Or.inr ⟨hs.state, hs.calls, ?_, hs.unwatched, hr.trans hs.removals, ?_⟩)
      · simp [TcpConnection.queueInLoop, hs.pending]
      · intro ha hpos
        rw [show removals = 0 from (hlisted ha).1] at hpos
        exact absurd hpos (lt_irrefl 0)

/-- The server's destructor. -/
theorem Managed.destroy {m : TcpServer} (h : m.Managed)
    (hne : m.inConnections = true → m.sameLoop = true → m.conn.state_ ≠ .kDisConnecting) :
    m.destroy.Managed := by
  by_cases hin : m.inConnections = true
  · by_cases hsame : m.sameLoop = true
    · have heq : m.destroy = { m with
          conn := m.conn.connectDestroyed, alive := false, inConnections := false } := by
        simp [TcpServer.destroy, hin, hsame, onConn]
      rw [heq]
      have hs : m.Up ∨ m.Down := by
        rcases h.stage with hs | hs
        · rw [hs.away] at hsame
          cases hsame
        · exact hs
      obtain ⟨hstate, hups, hclose, hrem, hdown, hpend, hun⟩ :=
        connectDestroyed_spec h hs (hne hin hsame) m.conn.pendingFuntors_ rfl
      have hone := h.once
      unfold destructions at hone
      refine ⟨?_, by simp, hdown, Or.inr (Or.inr ⟨hstate, ⟨hups, hclose⟩, ?_, hun, ?_, by simp⟩)⟩
      · unfold destructions
        simp only [hin, Bool.toNat_true] at hone
        simp only [hpend, hrem, Bool.toNat_false]
        omega
      · simp only [hpend]
        rcases hs with hs | hs
        · exact hs.pending
        · exact hs.pending
      · rcases hs with hs | hs
        · simp [hs.removals]
        · exact hs.removals
    · have heq : m.destroy = { m with
          conn := m.conn.queueInLoop .connectDestroyed, alive := false, inConnections := false } := by
        simp [TcpServer.destroy, hin, hsame, onConn]
      rw [heq]
      exact h.queueDestroyed hin false m.removals le_rfl (by simp) fun hs => absurd hs hsame
  · have heq : m.destroy = { m with alive := false } := if_neg hin
    rw [heq]
    refine ⟨h.once, fun hi => absurd hi hin, h.removed, ?_⟩
    rcases h.stage with hs | hs | hs
    · exact Or.inl ⟨hs.state, hs.calls, hs.pending, hs.unwatched, hs.away, hs.removals, by simp⟩
    · have haway : m.sameLoop ≠ true := fun hsame => hin (hs.listed (hs.home hsame))
      exact Or.inr (Or.inl ⟨hs.state, hs.calls, hs.pending, hs.watching,
        fun hsame => absurd hsame haway, hs.removals, by simp⟩)
    · exact Or.inr (Or.inr ⟨hs.state, hs.calls, hs.pending, hs.unwatched, hs.removals, by simp⟩)

/-- The base loop runs `removeConnectionInLoop` for a server that is alive. -/
theorem Managed.baseLoop {m : TcpServer} (h : m.Managed) (hpos : 0 < m.removals)
    (halive : m.alive = true) :
    { m with removals := m.removals - 1 }.removeConnectionInLoop.Managed := by
  have hs : m.Down := by
    rcases h.stage with hs | hs | hs
    · exact absurd hs.removals (Nat.pos_iff_ne_zero.mp hpos)
    · exact absurd hs.removals (Nat.pos_iff_ne_zero.mp hpos)
    · exact hs
  have hle := hs.removals
  exact h.queueDestroyed (hs.listed halive hpos) m.alive (m.removals - 1) (Nat.sub_le _ _)
    (fun _ => ⟨by omega, hs⟩) fun _ => hs

/-- A close of a connection that is up, before `closeCallback_` has its effect. -/
theorem closed_spec {m : TcpServer} (h : m.Managed) (hs : m.Up) (removals : Nat)
    (hr : removals ≤ 1) :
    { m with conn := m.conn.handleClose, removals := removals }.Managed ∧
      { m with conn := m.conn.handleClose, removals := removals }.Down := by
  obtain ⟨hstate, hcalls, hpend, hun⟩ := TcpConnection.handleClose_fields hs.watching
  have hold := hs.calls
  have hone := h.once
  unfold destructions at hone
  have hd : { m with conn := m.conn.handleClose, removals := removals }.Down := by
    refine ⟨hstate, ⟨?_, ?_⟩, ?_, hun, hr, fun ha _ => hs.listed ha⟩
    · simp only [hcalls, ups_append, hold]
      rfl
    · simp [hcalls, hold.2.1]
    · simp only [hpend]
      exact hs.pending
  refine ⟨⟨?_, h.entry, ?_, Or.inr (Or.inr hd)⟩, hd⟩
  · unfold destructions
    simpa [hcalls, hpend] using hone
  · simp only [hcalls]
    exact h.removed.append (by simp)

theorem Managed.handleClose {m : TcpServer} (h : m.Managed) (hs : m.Up) :
    m.handleClose.Managed := by
  by_cases hsame : m.sameLoop = true
  · have heq : m.handleClose = { m with
        conn := m.conn.handleClose.queueInLoop .connectDestroyed, inConnections := false } :=
      if_pos hsame
    obtain ⟨hm, hd⟩ := closed_spec h hs m.removals (by simp [hs.removals])
    rw [heq]
    exact hm.queueDestroyed (hs.listed (hs.home hsame)) m.alive m.removals le_rfl
      (fun _ => ⟨hs.removals, hd⟩) fun _ => hd
  · have heq : m.handleClose = { m with
        conn := m.conn.handleClose, removals := m.removals + 1 } := if_neg hsame
    rw [heq]
    exact (closed_spec h hs (m.removals + 1) (by simp [hs.removals])).1

theorem Managed.handleRead {m : TcpServer} (h : m.Managed) (e : ChannelEvent)
    (he : e.readResult = .eof → m.Up) : (m.handleRead e).Managed := by
  unfold TcpServer.handleRead
  cases hr : e.readResult with
  | bytes data =>
    have hb : Keeps m.conn { m.conn with inputBuffer_ := m.conn.inputBuffer_.append data } :=
      Keeps.of_same rfl rfl rfl rfl rfl
    exact h.keeps (hb.trans (TcpConnection.messageCallback_keeps _ e.onMessage))
  | eof => exact h.handleClose (he hr)
  | error savedErrno => exact h

/-- One event of the channel, unless it closes the connection twice. -/
theorem Managed.handleEvent {m : TcpServer} (h : m.Managed) (hs : m.Up) (e : ChannelEvent)
    (he : hangsUp e = true → reads e = true → e.readResult ≠ .eof) :
    (m.handleEventWithGuard e).Managed := by
  have hread : (readBranch e (closeBranch e m)).Managed := by
    unfold readBranch closeBranch
    by_cases hhup : hangsUp e = true
    · rw [if_pos hhup]
      split_ifs with hr
      · exact (h.handleClose hs).handleRead e fun heof => absurd heof (he hhup hr)
      · exact h.handleClose hs
    · rw [if_neg hhup]
      split_ifs with hr
      · exact h.handleRead e fun _ => hs
      · exact h
  unfold handleEventWithGuard writeBranch
  split_ifs
  · exact hread.keeps (TcpConnection.handleWrite_keeps _ e.answer)
  · exact hread

theorem Managed.runFunctor {m : TcpServer} (h : m.Managed) (answer : Except Errno Nat)
    {f : Functor} {fs : List Functor} (hp : m.conn.pendingFuntors_ = f :: fs)
    (hne : f = .connectDestroyed → m.conn.state_ ≠ .kDisConnecting) :
    { m with conn :=
      TcpConnection.runFunctor { m.conn with pendingFuntors_ := fs } answer f }.Managed := by
  by_cases hest : f = .connectEstablished
  · subst hest
    exact h.establish hp
  by_cases hdes : f = .connectDestroyed
  · subst hdes
    exact h.runDestroyed hp (hne rfl)
  · exact (h.dequeue hp ⟨hest, hdes⟩).keeps (TcpConnection.runFunctor_keeps _ answer ⟨hest, hdes⟩)

theorem managed_newConnection (fd : Nat) (writeComplete highWater sameLoop : Bool) :
    (newConnection fd writeComplete highWater sameLoop).Managed := by
  have hun : Unwatched (TcpConnection.new fd writeComplete highWater).poller_
    (TcpConnection.new fd writeComplete highWater).channel_ := Unwatched.new fd fd
  have hremoved : ∀ calls : List Call, .channelRemoved ∉ calls → DownBeforeRemoved calls := by
    intro calls hno pre post he
    subst he
    simp at hno
  cases sameLoop with
  | true =>
    exact ⟨rfl, fun _ => rfl, hremoved _ (by simp [newConnection, TcpConnection.connectEstablished,
      TcpConnection.call, TcpConnection.onChannel, TcpConnection.new]),
      Or.inr (Or.inl ⟨Or.inl rfl, ⟨rfl, rfl, rfl⟩, by simp [newConnection,
        TcpConnection.connectEstablished, TcpConnection.call, TcpConnection.onChannel,
        TcpConnection.new], hun.enableReading, fun _ => rfl, rfl, fun _ => rfl⟩)⟩
  | false =>
    exact ⟨rfl, fun _ => rfl, hremoved _ (by simp [newConnection, TcpConnection.queueInLoop,
      TcpConnection.new]), Or.inl ⟨rfl, ⟨rfl, rfl, rfl⟩, ⟨[], rfl, by simp⟩, hun, rfl, rfl,
        fun _ => rfl⟩⟩

/-- One orderly step. -/
theorem managed_step {m n : TcpServer} {e : ServerEvent} (h : m.Managed) (hn : m.step e = some n)
    (ho : m.Orderly e) : n.Managed := by
  obtain ⟨hev, hdes, hbase⟩ := ho
  cases e with
  | runFunctor answer =>
    cases hp : m.conn.pendingFuntors_ with
    | nil => simp [step, hp] at hn
    | cons f fs =>
      obtain rfl := by simpa [step, hp] using hn
      apply h.runFunctor answer hp
      intro he
      subst he
      exact hdes (by simp [destroys, hp])
  | channel ev =>
    simp only [step] at hn
    split_ifs at hn with hreg
    obtain rfl := Option.some.inj hn
    have hs : m.Up := by
      rcases h.stage with hs | hs | hs
      · simp [registered, hs.unwatched.interest] at hreg
      · exact hs
      · simp [registered, hs.unwatched.interest] at hreg
    exact h.handleEvent hs ev (hev ev rfl)
  | send inLoopThread data answer =>
    obtain rfl := Option.some.inj hn
    exact h.keeps (TcpConnection.send_keeps _ inLoopThread data answer)
  | shutdown =>
    obtain rfl := Option.some.inj hn
    exact h.keeps (TcpConnection.shutdown_keeps _)
  | baseLoop =>
    simp only [step] at hn
    split_ifs at hn with hpos
    obtain rfl := Option.some.inj hn
    exact h.baseLoop hpos (hbase rfl)
  | destroy =>
    simp only [step] at hn
    split_ifs at hn
    obtain rfl := Option.some.inj hn
    exact h.destroy fun hin hsame => hdes (by simp [destroys, hin, hsame])

/-- Along every run of orderly steps: one callback for the connection coming up, then one
for its going down before its channel is removed, at most one close, and at most one
`connectDestroyed`. -/
theorem lifecycle_of_orderly (fd : Nat) (writeComplete highWater sameLoop : Bool)
    (es : List ServerEvent)
    (h : Each step Orderly (newConnection fd writeComplete highWater sameLoop) es) :
    Always step (fun m => Lifecycle m.conn.calls)
      (newConnection fd writeComplete highWater sameLoop) es := by
  have hinv : Always step Managed (newConnection fd writeComplete highWater sameLoop) es :=
    always_of_each (fun m e n hm hn ho => managed_step hm hn ho)
      (managed_newConnection fd writeComplete highWater sameLoop) h
  exact hinv.mono fun m hm => hm.lifecycle

/-- A close on the base loop's own connection, up to its destruction. -/
theorem lifecycle_of_orderly_eof :
    Always step (fun m => Lifecycle m.conn.calls) (newConnection 7 false false true)
      [.channel ⟨EPOLLIN, .eof, [], .ok 0⟩, .runFunctor (.ok 0)] := by
  apply lifecycle_of_orderly
  intro m hm
  have hreg : (newConnection 7 false false true).registered = true := by decide
  simp only [step, hreg, if_true] at hm
  obtain rfl := Option.some.inj hm
  refine ⟨⟨?_, fun _ => by decide, fun h => by cases h⟩, ?_⟩
  · intro ev hev hhup
    cases hev
    exact absurd hhup (by decide)
  · intro n hn
    refine ⟨⟨?_, fun _ => by decide, fun h => by cases h⟩, trivial⟩
    intro ev hev
    cases hev

/-- The two branches of `handleEventWithGuard` both close a connection that hangs up with
an end of file on urgent data. -/
theorem closes_twice {m : TcpServer} (hs : m.Up) {e : ChannelEvent} (hhup : hangsUp e = true)
    (hr : reads e = true) (he : e.readResult = .eof) :
    (m.handleEventWithGuard e).conn.calls.count .closeCallback = 2 := by
  have hcalls (n : TcpServer) : n.handleClose.conn.calls =
      n.conn.calls ++ [.connectionCallback false, .closeCallback] := by
    have hconn : n.conn.handleClose.calls =
        n.conn.calls ++ [.connectionCallback false, .closeCallback] := by
      simp [TcpConnection.handleClose, TcpConnection.call, TcpConnection.onChannel,
        TcpConnection.connected]
    unfold TcpServer.handleClose removeConnection
    split_ifs <;> exact hconn
  have hread : (readBranch e (closeBranch e m)).conn.calls.count .closeCallback = 2 := by
    simp [readBranch, closeBranch, hhup, hr, TcpServer.handleRead, he, hcalls, hs.calls.2.1]
  unfold handleEventWithGuard writeBranch
  split_ifs
  · exact (keeps_lists (TcpConnection.handleWrite_keeps _ e.answer)).2.1.trans hread
  · exact hread

/-- `connectDestroyed` tests for `kConnected` alone, so after `shutdown` it removes the
channel of a connection whose user never hears that it went down. -/
theorem destroyed_unannounced {c : TcpConnection} (hs : c.state_ = .kDisConnecting)
    (hu : ups c.calls = [true]) : ¬ Lifecycle c.connectDestroyed.calls := by
  intro h
  have hne : c.state_ ≠ .kConnected := by simp [hs]
  have hcalls : c.connectDestroyed.calls = c.calls ++ [.channelRemoved] := by
    simp only [TcpConnection.connectDestroyed, hne, if_false]
    rfl
  have hdown := h.downBeforeRemoved c.calls [] hcalls
  rw [hu] at hdown
  cases hdown

/-- The user shuts a connection down and the server is destroyed before the peer closes. -/
theorem shutdown_then_destroy_unannounced :
    ¬ Always step (fun m => Lifecycle m.conn.calls) (newConnection 7 false false true)
      [.shutdown, .destroy] := by
  intro h
  have h1 : (newConnection 7 false false true).step .shutdown = some _ := rfl
  have h2 : ((newConnection 7 false false true).onConn TcpConnection.shutdown).step .destroy =
      some ((newConnection 7 false false true).onConn TcpConnection.shutdown).destroy := rfl
  exact destroyed_unannounced
    (c := ((newConnection 7 false false true).onConn TcpConnection.shutdown).conn) rfl rfl
    ((h.2 _ h1).2 _ h2)

end TcpServer

end Mymuduo.Net
