import Mymuduo.Net.EpollPoller
import Mymuduo.Net.TcpConnection

namespace Mymuduo.Net

open Lib

/-- What `epoll_wait` reports for an entry: of what has occurred, what was asked for, and errors
and hang-ups in any case. -/
def EpollEvent.reported (e : EpollEvent) (occurred : Mask) : Mask :=
  occurred &&& (e.events ||| EPOLLERR ||| EPOLLHUP)

namespace EpollPoller

/-- The `data.ptr` and the `events` that `epoll_wait` fills in for an fd, if any. -/
def wait (p : EpollPoller) (fd : Nat) (occurred : Mask) : Option (Nat × Mask) :=
  (p.interest fd).bind fun e =>
    if e.reported occurred = 0 then none else some (e.ptr, e.reported occurred)

/-- A peer can always hang up. -/
theorem reported_hangup (e : EpollEvent) : e.reported EPOLLHUP ≠ 0 := by
  have habsorb : e.reported EPOLLHUP = EPOLLHUP := by
    rw [EpollEvent.reported]
    ext i
    simp only [BitVec.getElem_and, BitVec.getElem_or]
    cases EPOLLHUP[i] <;> simp
  rw [habsorb]
  decide

/-- What is in the set can be reported, whatever its mask. -/
theorem wait_none_iff {p : EpollPoller} {fd : Nat} :
    (∀ occurred, p.wait fd occurred = none) ↔ p.interest fd = none := by
  constructor
  · intro h
    by_contra hne
    obtain ⟨e, he⟩ := Option.ne_none_iff_exists'.mp hne
    have hup := h EPOLLHUP
    rw [wait, he, Option.bind_some, if_neg (reported_hangup e)] at hup
    exact Option.some_ne_none _ hup
  · intro h occurred
    rw [wait, h, Option.bind_none]

end EpollPoller

namespace ChannelCall

/-- The call takes the last interest away, or finds none and gives none. -/
def withdraws (c : ChannelCall) (events : Mask) : Bool :=
  match c with
  | disableReading => events &&& ~~~Channel.kReadEvent == Channel.kNoneEvent
  | disableWriting => events &&& ~~~Channel.kWriteEvent == Channel.kNoneEvent
  | disableAll => true
  | _ => false

/-- The one branch of `updateChannel` that looks at the mask is for a channel that is added. -/
theorem updateChannel_unlisted_iff (p : EpollPoller) (ch : Channel) (m : Mask) :
    ((p.updateChannel { ch with events_ := m }).2.isNonEvents = true →
      (p.updateChannel { ch with events_ := m }).2.index_ ≠ .kAdded) ↔
      (m = Channel.kNoneEvent → ch.index_ = .kAdded) := by
  rw [EpollPoller.updateChannel_eq]
  by_cases hm : m = Channel.kNoneEvent
  · cases ch.index_ <;> simp [EpollPoller.updateIndex, Channel.isNonEvents, hm]
  · simp [Channel.isNonEvents, hm]

theorem or_ne_none {m bits : Mask} (hbits : bits ≠ Channel.kNoneEvent) :
    m ||| bits ≠ Channel.kNoneEvent := by
  intro h
  exact hbits (BitVec.or_eq_zero_iff.mp h).2

/-- A call leaves its channel without interest and added only if it finds it not added. -/
theorem call_unlisted_iff (c : ChannelCall) (p : EpollPoller) (ch : Channel) :
    ((c.call p ch).2.isNonEvents = true → (c.call p ch).2.index_ ≠ .kAdded) ↔
      (c.withdraws ch.events_ = true → ch.index_ = .kAdded) := by
  have henable : ∀ bits, bits ≠ Channel.kNoneEvent →
      (p.updateChannel { ch with events_ := ch.events_ ||| bits }).2.isNonEvents = true →
      (p.updateChannel { ch with events_ := ch.events_ ||| bits }).2.index_ ≠ .kAdded := by
    intro bits hbits
    exact (updateChannel_unlisted_iff p ch _).mpr (fun hm => absurd hm (or_ne_none hbits))
  cases c with
  | enableReading =>
    exact iff_of_true (henable Channel.kReadEvent (by decide)) (fun h => absurd h Bool.false_ne_true)
  | enableWriting =>
    exact iff_of_true (henable Channel.kWriteEvent (by decide)) (fun h => absurd h Bool.false_ne_true)
  | disableReading =>
    rw [withdraws, beq_iff_eq]
    exact updateChannel_unlisted_iff p ch (ch.events_ &&& ~~~Channel.kReadEvent)
  | disableWriting =>
    rw [withdraws, beq_iff_eq]
    exact updateChannel_unlisted_iff p ch (ch.events_ &&& ~~~Channel.kWriteEvent)
  | disableAll =>
    have h := updateChannel_unlisted_iff p ch Channel.kNoneEvent
    simpa [call, Channel.disableAll, withdraws] using h
  | remove => simp [call, Channel.remove, EpollPoller.removeChannel, withdraws]

end ChannelCall

/-- `handleClose` silences a channel that is in the epoll set, and puts one back that is not: so it
does when it is called twice. -/
theorem TcpConnection.handleClose_silences_iff {c : TcpConnection}
    (h : c.poller_.Registered c.channel_ c.channel_.events_) :
    (∀ occurred, c.handleClose.poller_.wait c.channel_.fd_ occurred = none) ↔
      c.channel_.index_ = .kAdded := by
  have hspec := ChannelCall.call_spec h .disableAll
  have hinterest := hspec.registered.interest
  rw [hspec.fd_] at hinterest
  have hunlisted := ChannelCall.call_unlisted_iff .disableAll c.poller_ c.channel_
  have hnone : (ChannelCall.disableAll.call c.poller_ c.channel_).2.isNonEvents = true := by
    rw [Channel.isNonEvents, ChannelCall.call, Channel.disableAll,
      EpollPoller.updateChannel_events, beq_self_eq_true]
  simp only [hnone, ChannelCall.withdraws, forall_const] at hunlisted
  rw [EpollPoller.wait_none_iff, ← hunlisted]
  change (ChannelCall.disableAll.call c.poller_ c.channel_).1.interest _ = none ↔ _
  rw [hinterest]
  simp

namespace Pollees

variable {K : Type}

/-- A channel without interest is not in the epoll set, and nothing is reported to it. -/
def Silent (s : Pollees K) : Prop :=
  ∀ k, (s.channel k).events_ = Channel.kNoneEvent →
    s.poller.interest (s.channel k).fd_ = none ∧
      ∀ occurred, s.poller.wait (s.channel k).fd_ occurred = none

/-- A call that withdraws all interest is made while the channel is in the epoll set. -/
def Keeps (s : Pollees K) (a : K × ChannelCall) : Prop :=
  a.2.withdraws (s.channel a.1).events_ = true → (s.channel a.1).index_ = .kAdded

instance (s : Pollees K) (a : K × ChannelCall) : Decidable (s.Keeps a) :=
  inferInstanceAs (Decidable (_ → _))

theorem Inv.silent_iff {s : Pollees K} (h : s.Inv) :
    s.Silent ↔ ∀ k, (s.channel k).isNonEvents = true → (s.channel k).index_ ≠ .kAdded := by
  apply forall_congr'
  intro k
  rw [EpollPoller.wait_none_iff, and_self, (h.registered k).interest, Channel.isNonEvents,
    beq_iff_eq]
  simp

variable [DecidableEq K]

/-- A step keeps the channels silent exactly when it does not withdraw too late or too early. -/
theorem silent_step {s t : Pollees K} {a : K × ChannelCall} (h : s.Inv) (hs : s.Silent)
    (ht : s.step a = some t) : t.Silent ↔ s.Keeps a := by
  have htinv : t.Inv := inv_step h ht
  obtain ⟨k, c⟩ := a
  rw [h.silent_iff] at hs
  rw [htinv.silent_iff, Keeps, ← c.call_unlisted_iff s.poller (s.channel k)]
  simp only [step, h.alive, Bool.false_eq_true, if_false] at ht
  obtain rfl := Option.some.inj ht
  constructor
  · intro hall
    have hk := hall k
    simp only [Function.update_self] at hk
    exact hk
  · intro hk i
    by_cases hi : i = k
    · subst hi
      simp only [Function.update_self]
      exact hk
    · simp only [Function.update_of_ne hi]
      exact hs i

/-- `updateChannel` adds a channel that is new or deleted without a look at its mask. So a channel
that has withdrawn all interest stays out of the epoll set exactly in the runs that never withdraw
it while it is out of the set. -/
theorem withdrawn_silent_iff {channel : K → Channel}
    (hfd : ∀ i j, (channel i).fd_ = (channel j).fd_ → i = j)
    (hnew : ∀ k, (channel k).index_ = .kNew) (as : List (K × ChannelCall)) :
    Always step Silent (init channel) as ↔ Each step Keeps (init channel) as := by
  have hinv := inv_init hfd hnew
  apply always_iff_each (I := Inv)
  · intro s a t h _ ht _
    exact inv_step h ht
  · intro s a t h hs ht
    exact silent_step h hs ht
  · exact hinv
  · rw [hinv.silent_iff]
    intro k _
    have hk : ((init channel).channel k).index_ = .kNew := hnew k
    simp [hk]

/-- Two channels that withdraw their interest once each. -/
theorem withdrawn_silent_once :
    Always step Silent (init fun k : Bool => Channel.new k.toNat (k.toNat + 3))
      [(false, .enableReading), (true, .enableWriting), (false, .enableWriting),
        (false, .disableReading), (false, .disableWriting), (true, .disableAll),
        (true, .enableReading), (true, .disableReading), (true, .remove)] :=
  (withdrawn_silent_iff (by decide) (by decide) _).mpr (by decide)

/-- The second `disableAll` finds the channel deleted, and adds it again. -/
theorem withdrawn_twice_listed :
    ¬ Always step Silent (init fun _ : Unit => Channel.new 7 5)
      [((), .enableReading), ((), .disableAll), ((), .disableAll)] := by
  intro h
  have hsilent := (((h.2 _ rfl).2 _ rfl).2 _ rfl) () rfl
  exact Option.some_ne_none _ hsilent.1

end Pollees

end Mymuduo.Net
