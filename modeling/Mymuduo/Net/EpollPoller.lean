import Mymuduo.Lib.Run
import Mymuduo.Net.Channel

namespace Mymuduo.Net

open Lib

namespace EpollPoller

def hasChannel (p : EpollPoller) (ch : Channel) : Bool := p.channels_ ch.fd_ == some ch.id

/-- The operation of the `epoll_ctl` that `updateChannel` issues. -/
def updateOp (ch : Channel) : EpollOp :=
  match ch.index_ with
  | .kAdded => if ch.isNonEvents then .DEL else .MOD
  | _ => .ADD

/-- The poller's map after `updateChannel`. -/
def updateMap (p : EpollPoller) (ch : Channel) : EpollPoller :=
  match ch.index_ with
  | .kNew => { p with channels_ := Function.update p.channels_ ch.fd_ (some ch.id) }
  | _ => p

def updateIndex (ch : Channel) : Index :=
  match ch.index_ with
  | .kAdded => if ch.isNonEvents then .kDeleted else .kAdded
  | _ => .kAdded

/-- `updateChannel` changes the map and issues one `epoll_ctl`. -/
theorem updateChannel_eq (p : EpollPoller) (ch : Channel) :
    p.updateChannel ch =
      ((p.updateMap ch).update (updateOp ch) ch, { ch with index_ := updateIndex ch }) := by
  obtain ⟨id, fd, events, index⟩ := ch
  cases index with
  | kNew => rfl
  | kDeleted => rfl
  | kAdded =>
    rw [updateChannel, updateOp, updateIndex, updateMap]
    cases Channel.isNonEvents ⟨id, fd, events, .kAdded⟩ <;> simp

/-- The operation of the `epoll_ctl` that `removeChannel` issues, if any. -/
def removeOp (ch : Channel) : Option EpollOp := if ch.index_ = .kAdded then some .DEL else none

theorem removeChannel_eq (p : EpollPoller) (ch : Channel) :
    p.removeChannel ch =
      (match removeOp ch with
        | some op =>
          update { p with channels_ := Function.update p.channels_ ch.fd_ none } op ch
        | none => { p with channels_ := Function.update p.channels_ ch.fd_ none },
      { ch with index_ := .kNew }) := by
  rw [removeChannel, removeOp]
  split_ifs <;> rfl

/-- The channel is in the epoll set exactly when it is added, with the given mask and its own
address, and in the map exactly when it is not new. -/
structure Registered (p : EpollPoller) (ch : Channel) (mask : Mask) : Prop where
  interest : p.interest ch.fd_ = if ch.index_ = .kAdded then some ⟨mask, ch.id⟩ else none
  channels : p.channels_ ch.fd_ = if ch.index_ = .kNew then none else some ch.id

/-- The kernel takes the operation. -/
def Legal (p : EpollPoller) (op : EpollOp) (fd : Nat) : Prop :=
  match op with
  | .ADD => p.interest fd = none
  | _ => p.interest fd ≠ none

theorem update_of_legal {p : EpollPoller} {op : EpollOp} {ch : Channel} (h : p.Legal op ch.fd_) :
    p.update op ch = { p with
      interest := Function.update p.interest ch.fd_
        (if op = .DEL then none else some ⟨ch.events_, ch.id⟩) } := by
  unfold update epollCtl
  cases op with
  | ADD =>
    have hnone : p.interest ch.fd_ = none := h
    simp [hnone]
  | MOD =>
    obtain ⟨e, he⟩ := Option.ne_none_iff_exists'.mp h
    simp [he]
  | DEL =>
    obtain ⟨e, he⟩ := Option.ne_none_iff_exists'.mp h
    simp [he]

theorem legal_updateOp {p : EpollPoller} {ch : Channel} {mask : Mask} (h : p.Registered ch mask) :
    p.Legal (updateOp ch) ch.fd_ := by
  have hinterest := h.interest
  rw [updateOp]
  cases hi : ch.index_ with
  | kAdded =>
    simp only [hi, if_true] at hinterest ⊢
    split_ifs <;> simp [Legal, hinterest]
  | _ => simpa [hi, Legal] using hinterest

theorem legal_removeOp {p : EpollPoller} {ch : Channel} {mask : Mask} (h : p.Registered ch mask)
    {op : EpollOp} (hop : removeOp ch = some op) : p.Legal op ch.fd_ := by
  have hinterest := h.interest
  rw [removeOp] at hop
  split_ifs at hop with hadded
  obtain rfl := Option.some.inj hop
  simp [Legal, hinterest, hadded]

/-- What a call on the channel `ch` leaves: it is registered as it then is, and nothing
changes for another fd. -/
structure CallSpec (p : EpollPoller) (ch : Channel) (r : EpollPoller × Channel) : Prop where
  registered : r.1.Registered r.2 r.2.events_
  fd_ : r.2.fd_ = ch.fd_
  fatal : r.1.fatal = p.fatal
  interest : ∀ fd, fd ≠ ch.fd_ → r.1.interest fd = p.interest fd
  channels : ∀ fd, fd ≠ ch.fd_ → r.1.channels_ fd = p.channels_ fd

theorem updateMap_fields (p : EpollPoller) (ch : Channel) :
    (p.updateMap ch).interest = p.interest ∧ (p.updateMap ch).fatal = p.fatal ∧
      ∀ fd, fd ≠ ch.fd_ → (p.updateMap ch).channels_ fd = p.channels_ fd := by
  rw [updateMap]
  split
  · refine ⟨rfl, rfl, ?_⟩
    intro fd hfd
    exact Function.update_of_ne hfd _ _
  · exact ⟨rfl, rfl, fun _ _ => rfl⟩

theorem updateChannel_spec {p : EpollPoller} {ch : Channel} {mask : Mask}
    (h : p.Registered ch mask) : CallSpec p ch (p.updateChannel ch) := by
  obtain ⟨hint, hfatal, hmap⟩ := updateMap_fields p ch
  have hlegal : (p.updateMap ch).Legal (updateOp ch) ch.fd_ := by
    have hl := legal_updateOp h
    unfold Legal at hl ⊢
    rw [hint]
    exact hl
  have hchannels := h.channels
  rw [updateChannel_eq, update_of_legal hlegal]
  constructor
  · constructor
    · cases hi : ch.index_ with
      | kAdded => cases hn : ch.isNonEvents <;> simp [updateOp, updateIndex, hi, hn]
      | _ => simp [updateOp, updateIndex, hi]
    · cases hi : ch.index_ with
      | kAdded => cases hn : ch.isNonEvents <;> simp [updateMap, updateIndex, hi, hn, hchannels]
      | _ => simp [updateMap, updateIndex, hi, hchannels]
  · rfl
  · exact hfatal
  · intro fd hfd
    rw [← hint]
    exact Function.update_of_ne hfd _ _
  · exact hmap

theorem removeChannel_spec {p : EpollPoller} {ch : Channel} {mask : Mask}
    (h : p.Registered ch mask) : CallSpec p ch (p.removeChannel ch) := by
  have hinterest := h.interest
  have hmap : ∀ fd, fd ≠ ch.fd_ →
      Function.update p.channels_ ch.fd_ none fd = p.channels_ fd := by
    intro fd hfd
    exact Function.update_of_ne hfd _ _
  rw [removeChannel_eq]
  cases hop : removeOp ch with
  | none =>
    have hi : ch.index_ ≠ .kAdded := by simpa [removeOp] using hop
    rw [if_neg hi] at hinterest
    refine ⟨⟨?_, ?_⟩, rfl, rfl, fun _ _ => rfl, hmap⟩
    · simpa using hinterest
    · simp
  | some op =>
    have hlegal : Legal { p with channels_ := Function.update p.channels_ ch.fd_ none } op ch.fd_ :=
      legal_removeOp h hop
    have hdel : op = .DEL := by
      rw [removeOp] at hop
      split_ifs at hop
      exact (Option.some.inj hop).symm
    subst hdel
    simp only [update_of_legal hlegal, if_true]
    refine ⟨⟨?_, ?_⟩, rfl, rfl, ?_, hmap⟩
    · simp
    · simp
    · intro fd hfd
      exact Function.update_of_ne hfd _ _

end EpollPoller

/-- The calls on a channel that reach its poller. -/
inductive ChannelCall where
  | enableReading
  | disableReading
  | enableWriting
  | disableWriting
  | disableAll
  | remove
  deriving DecidableEq

namespace ChannelCall

def call (c : ChannelCall) (p : EpollPoller) (ch : Channel) : EpollPoller × Channel :=
  match c with
  | enableReading => ch.enableReading p
  | disableReading => ch.disableReading p
  | enableWriting => ch.enableWriting p
  | disableWriting => ch.disableWriting p
  | disableAll => ch.disableAll p
  | remove => ch.remove p

/-- The operation of the `epoll_ctl` that a call issues, if any. -/
def ctl (c : ChannelCall) (ch : Channel) : Option EpollOp :=
  match c with
  | enableReading =>
    some (EpollPoller.updateOp { ch with events_ := ch.events_ ||| Channel.kReadEvent })
  | disableReading =>
    some (EpollPoller.updateOp { ch with events_ := ch.events_ &&& ~~~Channel.kReadEvent })
  | enableWriting =>
    some (EpollPoller.updateOp { ch with events_ := ch.events_ ||| Channel.kWriteEvent })
  | disableWriting =>
    some (EpollPoller.updateOp { ch with events_ := ch.events_ &&& ~~~Channel.kWriteEvent })
  | disableAll => some (EpollPoller.updateOp { ch with events_ := Channel.kNoneEvent })
  | remove => EpollPoller.removeOp ch

theorem call_spec {p : EpollPoller} {ch : Channel} (h : p.Registered ch ch.events_)
    (c : ChannelCall) : p.CallSpec ch (c.call p ch) := by
  have hupdate : ∀ m, p.CallSpec ch (p.updateChannel { ch with events_ := m }) := by
    intro m
    have hm : p.Registered { ch with events_ := m } ch.events_ := ⟨h.interest, h.channels⟩
    have hspec := EpollPoller.updateChannel_spec hm
    exact ⟨hspec.registered, hspec.fd_, hspec.fatal, hspec.interest, hspec.channels⟩
  cases c with
  | remove => exact EpollPoller.removeChannel_spec h
  | _ => exact hupdate _

theorem legal_ctl {p : EpollPoller} {ch : Channel} (h : p.Registered ch ch.events_)
    {c : ChannelCall} {op : EpollOp} (hop : c.ctl ch = some op) : p.Legal op ch.fd_ := by
  have hupdate : ∀ m, p.Legal (EpollPoller.updateOp { ch with events_ := m }) ch.fd_ := by
    intro m
    have hm : p.Registered { ch with events_ := m } ch.events_ := ⟨h.interest, h.channels⟩
    exact EpollPoller.legal_updateOp hm
  cases c with
  | remove => exact EpollPoller.legal_removeOp h hop
  | _ =>
    obtain rfl := Option.some.inj hop
    exact hupdate _

end ChannelCall

/-- A poller with the channels `K` that share it. -/
structure Pollees (K : Type) where
  poller : EpollPoller
  channel : K → Channel

namespace Pollees

variable {K : Type}

def init (channel : K → Channel) : Pollees K := ⟨EpollPoller.init, channel⟩

/-- What the poller, the kernel and the channels agree on. -/
def Synced (s : Pollees K) : Prop :=
  s.poller.fatal = false ∧ ∀ k,
    (s.poller.interest (s.channel k).fd_ ≠ none ↔ (s.channel k).index_ = .kAdded) ∧
    (∀ e, s.poller.interest (s.channel k).fd_ = some e →
      e.events = (s.channel k).events_ ∧ e.ptr = (s.channel k).id) ∧
    (s.poller.hasChannel (s.channel k) = true ↔ (s.channel k).index_ ≠ .kNew) ∧
    ∀ c op, ChannelCall.ctl c (s.channel k) = some op → s.poller.Legal op (s.channel k).fd_

variable [DecidableEq K]

/-- A call on the channel `k`; after `LOG_FAT` there is no process any more. -/
def step (s : Pollees K) (a : K × ChannelCall) : Option (Pollees K) :=
  if s.poller.fatal then none
  else
    let (p, ch) := a.2.call s.poller (s.channel a.1)
    some ⟨p, Function.update s.channel a.1 ch⟩

omit [DecidableEq K] in
/-- The invariant behind `Synced`. -/
structure Inv (s : Pollees K) : Prop where
  alive : s.poller.fatal = false
  distinct : ∀ i j, (s.channel i).fd_ = (s.channel j).fd_ → i = j
  registered : ∀ k, s.poller.Registered (s.channel k) (s.channel k).events_

omit [DecidableEq K] in
theorem inv_init {channel : K → Channel} (hfd : ∀ i j, (channel i).fd_ = (channel j).fd_ → i = j)
    (hnew : ∀ k, (channel k).index_ = .kNew) : (init channel).Inv := by
  refine ⟨rfl, hfd, ?_⟩
  intro k
  constructor <;> simp [init, EpollPoller.init, hnew k]

/-- A call keeps its own channel registered, and the others are on other fds. -/
theorem inv_step {s t : Pollees K} {a : K × ChannelCall} (h : s.Inv) (ht : s.step a = some t) :
    t.Inv := by
  obtain ⟨k, c⟩ := a
  have hspec := ChannelCall.call_spec (h.registered k) c
  simp only [step, h.alive, Bool.false_eq_true, if_false] at ht
  generalize c.call s.poller (s.channel k) = r at *
  obtain ⟨p, ch⟩ := r
  obtain rfl := Option.some.inj ht
  have hfd : ∀ i, (Function.update s.channel k ch i).fd_ = (s.channel i).fd_ := by
    intro i
    by_cases hi : i = k
    · subst hi
      rw [Function.update_self]
      exact hspec.fd_
    · rw [Function.update_of_ne hi]
  refine ⟨hspec.fatal.trans h.alive, ?_, ?_⟩
  · intro i j hij
    rw [hfd i, hfd j] at hij
    exact h.distinct i j hij
  · intro i
    by_cases hi : i = k
    · subst hi
      simp only [Function.update_self]
      exact hspec.registered
    · have hne : (s.channel i).fd_ ≠ (s.channel k).fd_ := by
        intro heq
        exact hi (h.distinct i k heq)
      simp only [Function.update_of_ne hi]
      constructor
      · exact (hspec.interest _ hne).trans (h.registered i).interest
      · exact (hspec.channels _ hne).trans (h.registered i).channels

omit [DecidableEq K] in
theorem Inv.synced {s : Pollees K} (h : s.Inv) : s.Synced := by
  refine ⟨h.alive, ?_⟩
  intro k
  have hinterest := (h.registered k).interest
  have hchannels := (h.registered k).channels
  refine ⟨?_, ?_, ?_, ?_⟩
  · rw [hinterest]
    split_ifs with hadded <;> simp [hadded]
  · intro e he
    rw [hinterest] at he
    split_ifs at he with hadded
    obtain rfl := Option.some.inj he
    exact ⟨rfl, rfl⟩
  · rw [EpollPoller.hasChannel]
    rw [hchannels]
    split_ifs with hnew <;> simp [hnew]
  · intro c op hop
    exact ChannelCall.legal_ctl (h.registered k) hop

/-- Channels with distinct fds that share a poller stay in step with it and with the kernel,
whatever is called on them: every `epoll_ctl` is legal, and `LOG_FAT` is never reached. -/
theorem channels_synced {channel : K → Channel}
    (hfd : ∀ i j, (channel i).fd_ = (channel j).fd_ → i = j)
    (hnew : ∀ k, (channel k).index_ = .kNew) (as : List (K × ChannelCall)) :
    Always step Synced (init channel) as := by
  have hinv : Always step Inv (init channel) as := by
    apply always_of_step
    · intro s a t hs ht
      exact inv_step hs ht
    · exact inv_init hfd hnew
  exact hinv.mono fun _ hs => hs.synced

/-- Two channels, one of them removed while registered and enabled again. -/
theorem channels_synced_reenabled :
    Always step Synced (init fun k : Bool => Channel.new k.toNat (k.toNat + 3))
      [(false, .enableReading), (true, .enableWriting), (false, .remove), (true, .disableAll),
        (false, .enableReading), (true, .disableWriting)] :=
  channels_synced (by decide) (by decide) _

end Pollees

end Mymuduo.Net
