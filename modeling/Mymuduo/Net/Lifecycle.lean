import Mymuduo.Net.TcpServer

namespace Mymuduo.Net

open Lib

/-- A channel that its poller watches, with read interest. -/
structure Watching (p : EpollPoller) (ch : Channel) : Prop where
  index : ch.index_ = .kAdded
  reading : ch.events_.getLsbD 0 = true
  interest : (p.interest ch.fd_).isSome = true

/-- A channel without interest that its poller does not watch. -/
structure Unwatched (p : EpollPoller) (ch : Channel) : Prop where
  index : ch.index_ ≠ .kAdded
  events : ch.events_ = Channel.kNoneEvent
  interest : p.interest ch.fd_ = none

namespace Watching

/-- An update that keeps read interest is a MOD. -/
theorem update {p : EpollPoller} {ch : Channel} (h : Watching p ch) (events : Mask)
    (hr : events.getLsbD 0 = true) :
    Watching (p.updateChannel { ch with events_ := events }).1
      (p.updateChannel { ch with events_ := events }).2 := by
  have hnone : (events == Channel.kNoneEvent) = false := by
    rw [beq_eq_false_iff_ne]
    intro he
    subst he
    exact absurd hr (by decide)
  have hindex := h.index
  obtain ⟨old, hold⟩ := Option.isSome_iff_exists.mp h.interest
  have hup : p.updateChannel { ch with events_ := events } =
      (p.update .MOD { ch with events_ := events }, { ch with events_ := events }) := by
    simp [EpollPoller.updateChannel, Channel.isNonEvents, hindex, hnone]
  rw [hup]
  refine ⟨hindex, hr, ?_⟩
  simp [EpollPoller.update, epollCtl, hold]

theorem enableWriting {p : EpollPoller} {ch : Channel} (h : Watching p ch) :
    Watching (Channel.enableWriting p ch).1 (Channel.enableWriting p ch).2 := by
  apply h.update _
  rw [BitVec.getLsbD_or, h.reading, Bool.true_or]

theorem disableWriting {p : EpollPoller} {ch : Channel} (h : Watching p ch) :
    Watching (Channel.disableWriting p ch).1 (Channel.disableWriting p ch).2 := by
  apply h.update _
  rw [BitVec.getLsbD_and, h.reading, Bool.true_and]
  decide

/-- Dropping all interest is a DEL. -/
theorem disableAll {p : EpollPoller} {ch : Channel} (h : Watching p ch) :
    Unwatched (Channel.disableAll p ch).1 (Channel.disableAll p ch).2 := by
  have hindex := h.index
  obtain ⟨old, hold⟩ := Option.isSome_iff_exists.mp h.interest
  have hup : Channel.disableAll p ch = (p.update .DEL { ch with events_ := Channel.kNoneEvent },
      { ch with events_ := Channel.kNoneEvent, index_ := .kDeleted }) := by
    simp [Channel.disableAll, EpollPoller.updateChannel, Channel.isNonEvents, hindex]
  rw [hup]
  refine ⟨by simp, rfl, ?_⟩
  simp [EpollPoller.update, epollCtl, hold]

end Watching

namespace Unwatched

theorem new (id fd : Nat) : Unwatched EpollPoller.init (Channel.new id fd) :=
  ⟨by simp [Channel.new], rfl, rfl⟩

theorem not_writing {p : EpollPoller} {ch : Channel} (h : Unwatched p ch) :
    ch.isWriting = false := by
  rw [Channel.isWriting_eq, h.events]
  decide

/-- The first read interest is an ADD. -/
theorem enableReading {p : EpollPoller} {ch : Channel} (h : Unwatched p ch) :
    Watching (Channel.enableReading p ch).1 (Channel.enableReading p ch).2 := by
  have hindex : ch.index_ = .kNew ∨ ch.index_ = .kDeleted := by
    have := h.index
    cases hi : ch.index_ <;> simp_all
  have hnone := h.interest
  unfold Channel.enableReading EpollPoller.updateChannel
  rw [if_pos hindex]
  refine ⟨rfl, ?_, ?_⟩
  · rw [BitVec.getLsbD_or, show Channel.kReadEvent.getLsbD 0 = true by decide, Bool.or_true]
  · simp only
    split_ifs <;> simp [EpollPoller.update, epollCtl, hnone]

theorem remove {p : EpollPoller} {ch : Channel} (h : Unwatched p ch) :
    Unwatched (Channel.remove p ch).1 (Channel.remove p ch).2 := by
  have hi := h.index
  simp only [Channel.remove, EpollPoller.removeChannel, hi, if_false]
  exact ⟨by simp, h.events, h.interest⟩

end Unwatched

/-- How `d` may differ from `c` after code that touches neither end of the connection's
life: the socket may have been half-closed, and functors of the output path queued. -/
structure Keeps (c d : TcpConnection) : Prop where
  state : d.state_ = c.state_ ∨ c.state_ = .kConnected ∧ d.state_ = .kDisConnecting
  calls : ∃ k, d.calls = c.calls ++ List.replicate k .shutdownWrite
  pending : ∃ fs, d.pendingFuntors_ = c.pendingFuntors_ ++ fs ∧
    ∀ f ∈ fs, f ≠ .connectEstablished ∧ f ≠ .connectDestroyed
  watching : Watching c.poller_ c.channel_ → Watching d.poller_ d.channel_
  unwatched : Unwatched c.poller_ c.channel_ → Unwatched d.poller_ d.channel_

namespace Keeps

/-- Code that leaves the channel, the calls and the queue alone. -/
theorem of_same {c d : TcpConnection} (hs : d.state_ = c.state_) (hc : d.calls = c.calls)
    (hf : d.pendingFuntors_ = c.pendingFuntors_) (hch : d.channel_ = c.channel_)
    (hp : d.poller_ = c.poller_) : Keeps c d := by
  refine ⟨Or.inl hs, ⟨0, by simp [hc]⟩, ⟨[], by simp [hf], by simp⟩, ?_, ?_⟩
  · rw [hp, hch]
    exact fun h => h
  · rw [hp, hch]
    exact fun h => h

theorem refl (c : TcpConnection) : Keeps c c := of_same rfl rfl rfl rfl rfl

theorem trans {c d e : TcpConnection} (h : Keeps c d) (k : Keeps d e) : Keeps c e := by
  obtain ⟨i, hi⟩ := h.calls
  obtain ⟨j, hj⟩ := k.calls
  obtain ⟨fs, hfs, hf⟩ := h.pending
  obtain ⟨gs, hgs, hg⟩ := k.pending
  refine ⟨?_, ⟨i + j, ?_⟩, ⟨fs ++ gs, ?_, ?_⟩, fun w => k.watching (h.watching w),
    fun u => k.unwatched (h.unwatched u)⟩
  · rcases h.state with hs | ⟨hs, hs'⟩
    · rw [← hs]
      exact k.state
    · rcases k.state with ks | ⟨ks, -⟩
      · exact Or.inr ⟨hs, ks.trans hs'⟩
      · rw [hs'] at ks
        cases ks
  · rw [hj, hi, List.append_assoc, List.replicate_add]
  · rw [hgs, hfs, List.append_assoc]
  · intro f hm
    rcases List.mem_append.mp hm with hm | hm
    · exact hf f hm
    · exact hg f hm

theorem enqueue (c : TcpConnection) (f : Functor)
    (hf : f ≠ .connectEstablished ∧ f ≠ .connectDestroyed) : Keeps c (c.queueInLoop f) :=
  ⟨Or.inl rfl, ⟨0, by simp [TcpConnection.queueInLoop]⟩,
    ⟨[f], rfl, by simpa using hf⟩, fun h => h, fun h => h⟩

end Keeps

namespace TcpConnection

theorem notifyWriteComplete_keeps (c : TcpConnection) : Keeps c c.notifyWriteComplete := by
  unfold notifyWriteComplete
  split_ifs
  · exact Keeps.enqueue c _ (by simp)
  · exact Keeps.refl c

theorem noteHighWater_keeps (c : TcpConnection) (remaining : Nat) :
    Keeps c (c.noteHighWater remaining) := by
  dsimp only [noteHighWater]
  split_ifs
  · exact Keeps.enqueue c _ (by simp)
  · exact Keeps.refl c

theorem enableIfWriting_keeps (c : TcpConnection) : Keeps c c.enableIfWriting := by
  unfold enableIfWriting
  split_ifs with hw
  · refine ⟨Or.inl rfl, ⟨0, by simp [onChannel]⟩, ⟨[], by simp [onChannel], by simp⟩,
      fun h => h.enableWriting, ?_⟩
    intro h
    rw [h.not_writing] at hw
    cases hw
  · exact Keeps.refl c

theorem appendRest_keeps (c : TcpConnection) (rest : List Byte) : Keeps c (c.appendRest rest) := by
  have hbuf (d : TcpConnection) : Keeps d { d with oututBuffer_ := d.oututBuffer_.append rest } :=
    Keeps.of_same rfl rfl rfl rfl rfl
  exact ((noteHighWater_keeps c rest.length).trans (hbuf _)).trans (enableIfWriting_keeps _)

theorem sendInLoop_keeps (c : TcpConnection) (data : List Byte) (answer : Except Errno Nat) :
    Keeps c (c.sendInLoop data answer) := by
  have hw : Keeps c { c with written := c.written ++ data.take (nwrote answer) } :=
    Keeps.of_same rfl rfl rfl rfl rfl
  unfold sendInLoop
  split_ifs
  · exact Keeps.refl c
  · cases answer with
    | ok n =>
      simp only
      split_ifs
      · exact hw.trans (notifyWriteComplete_keeps _)
      · exact hw.trans (appendRest_keeps _ _)
    | error e =>
      simp only
      split_ifs
      · exact hw
      · exact hw.trans (appendRest_keeps _ _)
  · exact Keeps.refl c
  · exact appendRest_keeps c data

theorem send_keeps (c : TcpConnection) (inLoopThread : Bool) (data : List Byte)
    (answer : Except Errno Nat) : Keeps c (c.send inLoopThread data answer) := by
  unfold send
  split_ifs
  · exact sendInLoop_keeps c data answer
  · exact Keeps.enqueue c _ (by simp)
  · exact Keeps.refl c

theorem shutdown_keeps (c : TcpConnection) : Keeps c c.shutdown := by
  unfold shutdown
  split_ifs with hc
  · have hs : Keeps c { c with state_ := .kDisConnecting } :=
      ⟨Or.inr ⟨hc, rfl⟩, ⟨0, by simp⟩, ⟨[], by simp, by simp⟩, fun h => h, fun h => h⟩
    exact hs.trans (Keeps.enqueue _ _ (by simp))
  · exact Keeps.refl c

theorem shutdownInLoop_keeps (c : TcpConnection) : Keeps c c.shutdownInLoop := by
  unfold shutdownInLoop
  split_ifs
  · exact ⟨Or.inl rfl, ⟨1, rfl⟩, ⟨[], by simp [call], by simp⟩, fun h => h, fun h => h⟩
  · exact Keeps.refl c

theorem drained_keeps {c : TcpConnection} (hw : c.channel_.isWriting = true) :
    Keeps c c.drained := by
  have hd : Keeps c (c.onChannel Channel.disableWriting) := by
    refine ⟨Or.inl rfl, ⟨0, by simp [onChannel]⟩, ⟨[], by simp [onChannel], by simp⟩,
      fun h => h.disableWriting, ?_⟩
    intro h
    rw [h.not_writing] at hw
    cases hw
  have hn := hd.trans (notifyWriteComplete_keeps _)
  unfold drained shutdownIfDisConnecting
  split_ifs
  · exact hn.trans (shutdownInLoop_keeps _)
  · exact hn

theorem handleWrite_keeps (c : TcpConnection) (answer : Except Errno Nat) :
    Keeps c (c.handleWrite answer) := by
  have hb (n : Nat) : Keeps c (c.wroteBuffered n) := Keeps.of_same rfl rfl rfl rfl rfl
  unfold handleWrite
  split_ifs with hw
  · exact (hb _).trans (drained_keeps hw)
  · exact hb _
  · exact Keeps.refl c
  · exact Keeps.refl c

theorem messageCallback_keeps (c : TcpConnection) (calls : List UserCall) :
    Keeps c (c.messageCallback calls) := by
  induction calls generalizing c with
  | nil => exact Keeps.refl c
  | cons call calls ih =>
    cases call with
    | send data answer => exact (send_keeps c true data answer).trans (ih _)
    | shutdown => exact (shutdown_keeps c).trans (ih _)

/-- A functor other than the two ends of the connection's life. -/
theorem runFunctor_keeps (c : TcpConnection) (answer : Except Errno Nat) {f : Functor}
    (hf : f ≠ .connectEstablished ∧ f ≠ .connectDestroyed) : Keeps c (c.runFunctor answer f) := by
  cases f with
  | sendInLoop message => exact sendInLoop_keeps c message answer
  | shutdownInLoop => exact shutdownInLoop_keeps c
  | writeCompleteCallback => exact Keeps.refl c
  | highWaterMarkCallback n => exact Keeps.refl c
  | connectEstablished => exact absurd rfl hf.1
  | connectDestroyed => exact absurd rfl hf.2

end TcpConnection

end Mymuduo.Net
