import Mymuduo.Lib.Run
import Mymuduo.Net.TcpConnection

namespace Mymuduo.Net

open Lib

namespace TcpConnection

/-! What `sendInLoop` does to the fields of the connection. -/

/-- The calls `sendInLoop` drops: the connection is down, or its direct write failed for good. -/
def dropped (c : TcpConnection) (answer : Except Errno Nat) : Bool :=
  c.state_ = .kDisConnected || (c.writesDirectly && faultError answer)

/-- The bytes of one `sendInLoop` call that the kernel takes at once. -/
def taken (c : TcpConnection) (data : List Byte) (answer : Except Errno Nat) : List Byte :=
  if c.state_ = .kDisConnected then []
  else if c.writesDirectly then data.take (nwrote answer) else []

/-- The bytes of one `sendInLoop` call that go to `oututBuffer_`. -/
def leftover (c : TcpConnection) (data : List Byte) (answer : Except Errno Nat) : List Byte :=
  if c.dropped answer then []
  else if c.writesDirectly then data.drop (nwrote answer) else data

def unsent (c : TcpConnection) : List Byte := c.oututBuffer_.content

theorem faultError_nwrote {answer : Except Errno Nat} (h : faultError answer = true) :
    nwrote answer = 0 := by
  cases answer with
  | error e => rfl
  | ok n => simp [faultError] at h

/-- How `d` may differ from `c` after a send: the kernel took `took`, `oututBuffer_` got
`rest`, and callbacks of the user may have been queued. -/
structure Sends (c d : TcpConnection) (took rest : List Byte) : Prop where
  state : d.state_ = c.state_
  writing : d.channel_.isWriting = c.channel_.isWriting
  written : d.written = c.written ++ took
  unsent : d.unsent = c.unsent ++ rest
  calls : d.calls = c.calls
  pending : ∃ fs, d.pendingFuntors_ = c.pendingFuntors_ ++ fs ∧
    ∀ f ∈ fs, f = .writeCompleteCallback ∨ ∃ n, f = .highWaterMarkCallback n

theorem Sends.refl (c : TcpConnection) : Sends c c [] [] :=
  ⟨rfl, rfl, (List.append_nil _).symm, (List.append_nil _).symm, rfl,
    [], (List.append_nil _).symm, by simp⟩

theorem Sends.trans {c d e : TcpConnection} {took rest took' rest' : List Byte}
    (h : Sends c d took rest) (k : Sends d e took' rest') :
    Sends c e (took ++ took') (rest ++ rest') := by
  obtain ⟨fs, hfs, hf⟩ := h.pending
  obtain ⟨gs, hgs, hg⟩ := k.pending
  refine ⟨k.state.trans h.state, k.writing.trans h.writing, ?_, ?_, k.calls.trans h.calls,
    fs ++ gs, ?_, ?_⟩
  · rw [k.written, h.written, List.append_assoc]
  · rw [k.unsent, h.unsent, List.append_assoc]
  · rw [hgs, hfs, List.append_assoc]
  · intro f hm
    rcases List.mem_append.mp hm with hm | hm
    · exact hf f hm
    · exact hg f hm

theorem noteHighWater_sends (c : TcpConnection) (remaining : Nat) :
    Sends c (c.noteHighWater remaining) [] [] := by
  dsimp only [noteHighWater]
  split_ifs
  · refine ⟨rfl, rfl, (List.append_nil _).symm, (List.append_nil _).symm, rfl, _, rfl, ?_⟩
    intro f hf
    exact Or.inr ⟨_, List.mem_singleton.mp hf⟩
  · exact Sends.refl c

theorem append_sends (c : TcpConnection) (rest : List Byte) :
    Sends c { c with oututBuffer_ := c.oututBuffer_.append rest } [] rest :=
  ⟨rfl, rfl, (List.append_nil _).symm, ByteBuffer.content_append _ _, rfl,
    [], (List.append_nil _).symm, by simp⟩

theorem enableIfWriting_sends (c : TcpConnection) : Sends c c.enableIfWriting [] [] := by
  unfold enableIfWriting
  split_ifs with hw
  · refine ⟨rfl, ?_, (List.append_nil _).symm, (List.append_nil _).symm, rfl,
      [], (List.append_nil _).symm, by simp⟩
    rw [hw]
    exact Channel.isWriting_enableWriting _ _
  · exact Sends.refl c

theorem appendRest_sends (c : TcpConnection) (rest : List Byte) :
    Sends c (c.appendRest rest) [] rest := by
  have h := ((noteHighWater_sends c rest.length).trans (append_sends _ rest)).trans
    (enableIfWriting_sends _)
  simp only [List.nil_append, List.append_nil] at h
  exact h

theorem write_sends (c : TcpConnection) (took : List Byte) :
    Sends c { c with written := c.written ++ took } took [] :=
  ⟨rfl, rfl, rfl, (List.append_nil _).symm, rfl, [], (List.append_nil _).symm, by simp⟩

theorem notifyWriteComplete_sends (c : TcpConnection) :
    Sends c c.notifyWriteComplete [] [] := by
  unfold notifyWriteComplete
  split_ifs
  · refine ⟨rfl, rfl, (List.append_nil _).symm, (List.append_nil _).symm, rfl, _, rfl, ?_⟩
    intro f hf
    exact Or.inl (List.mem_singleton.mp hf)
  · exact Sends.refl c

theorem writesDirectly_unsent {c : TcpConnection} (h : c.writesDirectly = true) :
    c.unsent = [] := by
  simp only [writesDirectly, Bool.and_eq_true, beq_iff_eq, ByteBuffer.readableBytes_eq] at h
  exact List.length_eq_zero_iff.mp h.2

/-- `sendInLoop` hands `taken` to the kernel and keeps `leftover`. -/
theorem sendInLoop_sends (c : TcpConnection) (data : List Byte) (answer : Except Errno Nat) :
    Sends c (c.sendInLoop data answer) (c.taken data answer) (c.leftover data answer) := by
  unfold sendInLoop leftover taken dropped
  by_cases hdown : c.state_ = .kDisConnected
  · simp only [hdown, decide_true, Bool.true_or, if_true]
    exact Sends.refl c
  by_cases hdirect : c.writesDirectly = true
  · simp only [hdown, hdirect, if_false, if_true, decide_false, Bool.false_or, Bool.true_and]
    have hw := write_sends c (data.take (nwrote answer))
    cases answer with
    | ok n =>
      simp only [faultError, Bool.false_eq_true, if_false]
      by_cases hrest : data.drop (nwrote (.ok n)) = []
      · simp only [hrest, if_true]
        simpa using hw.trans (notifyWriteComplete_sends _)
      · simp only [hrest, if_false]
        simpa using hw.trans (appendRest_sends _ _)
    | error e =>
      by_cases hfault : faultError (.error e) = true
      · simp only [hfault, true_or, if_true]
        exact hw
      · by_cases hrest : data.drop (nwrote (.error e)) = []
        · simpa only [hfault, hrest, or_true, if_true, Bool.false_eq_true, if_false] using hw
        · simp only [hfault, hrest, or_false, if_false, Bool.false_eq_true]
          simpa using hw.trans (appendRest_sends _ _)
  · simp only [hdown, hdirect, if_false, decide_false, Bool.false_or, Bool.false_and,
      Bool.false_eq_true]
    by_cases hdata : data = []
    · simp only [hdata, if_true]
      exact Sends.refl c
    · simp only [hdata, if_false]
      exact appendRest_sends c data

/-- Kernel and buffer together receive exactly the data of a call that is not dropped. -/
theorem sendInLoop_stream (c : TcpConnection) (data : List Byte) (answer : Except Errno Nat) :
    (c.sendInLoop data answer).written ++ (c.sendInLoop data answer).unsent =
      c.written ++ c.unsent ++ (if c.dropped answer then [] else data) := by
  have h := sendInLoop_sends c data answer
  rw [h.written, h.unsent]
  unfold taken leftover
  by_cases hdown : c.state_ = .kDisConnected
  · simp [hdown, dropped]
  by_cases hdirect : c.writesDirectly = true
  · have hu := writesDirectly_unsent hdirect
    by_cases hfault : faultError answer = true
    · simp [hdown, hdirect, hfault, dropped, hu, faultError_nwrote hfault]
    · simp [hdown, hdirect, hfault, dropped, hu]
  · simp [hdown, hdirect, dropped]

theorem shutdownInLoop_fields (c : TcpConnection) :
    c.shutdownInLoop.written = c.written ∧ c.shutdownInLoop.unsent = c.unsent := by
  unfold shutdownInLoop
  split_ifs <;> exact ⟨rfl, rfl⟩

theorem drained_fields (c : TcpConnection) :
    c.drained.written = c.written ∧ c.drained.unsent = c.unsent := by
  have h := notifyWriteComplete_sends (c.onChannel Channel.disableWriting)
  have hw : (c.onChannel Channel.disableWriting).notifyWriteComplete.written = c.written :=
    h.written.trans (List.append_nil _)
  have hu : (c.onChannel Channel.disableWriting).notifyWriteComplete.unsent = c.unsent :=
    h.unsent.trans (List.append_nil _)
  unfold drained shutdownIfDisConnecting
  split_ifs
  · obtain ⟨kw, ku⟩ := shutdownInLoop_fields (c.onChannel Channel.disableWriting).notifyWriteComplete
    exact ⟨kw.trans hw, ku.trans hu⟩
  · exact ⟨hw, hu⟩

/-- A drain step moves bytes from the buffer to the kernel and loses none. -/
theorem handleWrite_stream (c : TcpConnection) (answer : Except Errno Nat) :
    (c.handleWrite answer).written ++ (c.handleWrite answer).unsent = c.written ++ c.unsent := by
  have hmove (n : Nat) :
      (c.wroteBuffered n).written ++ (c.wroteBuffered n).unsent = c.written ++ c.unsent := by
    simp [wroteBuffered, unsent]
  unfold handleWrite
  split_ifs
  · rw [(drained_fields _).1, (drained_fields _).2, hmove]
  · exact hmove _
  · rfl
  · rfl

end TcpConnection

end Mymuduo.Net
