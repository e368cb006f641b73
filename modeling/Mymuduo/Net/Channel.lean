import Mathlib.Tactic

namespace Mymuduo.Net

/-- An epoll event mask. -/
abbrev Mask := BitVec 32

def EPOLLIN : Mask := 0x001
def EPOLLPRI : Mask := 0x002
def EPOLLOUT : Mask := 0x004
def EPOLLERR : Mask := 0x008
def EPOLLHUP : Mask := 0x010

/-- The mask test `m & bits` in a C++ condition. -/
def Mask.has (m bits : Mask) : Bool := m &&& bits != 0

/-- A channel's `index_`: what its poller knows of it. -/
inductive Index where
  | kNew
  | kAdded
  | kDeleted
  deriving DecidableEq

/-- `class Channel`, named by `id` where the code compares or stores its address. -/
structure Channel where
  id : Nat
  fd_ : Nat
  events_ : Mask
  index_ : Index

namespace Channel

def kNoneEvent : Mask := 0
def kReadEvent : Mask := EPOLLIN ||| EPOLLPRI
def kWriteEvent : Mask := EPOLLOUT

def new (id fd : Nat) : Channel := ⟨id, fd, kNoneEvent, .kNew⟩

def isNonEvents (ch : Channel) : Bool := ch.events_ == kNoneEvent
def isWriting (ch : Channel) : Bool := Mask.has ch.events_ kWriteEvent

end Channel

/-- What the kernel keeps for an fd of the epoll set. -/
structure EpollEvent where
  events : Mask
  ptr : Nat

inductive EpollOp where
  | ADD
  | MOD
  | DEL
  deriving DecidableEq

/-- `class EpollPoller` with the interest set that the kernel keeps behind `epollfd_`.
`fatal` records that `LOG_FAT` was reached, which ends the process. -/
structure EpollPoller where
  channels_ : Nat → Option Nat
  interest : Nat → Option EpollEvent
  fatal : Bool

/-- `epoll_ctl` fails for an ADD of a present fd and for a MOD or DEL of an absent one. -/
def epollCtl (interest : Nat → Option EpollEvent) (op : EpollOp) (fd : Nat) (event : EpollEvent) :
    Option (Nat → Option EpollEvent) :=
  match op, interest fd with
  | .ADD, none => some (Function.update interest fd (some event))
  | .MOD, some _ => some (Function.update interest fd (some event))
  | .DEL, some _ => some (Function.update interest fd none)
  | _, _ => none

namespace EpollPoller

def init : EpollPoller := ⟨fun _ => none, fun _ => none, false⟩

def update (p : EpollPoller) (op : EpollOp) (ch : Channel) : EpollPoller :=
  match epollCtl p.interest op ch.fd_ ⟨ch.events_, ch.id⟩ with
  | some interest => { p with interest := interest }
  | none => if op = .DEL then p else { p with fatal := true }

def updateChannel (p : EpollPoller) (ch : Channel) : EpollPoller × Channel :=
  if ch.index_ = .kNew ∨ ch.index_ = .kDeleted then
    let p := if ch.index_ = .kNew then
        { p with channels_ := Function.update p.channels_ ch.fd_ (some ch.id) }
      else p
    let ch := { ch with index_ := .kAdded }
    (p.update .ADD ch, ch)
  else if ch.isNonEvents then (p.update .DEL ch, { ch with index_ := .kDeleted })
  else (p.update .MOD ch, ch)

def removeChannel (p : EpollPoller) (ch : Channel) : EpollPoller × Channel :=
  let p := { p with channels_ := Function.update p.channels_ ch.fd_ none }
  let p := if ch.index_ = .kAdded then p.update .DEL ch else p
  (p, { ch with index_ := .kNew })

theorem updateChannel_events (p : EpollPoller) (ch : Channel) :
    (p.updateChannel ch).2.events_ = ch.events_ := by
  unfold updateChannel
  split_ifs <;> rfl

end EpollPoller

namespace Channel

def enableReading (p : EpollPoller) (ch : Channel) : EpollPoller × Channel :=
  p.updateChannel { ch with events_ := ch.events_ ||| kReadEvent }

def disableReading (p : EpollPoller) (ch : Channel) : EpollPoller × Channel :=
  p.updateChannel { ch with events_ := ch.events_ &&& ~~~kReadEvent }

def enableWriting (p : EpollPoller) (ch : Channel) : EpollPoller × Channel :=
  p.updateChannel { ch with events_ := ch.events_ ||| kWriteEvent }

def disableWriting (p : EpollPoller) (ch : Channel) : EpollPoller × Channel :=
  p.updateChannel { ch with events_ := ch.events_ &&& ~~~kWriteEvent }

def disableAll (p : EpollPoller) (ch : Channel) : EpollPoller × Channel :=
  p.updateChannel { ch with events_ := kNoneEvent }

def remove (p : EpollPoller) (ch : Channel) : EpollPoller × Channel := p.removeChannel ch

/-- Write interest is one bit of the mask. -/
theorem isWriting_eq (ch : Channel) : ch.isWriting = ch.events_.getLsbD 2 := by
  have hbit : kWriteEvent = BitVec.twoPow 32 2 := by decide
  unfold isWriting Mask.has
  rw [hbit, BitVec.and_twoPow]
  cases ch.events_.getLsbD 2 <;> decide

theorem isWriting_new (id fd : Nat) : (new id fd).isWriting = false := by
  rw [isWriting_eq]
  exact (by decide : kNoneEvent.getLsbD 2 = false)

theorem isWriting_enableWriting (p : EpollPoller) (ch : Channel) :
    (enableWriting p ch).2.isWriting = true := by
  rw [isWriting_eq, enableWriting, EpollPoller.updateChannel_events, BitVec.getLsbD_or,
    show kWriteEvent.getLsbD 2 = true by decide, Bool.or_true]

theorem isWriting_enableReading (p : EpollPoller) (ch : Channel) :
    (enableReading p ch).2.isWriting = ch.isWriting := by
  rw [isWriting_eq, isWriting_eq, enableReading, EpollPoller.updateChannel_events,
    BitVec.getLsbD_or, show kReadEvent.getLsbD 2 = false by decide, Bool.or_false]

theorem isWriting_disableAll (p : EpollPoller) (ch : Channel) :
    (disableAll p ch).2.isWriting = false := by
  rw [isWriting_eq, disableAll, EpollPoller.updateChannel_events]
  exact (by decide : kNoneEvent.getLsbD 2 = false)

end Channel

end Mymuduo.Net
