import Mymuduo.Net.Buffer
import Mymuduo.Net.Channel

namespace Mymuduo.Net

inductive StateE where
  | kDisConnected
  | kConnecting
  | kConnected
  | kDisConnecting
  deriving DecidableEq

/-- What a connection's loop can hold in `pendingFuntors_` on the connection's behalf. -/
inductive Functor where
  | sendInLoop (message : List Byte)
  | shutdownInLoop
  | writeCompleteCallback
  | highWaterMarkCallback (len : Nat)
  | connectEstablished
  | connectDestroyed
  deriving DecidableEq

/-- The calls out of a connection that an observer can see, in order. -/
inductive Call where
  | connectionCallback (connected : Bool)
  | closeCallback
  | shutdownWrite
  | channelRemoved
  deriving DecidableEq

/-- `class TcpConnection` with what it acts on: the poller and the queue of its loop, and
the bytes that `write` has taken from it. An unset callback is `false`. -/
structure TcpConnection where
  state_ : StateE
  channel_ : Channel
  inputBuffer_ : ByteBuffer
  oututBuffer_ : ByteBuffer
  highWaterMark_ : Nat
  writeCompleteCallback_ : Bool
  highWaterMarkCallback_ : Bool
  poller_ : EpollPoller
  pendingFuntors_ : List Functor
  written : List Byte
  calls : List Call

namespace TcpConnection

/-- The constructor, with the callbacks the user has set. -/
def new (fd : Nat) (writeComplete highWater : Bool) : TcpConnection where
  state_ := .kConnecting
  channel_ := Channel.new fd fd
  inputBuffer_ := ByteBuffer.new Buffer.kInitialSize
  oututBuffer_ := ByteBuffer.new Buffer.kInitialSize
  highWaterMark_ := 64 * 1024 * 1024
  writeCompleteCallback_ := writeComplete
  highWaterMarkCallback_ := highWater
  poller_ := EpollPoller.init
  pendingFuntors_ := []
  written := []
  calls := []

def connected (c : TcpConnection) : Bool := c.state_ = .kConnected

def queueInLoop (c : TcpConnection) (f : Functor) : TcpConnection :=
  { c with pendingFuntors_ := c.pendingFuntors_ ++ [f] }

/-- One of the channel's operations, which reaches the poller through the loop. -/
def onChannel (c : TcpConnection) (f : EpollPoller → Channel → EpollPoller × Channel) :
    TcpConnection :=
  { c with poller_ := (f c.poller_ c.channel_).1, channel_ := (f c.poller_ c.channel_).2 }

def call (c : TcpConnection) (a : Call) : TcpConnection := { c with calls := c.calls ++ [a] }

/-- `sendInLoop` writes at once when nothing is pending and write interest is off. -/
def writesDirectly (c : TcpConnection) : Bool :=
  !c.channel_.isWriting && c.oututBuffer_.readableBytes == 0

/-- The `faultError` of `sendInLoop` for an answer of `write`. -/
def faultError : Except Errno Nat → Bool
  | .error .EPIPE => true
  | .error .ECONNRESET => true
  | _ => false

/-- The `nwrote` that `sendInLoop` goes on with: a failed write counts as 0. -/
def nwrote : Except Errno Nat → Nat
  | .ok n => n
  | .error _ => 0

def notifyWriteComplete (c : TcpConnection) : TcpConnection :=
  if c.writeCompleteCallback_ then c.queueInLoop .writeCompleteCallback else c

def noteHighWater (c : TcpConnection) (remaining : Nat) : TcpConnection :=
  let oldLen := c.oututBuffer_.readableBytes
  if oldLen + remaining ≥ c.highWaterMark_ ∧ oldLen < c.highWaterMark_ ∧
      c.highWaterMarkCallback_ then
    c.queueInLoop (.highWaterMarkCallback (oldLen + remaining))
  else c

/-- The last statement of `sendInLoop`: the test is not negated, so write interest is
requested only from a channel that has it. -/
def enableIfWriting (c : TcpConnection) : TcpConnection :=
  if c.channel_.isWriting then c.onChannel Channel.enableWriting else c

/-- The part of `sendInLoop` for the bytes that were not written. -/
def appendRest (c : TcpConnection) (rest : List Byte) : TcpConnection :=
  let c := c.noteHighWater rest.length
  enableIfWriting { c with oututBuffer_ := c.oututBuffer_.append rest }

/-- `answer` is what `write` returns if it is called. -/
def sendInLoop (c : TcpConnection) (data : List Byte) (answer : Except Errno Nat) :
    TcpConnection :=
  if c.state_ = .kDisConnected then c
  else if c.writesDirectly then
    let c := { c with written := c.written ++ data.take (nwrote answer) }
    let rest := data.drop (nwrote answer)
    match answer with
    | .ok _ =>
      if rest = [] then c.notifyWriteComplete else c.appendRest rest
    | .error _ => if faultError answer ∨ rest = [] then c else c.appendRest rest
  else if data = [] then c
  else c.appendRest data

/-- `send`; off the loop's thread the overload that passes its bytes by value. -/
def send (c : TcpConnection) (inLoopThread : Bool) (data : List Byte)
    (answer : Except Errno Nat) : TcpConnection :=
  if c.state_ = .kConnected then
    if inLoopThread then c.sendInLoop data answer else c.queueInLoop (.sendInLoop data)
  else c

def shutdownInLoop (c : TcpConnection) : TcpConnection :=
  if !c.channel_.isWriting then c.call .shutdownWrite else c

def shutdown (c : TcpConnection) : TcpConnection :=
  if c.state_ = .kConnected then
    queueInLoop { c with state_ := .kDisConnecting } .shutdownInLoop
  else c

/-- `writFd` took `n` bytes from the front of `oututBuffer_`, which are then retrieved. -/
def wroteBuffered (c : TcpConnection) (n : Nat) : TcpConnection :=
  { c with
    written := c.written ++ c.oututBuffer_.content.take n
    oututBuffer_ := c.oututBuffer_.retrieve n }

def shutdownIfDisConnecting (c : TcpConnection) : TcpConnection :=
  if c.state_ = .kDisConnecting then c.shutdownInLoop else c

/-- The part of `handleWrite` for an `oututBuffer_` that has become empty. -/
def drained (c : TcpConnection) : TcpConnection :=
  (c.onChannel Channel.disableWriting).notifyWriteComplete.shutdownIfDisConnecting

def handleWrite (c : TcpConnection) (answer : Except Errno Nat) : TcpConnection :=
  if c.channel_.isWriting then
    if 0 < nwrote answer then
      if (c.wroteBuffered (nwrote answer)).oututBuffer_.readableBytes = 0 then
        (c.wroteBuffered (nwrote answer)).drained
      else c.wroteBuffered (nwrote answer)
    else c
  else c

def connectEstablished (c : TcpConnection) : TcpConnection :=
  let c := { c with state_ := .kConnected }
  let c := c.onChannel Channel.enableReading
  c.call (.connectionCallback c.connected)

def connectDestroyed (c : TcpConnection) : TcpConnection :=
  let c := if c.state_ = .kConnected then
      let c := { c with state_ := .kDisConnected }
      let c := c.onChannel Channel.disableAll
      c.call (.connectionCallback c.connected)
    else c
  (c.onChannel Channel.remove).call .channelRemoved

/-- Everything `handleClose` does on the connection; `closeCallback_` is the last call. -/
def handleClose (c : TcpConnection) : TcpConnection :=
  let c := { c with state_ := .kDisConnected }
  let c := c.onChannel Channel.disableAll
  let c := c.call (.connectionCallback c.connected)
  c.call .closeCallback

/-- A queued functor when the loop runs it. The user's callbacks act on the connection
only through `send` and `shutdown`, which are steps of their own. -/
def runFunctor (c : TcpConnection) (answer : Except Errno Nat) : Functor → TcpConnection
  | .sendInLoop message => c.sendInLoop message answer
  | .shutdownInLoop => c.shutdownInLoop
  | .connectEstablished => c.connectEstablished
  | .connectDestroyed => c.connectDestroyed
  | .writeCompleteCallback => c
  | .highWaterMarkCallback _ => c

end TcpConnection

end Mymuduo.Net
