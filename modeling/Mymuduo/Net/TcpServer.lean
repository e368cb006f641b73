import Mymuduo.Net.SendPath

namespace Mymuduo.Net

/-- The calls a user's callback makes on the connection, on the loop's thread. -/
inductive UserCall where
  | send (data : List Byte) (answer : Except Errno Nat)
  | shutdown

/-- What `readFd` gives `handleRead`: some bytes, end of file, or an error. -/
inductive ReadResult where
  | bytes (data : List Byte)
  | eof
  | error (savedErrno : Errno)
  deriving DecidableEq

namespace TcpConnection

def userCall (c : TcpConnection) : UserCall → TcpConnection
  | .send data answer => c.send true data answer
  | .shutdown => c.shutdown

/-- `messageCallback_`, given by the calls it makes. -/
def messageCallback (c : TcpConnection) (calls : List UserCall) : TcpConnection :=
  calls.foldl userCall c

end TcpConnection

/-- A `TcpServer` with one of the connections it has accepted; its others share nothing
with it. `removals` counts the `removeConnectionInLoop` functors of the connection that
wait on the base loop. -/
structure TcpServer where
  conn : TcpConnection
  sameLoop : Bool
  alive : Bool
  inConnections : Bool
  removals : Nat

/-- One event of the channel: the mask, and how the calls it leads to turn out. -/
structure ChannelEvent where
  revents : Mask
  readResult : ReadResult
  onMessage : List UserCall
  answer : Except Errno Nat

namespace TcpServer

def onConn (m : TcpServer) (f : TcpConnection → TcpConnection) : TcpServer :=
  { m with conn := f m.conn }

/-- `newConnection`: `connectEstablished` runs at once where the connection's loop is the
base loop, and is queued otherwise. -/
def newConnection (fd : Nat) (writeComplete highWater sameLoop : Bool) : TcpServer where
  conn := if sameLoop then (TcpConnection.new fd writeComplete highWater).connectEstablished
    else (TcpConnection.new fd writeComplete highWater).queueInLoop .connectEstablished
  sameLoop := sameLoop
  alive := true
  inConnections := true
  removals := 0

def removeConnectionInLoop (m : TcpServer) : TcpServer :=
  { m with inConnections := false }.onConn (·.queueInLoop .connectDestroyed)

def removeConnection (m : TcpServer) : TcpServer :=
  if m.sameLoop then m.removeConnectionInLoop else { m with removals := m.removals + 1 }

/-- `handleClose`, whose `closeCallback_` is `removeConnection`. -/
def handleClose (m : TcpServer) : TcpServer := (m.onConn TcpConnection.handleClose).removeConnection

/-- `handleError` only reads and logs the socket's error. -/
def handleRead (m : TcpServer) (e : ChannelEvent) : TcpServer :=
  match e.readResult with
  | .bytes data => m.onConn fun c =>
      TcpConnection.messageCallback { c with inputBuffer_ := c.inputBuffer_.append data } e.onMessage
  | .eof => m.handleClose
  | .error _ => m

def hangsUp (e : ChannelEvent) : Bool := Mask.has e.revents EPOLLHUP && !Mask.has e.revents EPOLLIN

def reads (e : ChannelEvent) : Bool := Mask.has e.revents (EPOLLIN ||| EPOLLPRI)

def closeBranch (e : ChannelEvent) (m : TcpServer) : TcpServer :=
  if hangsUp e then m.handleClose else m

def readBranch (e : ChannelEvent) (m : TcpServer) : TcpServer :=
  if reads e then m.handleRead e else m

def writeBranch (e : ChannelEvent) (m : TcpServer) : TcpServer :=
  if Mask.has e.revents EPOLLOUT then m.onConn (·.handleWrite e.answer) else m

/-- The branches are tried one after another, on one mask. -/
def handleEventWithGuard (m : TcpServer) (e : ChannelEvent) : TcpServer :=
  writeBranch e (readBranch e (closeBranch e m))

/-- The destructor, on the base loop's thread. -/
def destroy (m : TcpServer) : TcpServer :=
  if m.inConnections then
    { m with alive := false, inConnections := false }.onConn fun c =>
      if m.sameLoop then c.connectDestroyed else c.queueInLoop .connectDestroyed
  else { m with alive := false }

/-- The poller reports a channel whose fd is in its interest set. -/
def registered (m : TcpServer) : Bool := (m.conn.poller_.interest m.conn.channel_.fd_).isSome

end TcpServer

/-- The steps on one connection: its loop runs a functor or reports an event, the user
calls it, the base loop runs `removeConnectionInLoop`, and the server is destroyed. -/
inductive ServerEvent where
  | runFunctor (answer : Except Errno Nat)
  | channel (e : ChannelEvent)
  | send (inLoopThread : Bool) (data : List Byte) (answer : Except Errno Nat)
  | shutdown
  | baseLoop
  | destroy

namespace TcpServer

def step (m : TcpServer) : ServerEvent → Option TcpServer
  | .runFunctor answer =>
    match m.conn.pendingFuntors_ with
    | [] => none
    | f :: fs => some (m.onConn fun c => TcpConnection.runFunctor { c with pendingFuntors_ := fs } answer f)
  | .channel e => if m.registered then some (m.handleEventWithGuard e) else none
  | .send inLoopThread data answer => some (m.onConn (·.send inLoopThread data answer))
  | .shutdown => some (m.onConn TcpConnection.shutdown)
  | .baseLoop =>
    if 0 < m.removals then some { m with removals := m.removals - 1 }.removeConnectionInLoop else none
  | .destroy => if m.alive then some m.destroy else none

/-- The arguments `connectionCallback_` was called with, in order. -/
def ups (calls : List Call) : List Bool :=
  calls.filterMap fun
    | .connectionCallback connected => some connected
    | _ => none

/-- The life of a connection as its callbacks see it. -/
structure Lifecycle (calls : List Call) : Prop where
  upThenDown : ups calls <+: [true, false]
  downBeforeRemoved : ∀ pre post, calls = pre ++ .channelRemoved :: post → ups pre = [true, false]
  closedOnce : calls.count .closeCallback ≤ 1
  destroyedOnce : calls.count .channelRemoved ≤ 1

/-- The step would run `connectDestroyed`. -/
def destroys (m : TcpServer) : ServerEvent → Bool
  | .runFunctor _ => m.conn.pendingFuntors_.head? = some .connectDestroyed
  | .destroy => m.inConnections && m.sameLoop
  | _ => false

/-- The steps that the code handles: no end of file on urgent data together with a hang-up,
no `connectDestroyed` between `shutdown` and the peer's close, and no removal left on the
base loop for a server that is gone. -/
def Orderly (m : TcpServer) (e : ServerEvent) : Prop :=
  (∀ ev, e = .channel ev → hangsUp ev = true → reads ev = true → ev.readResult ≠ .eof) ∧
  (m.destroys e = true → m.conn.state_ ≠ .kDisConnecting) ∧
  (e = .baseLoop → m.alive = true)

end TcpServer

end Mymuduo.Net
