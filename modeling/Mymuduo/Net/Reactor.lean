import Mymuduo.Lib.Decimal
import Mymuduo.Net.LifecycleRun
import Mymuduo.Net.Withdrawn

namespace Mymuduo.Net

open Lib

/-! A `TcpServer` with all its connections on one loop, which is where `getNextLoop` puts them.
Connections are shared objects: an object ends with the last `TcpConnectionPtr` to it, and closes
its fd, which the kernel may then give to another connection.

The server is there in the whole run (`~TcpServer` is no step), all code runs in the loop's thread,
and of the poller's channels those of `wakeupFd_` and `timerfd_`, which are only read, are left out.
`nextConnId_` is an `int` that must not overflow, which the results about runs take as a
hypothesis. -/

/-- `class InetAddress`; `sin_addr` and `sin_port` are in network order. -/
structure InetAddress where
  sin_addr : Byte × Byte × Byte × Byte
  sin_port : Byte × Byte
  deriving DecidableEq

namespace InetAddress

def toPort (a : InetAddress) : Nat := a.sin_port.1.toNat * 256 + a.sin_port.2.toNat

/-- The text that `inet_ntop` writes. -/
def toIp (a : InetAddress) : List Byte :=
  decimal a.sin_addr.1.toNat ++ 46 :: decimal a.sin_addr.2.1.toNat ++
    46 :: decimal a.sin_addr.2.2.1.toNat ++ 46 :: decimal a.sin_addr.2.2.2.toNat

def toIpPort (a : InetAddress) : List Byte := a.toIp ++ 58 :: decimal a.toPort

theorem toPort_lt (a : InetAddress) : a.toPort < 65536 := by
  have hhigh := a.sin_port.1.toNat_lt
  have hlow := a.sin_port.2.toNat_lt
  rw [toPort]
  omega

theorem length_byte_le (b : Byte) : (decimal b.toNat).length ≤ 3 := by
  apply length_decimal_le (by decide)
  have hb := b.toNat_lt
  omega

/-- No text is longer than that of 255.255.255.255:65535. -/
theorem length_toIpPort_le (a : InetAddress) : a.toIpPort.length ≤ 21 := by
  have hport : (decimal a.toPort).length ≤ 5 := by
    apply length_decimal_le (by decide)
    have hlt := a.toPort_lt
    omega
  have h1 := length_byte_le a.sin_addr.1
  have h2 := length_byte_le a.sin_addr.2.1
  have h3 := length_byte_le a.sin_addr.2.2.1
  have h4 := length_byte_le a.sin_addr.2.2.2
  simp only [toIpPort, toIp, List.length_append, List.length_cons]
  omega

end InetAddress

/-- What a `TcpServer` is constructed with. `listenfd` is the fd of its acceptor. -/
structure ServerOptions where
  nameArg : List Byte
  listenAddr : InetAddress
  listenfd : Nat
  writeCompleteCallback_ : Bool
  highWaterMarkCallback_ : Bool

/-- The name that `newConnection` gives a connection; its `snprintf` keeps 63 bytes. -/
def ServerOptions.connName (o : ServerOptions) (nextConnId_ : Nat) : List Byte :=
  o.nameArg ++ (45 :: o.listenAddr.toIpPort ++ 35 :: decimal nextConnId_).take 63

/-- Where the loop is: in `poll`, with channels to handle, or in `doPendingFunctors` with the
local `functors` and those of them that are left to run. -/
inductive LoopPhase where
  | poll
  | handling (activeChannels_ : List (Nat × Mask))
  | calling (functors left : List (Nat × Functor))

namespace LoopPhase

def activeChannels_ : LoopPhase → List (Nat × Mask)
  | handling activeChannels_ => activeChannels_
  | _ => []

def functors : LoopPhase → List (Nat × Functor)
  | calling functors _ => functors
  | _ => []

def left : LoopPhase → List (Nat × Functor)
  | calling _ left => left
  | _ => []

end LoopPhase

/-- The server and its loop. A connection and its channel are named by the number the connection
got from `nextConnId_`, and the acceptor's channel by 0. `alive` are the connection objects there
are, `users` those that user code keeps a pointer to, and `events_` is the length of the vector
that `epoll_wait` fills. `fault` records that a pointer to an object that had ended was used. -/
structure Reactor where
  poller_ : EpollPoller
  acceptChannel_ : Channel
  conn : Nat → TcpConnection
  alive : List Nat
  connections_ : List (List Byte × Nat)
  nextConnId_ : Nat
  pendingFuntors_ : List (Nat × Functor)
  phase : LoopPhase
  events_ : Nat
  users : List Nat
  fault : Bool

/-- The functors that are bound to a `TcpConnectionPtr`; the others have `this`. -/
def Functor.owns : Functor → Bool
  | .sendInLoop _ => false
  | .shutdownInLoop => false
  | _ => true

namespace Reactor

/-- The functors that have not run yet. -/
def queue (s : Reactor) : List (Nat × Functor) := s.phase.left ++ s.pendingFuntors_

/-- Those of one connection. -/
def own (id : Nat) (fs : List (Nat × Functor)) : List Functor :=
  fs.filterMap fun f => if f.1 = id then some f.2 else none

def listed (s : Reactor) (id : Nat) : Bool := s.connections_.any fun e => e.2 = id

/-- Some `TcpConnectionPtr` to the object is left. -/
def referred (s : Reactor) (id : Nat) : Bool :=
  s.listed id || s.users.contains id ||
    (s.phase.functors ++ s.pendingFuntors_).any fun f => f.1 = id && f.2.owns

/-- Objects nobody refers to end, and their fds are closed, which takes them out of the epoll
set. -/
def reap (s : Reactor) : Reactor :=
  let dead := s.alive.filter fun id => !s.referred id
  { s with
    alive := s.alive.filter s.referred
    poller_ := { s.poller_ with
      interest := fun fd => if dead.any (fun id => (s.conn id).channel_.fd_ = fd) then none
        else s.poller_.interest fd } }

/-- One connection as code on it sees the server. -/
def view (s : Reactor) (id : Nat) : TcpServer where
  conn := { s.conn id with poller_ := s.poller_, pendingFuntors_ := own id s.queue }
  sameLoop := true
  alive := true
  inConnections := s.listed id
  removals := 0

/-- What code on a connection leaves: the functors it has added go to the end of the loop's
queue, and `connections_` loses its name if `removeConnectionInLoop` has run. -/
def put (o : ServerOptions) (s : Reactor) (id : Nat) (m : TcpServer) : Reactor :=
  { s with
    poller_ := m.conn.poller_
    conn := Function.update s.conn id m.conn
    connections_ := if m.inConnections = s.listed id then s.connections_
      else s.connections_.filter fun e => e.1 ≠ o.connName id
    pendingFuntors_ := s.pendingFuntors_ ++
      (m.conn.pendingFuntors_.drop (own id s.queue).length).map fun f => (id, f) }

variable (o : ServerOptions)

/-- After `start`: the acceptor's channel is registered. -/
def init : Reactor where
  poller_ := ((Channel.new 0 o.listenfd).enableReading EpollPoller.init).1
  acceptChannel_ := ((Channel.new 0 o.listenfd).enableReading EpollPoller.init).2
  conn := fun _ => TcpConnection.new 0 false false
  alive := []
  connections_ := []
  nextConnId_ := 1
  pendingFuntors_ := []
  phase := .poll
  events_ := 16
  users := []
  fault := false

/-- The kernel gives out fds that are not open. -/
def freeFd (s : Reactor) (fd : Nat) : Bool :=
  fd != o.listenfd && s.alive.all fun id => (s.conn id).channel_.fd_ != fd

/-- The constructor of a connection, with the callbacks that the server sets. -/
def create (s : Reactor) (fd : Nat) : Reactor :=
  { s with
    conn := Function.update s.conn s.nextConnId_
      { TcpConnection.new fd o.writeCompleteCallback_ o.highWaterMarkCallback_ with
        channel_ := Channel.new s.nextConnId_ fd }
    alive := s.nextConnId_ :: s.alive
    connections_ := (o.connName s.nextConnId_, s.nextConnId_) ::
      s.connections_.filter fun e => e.1 ≠ o.connName s.nextConnId_
    nextConnId_ := s.nextConnId_ + 1 }

/-- `newConnection`, whose last call runs `connectEstablished` at once. -/
def newConnection (s : Reactor) (fd : Nat) (onConnection : List UserCall) : Reactor :=
  put o (create o s fd) s.nextConnId_ (((create o s fd).view s.nextConnId_).onConn fun c =>
    c.connectEstablished.messageCallback onConnection)

/-- `Acceptor::handleRead`; `accepted` is what `accept4` gives, if it gives an fd. -/
def acceptorHandleRead (s : Reactor) (accepted : Option Nat) (onConnection : List UserCall) :
    Reactor :=
  match accepted with
  | some fd => newConnection o s fd onConnection
  | none => s

/-- `handleEvemt` of a channel. The acceptor's has a read callback only. -/
def handleEvent (s : Reactor) (id : Nat) (accepted : Option Nat) (onConnection : List UserCall)
    (e : ChannelEvent) : Reactor :=
  if id = 0 then
    if TcpServer.reads e then acceptorHandleRead o s accepted onConnection else s
  else if s.alive.contains id then put o s id ((s.view id).handleEventWithGuard e)
  else { s with fault := true }

/-- One functor of `doPendingFunctors`, which is still in `functors`. -/
def runFunctor (s : Reactor) (id : Nat) (f : Functor) (answer : Except Errno Nat) : Reactor :=
  if s.alive.contains id then
    put o s id ((s.view id).onConn fun c => c.runFunctor answer f)
  else { s with fault := true }

/-- `EpollPoller::poll`: `ready` is what has occurred on which fds. -/
def poll (s : Reactor) (ready : List (Nat × Mask)) : Reactor :=
  let activeChannels_ := ready.filterMap fun r => s.poller_.wait r.1 r.2
  { s with
    phase := .handling activeChannels_
    events_ := if activeChannels_.length = s.events_ then s.events_ * 2 else s.events_
    -- `set_revents` is a write to the channel
    fault := s.fault || activeChannels_.any fun a => a.1 != 0 && !s.alive.contains a.1 }

end Reactor

/-- The steps: the loop's own, each with how the calls it makes turn out, and what user code does
with a pointer it has or gets. -/
inductive ReactorAction where
  | poll (ready : List (Nat × Mask))
  | handleEvent (accepted : Option Nat) (onConnection : List UserCall) (readResult : ReadResult)
      (onMessage : List UserCall) (answer : Except Errno Nat)
  | runFunctor (answer : Except Errno Nat)
  | next
  | keep (id : Nat)
  | release (id : Nat)
  | call (id : Nat) (c : UserCall)

namespace Reactor

variable (o : ServerOptions)

def step (s : Reactor) : ReactorAction → Option Reactor
  | .poll ready =>
    match s.phase with
    | .poll =>
      if (ready.map (·.1)).Nodup ∧ ready.length ≤ s.events_ then some (s.poll ready) else none
    | _ => none
  | .handleEvent accepted onConnection readResult onMessage answer =>
    match s.phase with
    | .handling ((id, revents) :: rest) =>
      if accepted.all (s.freeFd o) then
        some (reap (handleEvent o { s with phase := .handling rest } id accepted onConnection
          ⟨revents, readResult, onMessage, answer⟩))
      else none
    | _ => none
  | .runFunctor answer =>
    match s.phase with
    | .calling functors ((id, f) :: rest) =>
      some (reap (runFunctor o { s with phase := .calling functors rest } id f answer))
    | _ => none
  | .next =>
    match s.phase with
    | .handling [] =>
      some { s with phase := .calling s.pendingFuntors_ s.pendingFuntors_, pendingFuntors_ := [] }
    | .calling _ [] => some (reap { s with phase := .poll })
    | _ => none
  | .keep id => if s.alive.contains id then some { s with users := id :: s.users } else none
  | .release id => some (reap { s with users := s.users.erase id })
  | .call id c =>
    if s.users.contains id then some (reap (put o s id ((s.view id).onConn fun m => m.userCall c)))
    else none

/-- What a step can be, with the phase it is taken in. -/
inductive Moves (s : Reactor) : ReactorAction → Reactor → Prop where
  | poll {ready : List (Nat × Mask)} (hphase : s.phase = .poll) (hready : (ready.map (·.1)).Nodup) :
      Moves s (.poll ready) (s.poll ready)
  | handleEvent {id : Nat} {revents : Mask} {rest : List (Nat × Mask)} {accepted : Option Nat}
      {onConnection onMessage : List UserCall} {readResult : ReadResult} {answer : Except Errno Nat}
      (hphase : s.phase = .handling ((id, revents) :: rest))
      (hfree : accepted.all (s.freeFd o) = true) :
      Moves s (.handleEvent accepted onConnection readResult onMessage answer)
        (reap (handleEvent o { s with phase := .handling rest } id accepted onConnection
          ⟨revents, readResult, onMessage, answer⟩))
  | runFunctor {id : Nat} {f : Functor} {functors rest : List (Nat × Functor)}
      {answer : Except Errno Nat} (hphase : s.phase = .calling functors ((id, f) :: rest)) :
      Moves s (.runFunctor answer)
        (reap (runFunctor o { s with phase := .calling functors rest } id f answer))
  | batch (hphase : s.phase = .handling []) :
      Moves s .next { s with
        phase := .calling s.pendingFuntors_ s.pendingFuntors_, pendingFuntors_ := [] }
  | batchEnd {functors : List (Nat × Functor)} (hphase : s.phase = .calling functors []) :
      Moves s .next (reap { s with phase := .poll })
  | keep {id : Nat} (hid : id ∈ s.alive) : Moves s (.keep id) { s with users := id :: s.users }
  | release {id : Nat} : Moves s (.release id) (reap { s with users := s.users.erase id })
  | call {id : Nat} {c : UserCall} (hid : id ∈ s.users) :
      Moves s (.call id c) (reap (put o s id ((s.view id).onConn fun m => m.userCall c)))

theorem step_moves {s t : Reactor} {a : ReactorAction} (ht : step o s a = some t) :
    Moves o s a t := by
  cases a with
  | poll ready =>
    simp only [step] at ht
    split at ht
    next hphase =>
      split_ifs at ht with hready
      obtain rfl := Option.some.inj ht
      exact .poll hphase hready.1
    next => cases ht
  | handleEvent accepted onConnection readResult onMessage answer =>
    simp only [step] at ht
    split at ht
    next id revents rest hphase =>
      split_ifs at ht with hfree
      obtain rfl := Option.some.inj ht
      exact .handleEvent hphase hfree
    next => cases ht
  | runFunctor answer =>
    simp only [step] at ht
    split at ht
    next functors id f rest hphase =>
      obtain rfl := Option.some.inj ht
      exact .runFunctor hphase
    next => cases ht
  | next =>
    simp only [step] at ht
    split at ht
    next hphase =>
      obtain rfl := Option.some.inj ht
      exact .batch hphase
    next functors hphase =>
      obtain rfl := Option.some.inj ht
      exact .batchEnd hphase
    next => cases ht
  | keep id =>
    simp only [step] at ht
    split_ifs at ht with halive
    obtain rfl := Option.some.inj ht
    exact .keep (List.contains_iff_mem.mp halive)
  | release id =>
    obtain rfl := Option.some.inj ht
    exact .release
  | call id c =>
    simp only [step] at ht
    split_ifs at ht with hu
    obtain rfl := Option.some.inj ht
    exact .call (List.contains_iff_mem.mp hu)

end Reactor

end Mymuduo.Net
