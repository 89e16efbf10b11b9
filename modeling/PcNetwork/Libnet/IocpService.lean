import PcNetwork.Libnet.SockBuf

namespace PcNetwork.Libnet

def invalidSocket : Int := -1
def maxPeerNum : Nat := 1024*5

structure Peer where
  socket : Int
  remoteIp : String
  remotePort : UInt32
  serial : UInt64
  wsaSend : Bool
  readBuf : SockBuf
  writeBuf : SockBuf
  writeBufBackup : SockBuf

instance : Inhabited Peer := ⟨⟨invalidSocket,"",0,0,false,.new 100,.new 100,.new 100⟩⟩

-- What an IOContext has been handed to the system for, with the buffer as it was then.
-- `posted` is PostQueuedCompletionStatus with 0 bytes.
inductive Request where
  | recv (buf : SockBuf)
  | send (buf : SockBuf)
  | posted

-- An operation that is outstanding. A completion carries its context and the index; the
-- serial of the connection that it was posted for is kept for the statements only.
structure Operation where
  context : Nat
  index : Nat
  serial : UInt64
  request : Request

inductive Callback where
  | onCon (index : Nat) (serial : UInt64) (remoteIp : String) (remotePort : UInt32)
  | onDisCon (index : Nat) (serial : UInt64) (remoteIp : String) (remotePort : UInt32)
  | onRead (index : Nat) (serial : UInt64)

-- A function of the service that waits for its callback to return: registerSocket,
-- closePeer and processRead. A context is deleted when the rest of it is done.
inductive Frame where
  | onCon (index : Nat) (serial : UInt64)
  | onDisCon (index : Nat) (serial : UInt64) (context : Option Nat)
  | onRead (index : Nat) (serial : UInt64) (context : Nat)

-- Win_IOCP_IOService with its PeerManager (`peers`, `serial`). `pending` are the
-- operations not yet dequeued, `issued` the number of contexts that newIOCxt has given,
-- `freed` those that deleteIOCxt got, `closed` the sockets passed to CloseSocket.
structure IocpService where
  listenSd : Int
  peers : Nat → Peer
  serial : UInt64
  pending : List Operation
  issued : Nat
  freed : List Nat
  stack : List Frame
  callbacks : List Callback
  closed : List Int

-- What the system answers to the call that an event makes of it.
structure System where
  accepts : Bool
  error : Int

namespace IocpService

def new : IocpService := ⟨invalidSocket,fun _ => default,0,[],0,[],[],[],[]⟩

def setPeer (s : IocpService) (index : Nat) (p : Peer) : IocpService :=
  {s with peers := fun i => if i = index then p else s.peers i}

-- Peers i on, `count` of them.
def freePeer (peers : Nat → Peer) : Nat → Nat → Option Nat
  | 0,_ => none
  | count+1,i => if (peers i).socket = invalidSocket then some i else freePeer peers count (i+1)

-- The index -1 is the largest UI32.
def newPeer (s : IocpService) : Nat × IocpService :=
  match freePeer s.peers maxPeerNum 0 with
  | none => (2^32-1,s)
  | some i =>
    let p := s.peers i
    (i,{s.setPeer i {p with
        serial := s.serial
        socket := invalidSocket
        readBuf := final (SockBuf.reset p.readBuf)
        writeBuf := final (SockBuf.reset p.writeBuf)
        writeBufBackup := final (SockBuf.reset p.writeBufBackup)
        wsaSend := false
        remoteIp := ""
        remotePort := 0} with serial := s.serial+1})

def getPeer (index : Nat) : Throwing IocpService Peer := fun s =>
  if index ≥ maxPeerNum then .error s!"index:{index} is out of range:{maxPeerNum}" s else .ok (s.peers index) s

def modifyPeer (index : Nat) (f : Peer → Peer) : Throwing IocpService Unit :=
  modify fun s => s.setPeer index (f (s.peers index))

-- A member function of one of the buffers of a peer.
def onReadBuf (index : Nat) (f : Throwing SockBuf α) : Throwing IocpService α := fun s =>
  match f (s.peers index).readBuf with
  | .ok a b => .ok a (s.setPeer index {s.peers index with readBuf := b})
  | .error e b => .error e (s.setPeer index {s.peers index with readBuf := b})

def onWriteBuf (index : Nat) (f : Throwing SockBuf α) : Throwing IocpService α := fun s =>
  match f (s.peers index).writeBuf with
  | .ok a b => .ok a (s.setPeer index {s.peers index with writeBuf := b})
  | .error e b => .error e (s.setPeer index {s.peers index with writeBuf := b})

def onBackup (index : Nat) (f : Throwing SockBuf α) : Throwing IocpService α := fun s =>
  match f (s.peers index).writeBufBackup with
  | .ok a b => .ok a (s.setPeer index {s.peers index with writeBufBackup := b})
  | .error e b => .error e (s.setPeer index {s.peers index with writeBufBackup := b})

def newIOCxt : Throwing IocpService Nat := modifyGet fun s => (s.issued,{s with issued := s.issued+1})

def deleteIOCxt : Option Nat → Throwing IocpService Unit
  | none => pure ()
  | some context => modify fun s => {s with freed := s.freed ++ [context]}

def deletePeer (index : Nat) : Throwing IocpService Unit := do
  let _ ← getPeer index
  modifyPeer index fun p => {p with socket := invalidSocket}

-- The application is called; `frame` goes on when it returns.
def callback (c : Callback) (frame : Frame) : Throwing IocpService Unit :=
  modify fun s => {s with callbacks := s.callbacks ++ [c],stack := frame :: s.stack}

-- `context` is what the caller of closePeer deletes next.
def closePeer (index : Nat) (serial : UInt64) (context : Option Nat) : Throwing IocpService Unit := do
  let p ← getPeer index
  if p.serial ≠ serial ∨ p.socket = invalidSocket then deleteIOCxt context
  else callback (.onDisCon index serial p.remoteIp p.remotePort) (.onDisCon index serial context)

-- closePeer after onDisCon.
def onDisConDone (index : Nat) (context : Option Nat) : Throwing IocpService Unit := do
  modify fun s => {s with closed := s.closed ++ [(s.peers index).socket]}
  deletePeer index
  deleteIOCxt context

def postRecvRequest (sys : System) (index : Nat) (serial : UInt64) (context : Option Nat) : Throwing IocpService Unit := do
  let p ← getPeer index
  if p.serial ≠ serial ∨ p.socket = invalidSocket then deleteIOCxt context
  else
    let io ← newIOCxt
    onReadBuf index (SockBuf.ensureWritableBytes 512)
    let _ ← onReadBuf index SockBuf.writableBytes
    -- WSARecv; ERROR_IO_PENDING is an acceptance too
    if sys.accepts then
      modify fun s => {s with pending := s.pending ++ [⟨io,index,serial,.recv (s.peers index).readBuf⟩]}
      deleteIOCxt context
    else closePeer index serial context

def postSendRequest (sys : System) (index : Nat) (serial : UInt64) (context : Option Nat) : Throwing IocpService Unit := do
  let p ← getPeer index
  if p.serial ≠ serial ∨ p.socket = invalidSocket then deleteIOCxt context
  else
    modifyPeer index fun p => {p with wsaSend := true}
    let io ← newIOCxt
    let _ ← onWriteBuf index SockBuf.readableBytes
    if sys.accepts then
      modify fun s => {s with pending := s.pending ++ [⟨io,index,serial,.send (s.peers index).writeBuf⟩]}
      deleteIOCxt context
    else closePeer index serial context

def send (sys : System) (index : Nat) (serial : UInt64) (buf : List UInt8) : Throwing IocpService Unit := do
  let p ← getPeer index
  if p.serial ≠ serial ∨ p.socket = invalidSocket then pure ()
  else
    onBackup index (SockBuf.apendBuf buf)
    if p.wsaSend then pure ()
    else
      modifyPeer index fun p => {p with wsaSend := true}
      let io ← newIOCxt
      -- PostQueuedCompletionStatus
      if sys.accepts then modify fun s => {s with pending := s.pending ++ [⟨io,index,serial,.posted⟩]}
      else throw s!"post erro. errnor:{sys.error}"

structure Connection where
  socket : Int
  remoteIp : String
  remotePort : UInt32

def updateCompletionPort (sys : System) : Throwing IocpService Unit :=
  if sys.accepts then pure () else throw s!"CreateIoCompletionPort error.errno:{sys.error}"

def registerSocket (sys : System) (c : Connection) : Throwing IocpService Unit := do
  let index ← modifyGet newPeer
  let _ ← getPeer index
  updateCompletionPort sys
  modifyPeer index fun p => {p with remoteIp := c.remoteIp,remotePort := c.remotePort,socket := c.socket}
  let p ← getPeer index
  callback (.onCon index p.serial p.remoteIp p.remotePort) (.onCon index p.serial)

-- registerSocket after onCon.
def onConDone (sys : System) (index : Nat) : Throwing IocpService Unit := do
  let p ← getPeer index
  postRecvRequest sys index p.serial none

-- ConnectSocket throws, or gives a socket or INVALID_SOCKET.
def connectPeer (sys : System) : Except String Connection → Throwing IocpService Bool
  | .error text => throw text
  | .ok c => do
    if c.socket = invalidSocket then return false
    else
      registerSocket sys c
      return true

-- ListenSocket: CreateSocket, then bind and listen, which may fail.
def listen (created : Except String Int) (failure : Option String) : Throwing IocpService Unit :=
  match created with
  | .error text => throw text
  | .ok sd => do
    modify fun s => {s with listenSd := sd}
    match failure with
    | none => pure ()
    | some text => throw text

-- What select and AcceptSocket find: `ok none` when nobody connects.
def onAcceptTick (sys : System) (answer : Except String (Option Connection)) : Throwing IocpService Unit := do
  let s ← get
  if s.listenSd = invalidSocket then throw "no socket is listen."
  else
    match answer with
    | .error text => throw text
    | .ok none => pure ()
    | .ok (some c) => registerSocket sys c

-- What was saved up while a send was outstanding is moved behind the rest of it.
def takeBackup (index : Nat) : Throwing IocpService Unit := do
  let sendBytes ← onBackup index SockBuf.readableBytes
  if sendBytes > 0 then
    let s ← get
    let backup := (s.peers index).writeBufBackup
    onWriteBuf index (SockBuf.apendBuf (Block.slice backup.buf backup.readIndex.toNat sendBytes.toNat))
    onBackup index (SockBuf.readMove sendBytes)
  else pure ()

def processWrite (sys : System) (index : Nat) (size : UInt32) (context : Nat) : Throwing IocpService Unit := do
  let p ← getPeer index
  if p.socket = invalidSocket then deleteIOCxt (some context)
  else
    modifyPeer index fun p => {p with wsaSend := false}
    onWriteBuf index (SockBuf.readMove size)
    takeBackup index
    let left ← onWriteBuf index SockBuf.readableBytes
    if left > 0 then postSendRequest sys index p.serial (some context)
    else deleteIOCxt (some context)

def processRead (index : Nat) (size : UInt32) (context : Nat) : Throwing IocpService Unit := do
  let p ← getPeer index
  if p.socket = invalidSocket then deleteIOCxt (some context)
  else
    onReadBuf index (SockBuf.writeMove size)
    callback (.onRead index p.serial) (.onRead index p.serial context)

-- processRead after onRead.
def onReadDone (sys : System) (index : Nat) (ret : Int) (context : Nat) : Throwing IocpService Unit := do
  let p ← getPeer index
  if ret < 0 then closePeer index p.serial (some context)
  else postRecvRequest sys index p.serial (some context)

-- What GetQueuedCompletionStatus reports: the k-th outstanding operation with the bytes
-- transferred (those that WSARecv stored), the same with ERROR_NETNAME_DELETED, or
-- another error.
inductive Completion where
  | timeout
  | success (k : Nat) (size : UInt32) (stored : List UInt8)
  | deleted (k : Nat)
  | failed

def dequeue (k : Nat) : Throwing IocpService (Option Operation) :=
  modifyGet fun s => (s.pending[k]?,{s with pending := s.pending.eraseIdx k})

-- WSARecv stores at the place that was the writeStart of the buffer it was given.
def store (index : Nat) (buf : SockBuf) (stored : List UInt8) : Throwing IocpService Unit :=
  modifyPeer index fun p =>
    {p with readBuf := {p.readBuf with buf := Block.patch p.readBuf.buf buf.writeIndex.toNat stored}}

-- onEventTick from the test of the socket on. The deleteIOCxt at its end is in the
-- functions it calls; it is not reached for a socket that is closed.
def dispatch (sys : System) (op : Operation) (size : UInt32) (stored : List UInt8) : Throwing IocpService Unit := do
  let p ← getPeer op.index
  if p.socket = invalidSocket then pure ()
  else
    match op.request with
    | .recv buf =>
      store op.index buf stored
      if size = 0 then closePeer op.index p.serial (some op.context)
      else processRead op.index size op.context
    | .send _ | .posted => processWrite sys op.index size op.context

def onEventTick (sys : System) : Completion → Throwing IocpService Bool
  | .timeout => return false
  | .failed => throw "shoud not be here."
  | .deleted k => do
    match ← dequeue k with
    | none => return false
    | some op =>
      let p ← getPeer op.index
      closePeer op.index p.serial (some op.context)
      return true
  | .success k size stored => do
    match ← dequeue k with
    | none => return false
    | some op =>
      dispatch sys op size stored
      return true

-- The callback that was called last returns.
def resume (sys : System) (ret : Int) : Throwing IocpService Unit := do
  let s ← get
  match s.stack with
  | [] => pure ()
  | frame :: rest =>
    modify fun s => {s with stack := rest}
    match frame with
    | .onCon index _ => onConDone sys index
    | .onDisCon index _ context => onDisConDone index context
    | .onRead index _ context => onReadDone sys index ret context

-- In onRead the application takes bytes out of the buffer.
def consume (len : UInt32) : Throwing IocpService Unit := do
  let s ← get
  match s.stack with
  | .onRead index _ _ :: _ => onReadBuf index (SockBuf.readMove len)
  | _ => pure ()

end IocpService

open IocpService in
-- What the application calls, from outside or within a callback, what its callbacks
-- return, and the ticks of eventLoop.
inductive IocpEvent where
  | connectPeer (answer : Except String Connection)
  | listen (created : Except String Int) (failure : Option String)
  | send (index : Nat) (serial : UInt64) (buf : Bytes)
  | closePeer (index : Nat) (serial : UInt64)
  | consume (len : UInt32)
  | resume (ret : Int)
  | acceptTick (answer : Except String (Option Connection))
  | eventTick (completion : Completion)

structure IocpInput where
  event : IocpEvent
  sys : System

namespace IocpService

def run (input : IocpInput) : Throwing IocpService Unit :=
  match input.event with
  | .connectPeer answer => do let _ ← connectPeer input.sys answer
  | .listen created failure => listen created failure
  | .send index serial buf => send input.sys index serial buf.bytes
  | .closePeer index serial => closePeer index serial none
  | .consume len => consume len
  | .resume ret => resume input.sys ret
  | .acceptTick answer => onAcceptTick input.sys answer
  | .eventTick completion => do let _ ← onEventTick input.sys completion

-- What the system may report for an operation: WSARecv stores into the free space, the
-- size of a WSASend is at most what it was given.
def Reports (op : Operation) (size : UInt32) (stored : List UInt8) : Prop :=
  match op.request with
  | .recv buf => stored.length = size.toNat ∧ size ≤ buf.size-buf.writeIndex
  | .send buf => stored = [] ∧ size.toNat ≤ buf.readable.length
  | .posted => stored = [] ∧ size = 0

def Genuine (s : IocpService) : IocpEvent → Prop
  | .connectPeer _ | .listen _ _ | .send _ _ _ | .closePeer _ _ | .consume _ | .resume _ => True
  | .acceptTick answer => s.stack = [] ∧ ∀ c, answer = .ok (some c) → c.socket ≠ invalidSocket
  | .eventTick .timeout | .eventTick .failed => s.stack = []
  | .eventTick (.deleted k) => s.stack = [] ∧ k < s.pending.length
  | .eventTick (.success k size stored) => s.stack = [] ∧ ∃ op, s.pending[k]? = some op ∧ Reports op size stored

-- Nothing catches an exception, so a run goes on only where the call returns.
inductive IocpStep : IocpService → IocpInput → IocpService → Prop where
  | returns (genuine : Genuine s input.event) (ran : run input s = .ok () t) : IocpStep s input t

end IocpService
end PcNetwork.Libnet
