import PcNetwork.Libnet.SockBuf

namespace PcNetwork.NetSelect

def invalidSocket : Int := -1
def maxPeerNum : Nat := 1024*10

-- An fd_set of winsock: the sockets in it, FD_SETSIZE of them at most.
def fdSetSize : Nat := 64

def fdSet (socket : Int) (set : List Int) : List Int :=
  if socket ∈ set then set else if set.length < fdSetSize then set ++ [socket] else set

def fdClr (socket : Int) (set : List Int) : List Int := set.erase socket

structure Peer where
  socket : Int
  remoteIp : String
  remotePort : UInt32
  serial : UInt64
  readBuf : SockBuf
  writeBuf : SockBuf

instance : Inhabited Peer := ⟨⟨invalidSocket,"",0,0,.new 100,.new 100⟩⟩

inductive Callback where
  | onCon (index : Nat) (serial : UInt64) (remoteIp : String) (remotePort : UInt32)
  | onDisCon (index : Nat) (serial : UInt64) (remoteIp : String) (remotePort : UInt32)
  | onRead (index : Nat) (serial : UInt64)

-- What the application does in a callback, and the value it returns. `pop` takes bytes
-- out of the SockBuf that onRead is given.
inductive Call where
  | send (index : Nat) (serial : UInt64) (buf : List UInt8)
  | closePeer (index : Nat) (serial : UInt64)
  | pop (len : UInt32)

structure Script where
  calls : List Call
  ret : Int
  deriving Inhabited

-- SelectIOService. `onlinePeerSet` is the vector of that name, `serial` the static
-- s_serial, `scripts` what the application does in the callbacks to come, `registered`
-- the sockets handed to registerSocket and `closed` those passed to CloseSocket.
structure SelectService where
  listenSocket : Int
  readBak : List Int
  readUse : List Int
  writeBak : List Int
  writeUse : List Int
  onlinePeerSet : List Nat
  peers : Nat → Peer
  serial : UInt64
  scripts : List Script
  callbacks : List Callback
  registered : List Int
  closed : List Int

-- An exception can be caught. A pointer that is NULL when it is read ends the process.
inductive Fault where
  | exception (text : String)
  | nullPointer

abbrev Select := EStateM Fault SelectService

namespace SelectService

def new : SelectService := ⟨invalidSocket,[],[],[],[],[],fun _ => default,0,[],[],[],[]⟩

def setPeer (s : SelectService) (index : Nat) (p : Peer) : SelectService :=
  {s with peers := fun i => if i = index then p else s.peers i}

-- Peers index from `from` on, `count` of them.
def freeIndex (peers : Nat → Peer) : Nat → Nat → Option Nat
  | 0,_ => none
  | count+1,i => if (peers i).socket = invalidSocket then some i else freeIndex peers count (i+1)

-- The index -1 is the largest UI32.
def getFreeIndex (s : SelectService) : Nat × SelectService :=
  match freeIndex s.peers maxPeerNum 0 with
  | none => (2^32-1,s)
  | some i =>
    let p := s.peers i
    (i,{s.setPeer i {p with
        serial := s.serial
        readBuf := final (SockBuf.reset p.readBuf)
        writeBuf := final (SockBuf.reset p.writeBuf)} with serial := s.serial+1})

def getPeer (index : Nat) : Select Peer := fun s =>
  if index ≥ maxPeerNum then .error .nullPointer s else .ok (s.peers index) s

-- A member function of one of the buffers of a peer.
def onReadBuf (index : Nat) (f : Throwing SockBuf α) : Select α := fun s =>
  match f (s.peers index).readBuf with
  | .ok a b => .ok a (s.setPeer index {s.peers index with readBuf := b})
  | .error e b => .error (.exception e) (s.setPeer index {s.peers index with readBuf := b})

def onWriteBuf (index : Nat) (f : Throwing SockBuf α) : Select α := fun s =>
  match f (s.peers index).writeBuf with
  | .ok a b => .ok a (s.setPeer index {s.peers index with writeBuf := b})
  | .error e b => .error (.exception e) (s.setPeer index {s.peers index with writeBuf := b})

def send (index : Nat) (serial : UInt64) (buf : List UInt8) : Select Unit := do
  let p ← getPeer index
  if p.serial ≠ serial ∨ p.socket ≤ 0 then pure ()
  else
    onWriteBuf index (SockBuf.push buf)
    modify fun s => {s with writeBak := fdSet p.socket s.writeBak}

-- The calls of the application within a callback, with the closePeer they reach.
def runCall (close : Nat → UInt64 → Select Unit) (buffer : Option Nat) : Call → Select Unit
  | .send index serial buf => send index serial buf
  | .closePeer index serial => close index serial
  | .pop len =>
    match buffer with
    | none => pure ()
    | some index => do
      let _ ← onReadBuf index (SockBuf.pop len)

def runCalls (close : Nat → UInt64 → Select Unit) (buffer : Option Nat) : List Call → Select Unit
  | [] => pure ()
  | call :: rest => do
    runCall close buffer call
    runCalls close buffer rest

def callback (close : Nat → UInt64 → Select Unit) (buffer : Option Nat) (c : Callback) : Select Int := do
  let script ← modifyGet fun s =>
    (s.scripts.headD default,{s with scripts := s.scripts.tail,callbacks := s.callbacks ++ [c]})
  runCalls close buffer script.calls
  return script.ret

-- closePeer calls itself through onDisCon. Every level takes one script, so a depth of
-- the number of scripts is never exceeded.
def closeTo : Nat → Nat → UInt64 → Select Unit
  | depth,index,serial => do
    let p ← getPeer index
    if p.serial ≠ serial ∨ p.socket = invalidSocket then pure ()
    else
      let _ ← callback (match depth with | 0 => fun _ _ => pure () | depth+1 => closeTo depth) none
        (.onDisCon index serial p.remoteIp p.remotePort)
      modify fun s => {s with onlinePeerSet := s.onlinePeerSet.erase index}
      modify fun s => s.setPeer index {s.peers index with socket := invalidSocket}
      -- p->socket is INVALID_SOCKET from here on
      modify fun s => {s with closed := s.closed ++ [(s.peers index).socket]}
      modify fun s => {s with readBak := fdClr (s.peers index).socket s.readBak}
      modify fun s => {s with readUse := fdClr (s.peers index).socket s.readUse}

def closePeer (index : Nat) (serial : UInt64) : Select Unit := do
  let s ← get
  closeTo s.scripts.length index serial

def registerSocket (socket : Int) (remoteIp : String) (remotePort : UInt32) : Select Unit := do
  let index ← modifyGet fun s => s.getFreeIndex
  let _ ← getPeer index
  modify fun s => {s.setPeer index {s.peers index with remoteIp,remotePort,socket} with
    onlinePeerSet := s.onlinePeerSet ++ [index]
    registered := s.registered ++ [socket]}
  let p ← getPeer index
  let ret ← callback closePeer none (.onCon index p.serial remoteIp remotePort)
  let p ← getPeer index
  if ret < 0 then closePeer index p.serial
  else modify fun s => {s with readBak := fdSet p.socket s.readBak}

-- What connect or accept gives: a socket, or INVALID_SOCKET.
structure Connection where
  socket : Int
  remoteIp : String
  remotePort : UInt32

-- `none` where CreateSocket fails.
def connectPeer : Option Connection → Select Bool
  | none => throw (.exception "create socket error.")
  | some c => do
    if c.socket = invalidSocket then return false
    else
      registerSocket c.socket c.remoteIp c.remotePort
      return true

-- The results of socket, bind, setsockopt and listen.
structure ListenAnswer where
  socket : Int
  bound : Bool
  buffered : Bool
  listening : Bool
  error : Int

def listen (a : ListenAnswer) : Select Unit := do
  modify fun s => {s with listenSocket := a.socket}
  if a.socket = invalidSocket then throw (.exception s!"Error at socket(): {a.error}\n")
  else if a.bound = false then throw (.exception "bind failed.")
  else if a.buffered = false then throw (.exception s!"setsockopt(SNDBUF) failed: {a.error}\n")
  else if a.listening = false then throw (.exception s!"listen() failed: {a.error}\n")
  else pure ()

-- What one eventLoop meets: the sockets that select finds ready (or an error of select),
-- the accepted connection, what ::recv returns for a socket (`some []` is the end of the
-- stream, `none` an error) and how many bytes ::send takes (`none` is an error).
structure Outside where
  ready : Option ((Int → Bool) × (Int → Bool))
  accepted : Connection
  recvs : Int → Option (List UInt8)
  sends : Int → Option Nat
  error : Int

def sockRead (index : Nat) (answer : Option (List UInt8)) : Select Int := do
  onReadBuf index (SockBuf.ensureWritableBytes 512)
  let room ← onReadBuf index SockBuf.writableBytes
  match answer with
  | none => return -2
  | some [] => return -1
  | some bytes =>
    onReadBuf index (SockBuf.fill (bytes.take room.toNat))
    onReadBuf index (SockBuf.writeMove (UInt32.ofNat (bytes.take room.toNat).length))
    return 0

def sockWrite (index : Nat) (answer : Option Nat) : Select Int := do
  let readable ← onWriteBuf index SockBuf.readableBytes
  if readable.toInt32 > 0 then
    match answer with
    | none => return -1
    | some count =>
      onWriteBuf index (SockBuf.readMove (UInt32.ofNat (min count readable.toNat)))
      return 0
  else return 0

def initSets : Select Unit := do
  modify fun s => {s with readUse := [],writeUse := []}
  -- &read_set_ is the address of read_set_[SELECT_BAK]
  modify fun s => if s.listenSocket ≠ invalidSocket then {s with readBak := fdSet s.listenSocket s.readBak} else s
  modify fun s => {s with readUse := s.readBak,writeUse := s.writeBak}

-- The body of the loop over the online peers, in its two halves. The first says whether
-- the second is reached.
def serveRead (o : Outside) (index : Nat) : Select Bool := do
  let p ← getPeer index
  let s ← get
  if p.socket ∈ s.readUse then
    let ret ← sockRead index (o.recvs p.socket)
    if ret ≠ 0 then
      closePeer index p.serial
      return false
    else
      let ret ← callback closePeer (some index) (.onRead index p.serial)
      if ret < 0 then
        closePeer index p.serial
        return false
      else return true
  else return true

def serveWrite (o : Outside) (index : Nat) : Select Unit := do
  let p ← getPeer index
  let s ← get
  if p.socket ∈ s.writeUse then
    let ret ← sockWrite index (o.sends p.socket)
    if ret ≠ 0 then closePeer index p.serial
    else
      let left ← onWriteBuf index SockBuf.readableBytes
      if left = 0 then
        modify fun s => {s with writeBak := fdClr p.socket s.writeBak,writeUse := fdClr p.socket s.writeUse}
      else pure ()
  else pure ()

-- `count` bounds the rounds: the set does not grow while the loop runs.
def serveFrom (o : Outside) : Nat → Nat → Select Unit
  | 0,_ => pure ()
  | count+1,i => do
    let s ← get
    match s.onlinePeerSet[i]? with
    | none => pure ()
    | some index =>
      if ← serveRead o index then serveWrite o index
      serveFrom o count (i+1)

def acceptNew (o : Outside) : Select Unit := do
  let s ← get
  if s.listenSocket ≠ invalidSocket ∧ s.listenSocket ∈ s.readUse then
    if o.accepted.socket ≠ invalidSocket then registerSocket o.accepted.socket o.accepted.remoteIp o.accepted.remotePort
    else throw (.exception s!"accept error. errno:{o.error}")
  else pure ()

def eventLoop (o : Outside) : Select Unit := do
  initSets
  match o.ready with
  | none => throw (.exception s!"Error at socket(): {o.error}\n")
  | some (reads,writes) =>
    modify fun s => {s with readUse := s.readUse.filter reads,writeUse := s.writeUse.filter writes}
    let s ← get
    if s.readUse.length+s.writeUse.length > 0 then
      acceptNew o
      let s ← get
      serveFrom o s.onlinePeerSet.length 0
    else pure ()

end SelectService
end PcNetwork.NetSelect
