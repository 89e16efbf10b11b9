import PcNetwork.NetSelect.Registration

namespace PcNetwork.NetSelect
open SelectService (Outside Connection ListenAnswer)

-- A function of the service that waits for its callback to return: registerSocket,
-- closePeer and eventLoop. `loop` is eventLoop between two rounds of its loop over the
-- online peers.
inductive Frame where
  | onCon (index : Nat)
  | onDisCon (index : Nat)
  | onRead (index : Nat) (o : Outside)
  | loop (o : Outside) (i : Nat)

-- SelectIOService in small steps: what the application does in a callback is a step of
-- its own. `passed` are the bytes that it has passed to send for the connection that is
-- in a slot, `accepted` those that ::send has taken for it.
structure Machine where
  service : SelectService
  stack : List Frame
  passed : Nat → List UInt8
  accepted : Nat → List UInt8

abbrev Moves := EStateM Fault Machine

namespace Machine
open SelectService (getPeer getFreeIndex onReadBuf onWriteBuf sockRead sockWrite initSets)

def new : Machine := ⟨.new,[],fun _ => [],fun _ => []⟩

-- A part of a function that calls nothing of the application.
def call (f : Select α) : Moves α := fun m =>
  match f m.service with
  | .ok a s => .ok a {m with service := s}
  | .error e s => .error e {m with service := s}

def callback (c : Callback) (frame : Frame) : Moves Unit := modify fun m =>
  {m with service := {m.service with callbacks := m.service.callbacks ++ [c]},stack := frame :: m.stack}

def pass (index : Nat) (bytes : List UInt8) (m : Machine) : Machine :=
  {m with passed := fun i => if i = index then m.passed i ++ bytes else m.passed i}

def accept (index : Nat) (bytes : List UInt8) (m : Machine) : Machine :=
  {m with accepted := fun i => if i = index then m.accepted i ++ bytes else m.accepted i}

def forget (index : Nat) (m : Machine) : Machine :=
  {m with
    passed := fun i => if i = index then [] else m.passed i
    accepted := fun i => if i = index then [] else m.accepted i}

-- The connection (index, serial) is online.
def Live (m : Machine) (index : Nat) (serial : UInt64) : Prop :=
  (m.service.peers index).serial = serial ∧ (m.service.peers index).socket ≠ invalidSocket

instance (m : Machine) (index : Nat) (serial : UInt64) : Decidable (m.Live index serial) := inferInstanceAs (Decidable (_ ∧ _))

def send (index : Nat) (serial : UInt64) (buf : List UInt8) : Moves Unit := do
  modify fun m => if m.Live index serial then m.pass index buf else m
  call (SelectService.send index serial buf)

def closePeer (index : Nat) (serial : UInt64) : Moves Unit := do
  let p ← call (getPeer index)
  if p.serial ≠ serial ∨ p.socket = invalidSocket then pure ()
  else callback (.onDisCon index serial p.remoteIp p.remotePort) (.onDisCon index)

-- closePeer after onDisCon.
def onDisConDone (index : Nat) : Moves Unit := call do
  modify fun s => {s with onlinePeerSet := s.onlinePeerSet.erase index}
  modify fun s => s.setPeer index {s.peers index with socket := invalidSocket}
  -- p->socket is INVALID_SOCKET from here on
  modify fun s => {s with closed := s.closed ++ [(s.peers index).socket]}
  modify fun s => {s with readBak := fdClr (s.peers index).socket s.readBak}
  modify fun s => {s with readUse := fdClr (s.peers index).socket s.readUse}

def registerSocket (socket : Int) (remoteIp : String) (remotePort : UInt32) : Moves Unit := do
  let index ← call (modifyGet fun s => s.getFreeIndex)
  let _ ← call (getPeer index)
  call (modify fun s => {s.setPeer index {s.peers index with remoteIp,remotePort,socket} with
    onlinePeerSet := s.onlinePeerSet ++ [index]
    registered := s.registered ++ [socket]})
  modify (forget index)
  let p ← call (getPeer index)
  callback (.onCon index p.serial remoteIp remotePort) (.onCon index)

-- registerSocket after onCon.
def onConDone (index : Nat) (ret : Int) : Moves Unit := do
  let p ← call (getPeer index)
  if ret < 0 then closePeer index p.serial
  else call (modify fun s => {s with readBak := fdSet p.socket s.readBak})

def connectPeer : Option Connection → Moves Bool
  | none => throw (.exception "create socket error.")
  | some c => do
    if c.socket = invalidSocket then return false
    else
      registerSocket c.socket c.remoteIp c.remotePort
      return true

-- What ::send takes of the readable bytes.
def sendTakes (answer : Option Nat) (b : SockBuf) : List UInt8 :=
  match answer with
  | none => []
  | some count => b.readable.take count

-- The body of the loop over the online peers in its two halves, as in SelectService.
def serveWrite (o : Outside) (index : Nat) : Moves Unit := do
  let p ← call (getPeer index)
  let m ← get
  if p.socket ∈ m.service.writeUse then
    let ret ← call (sockWrite index (o.sends p.socket))
    if ret ≠ 0 then closePeer index p.serial
    else
      modify (accept index (sendTakes (o.sends p.socket) p.writeBuf))
      let left ← call (onWriteBuf index SockBuf.readableBytes)
      if left = 0 then
        call (modify fun s => {s with writeBak := fdClr p.socket s.writeBak,writeUse := fdClr p.socket s.writeUse})
      else pure ()
  else pure ()

def serveRead (o : Outside) (index : Nat) : Moves Unit := do
  let p ← call (getPeer index)
  let m ← get
  if p.socket ∈ m.service.readUse then
    let ret ← call (sockRead index (o.recvs p.socket))
    if ret ≠ 0 then closePeer index p.serial
    else callback (.onRead index p.serial) (.onRead index o)
  else serveWrite o index

-- The round after onRead.
def onReadDone (o : Outside) (index : Nat) (ret : Int) : Moves Unit := do
  let p ← call (getPeer index)
  if ret < 0 then closePeer index p.serial
  else serveWrite o index

def acceptNew (o : Outside) : Moves Unit := do
  let m ← get
  if m.service.listenSocket ≠ invalidSocket ∧ m.service.listenSocket ∈ m.service.readUse then
    if o.accepted.socket ≠ invalidSocket then registerSocket o.accepted.socket o.accepted.remoteIp o.accepted.remotePort
    else throw (.exception s!"accept error. errno:{o.error}")
  else pure ()

-- eventLoop up to its loop over the online peers.
def eventLoop (o : Outside) : Moves Unit := do
  call initSets
  match o.ready with
  | none => throw (.exception s!"Error at socket(): {o.error}\n")
  | some (reads,writes) =>
    call (modify fun s => {s with readUse := s.readUse.filter reads,writeUse := s.writeUse.filter writes})
    let m ← get
    if m.service.readUse.length+m.service.writeUse.length > 0 then
      modify fun m => {m with stack := .loop o 0 :: m.stack}
      acceptNew o
    else pure ()

-- One round of the loop, or its end.
def round : Moves Unit := do
  let m ← get
  match m.stack with
  | .loop o i :: rest =>
    match m.service.onlinePeerSet[i]? with
    | none => modify fun m => {m with stack := rest}
    | some index =>
      modify fun m => {m with stack := .loop o (i+1) :: rest}
      serveRead o index
  | _ => pure ()

-- The callback that was called last returns.
def resume (ret : Int) : Moves Unit := do
  let m ← get
  match m.stack with
  | .onCon index :: rest =>
    modify fun m => {m with stack := rest}
    onConDone index ret
  | .onDisCon index :: rest =>
    modify fun m => {m with stack := rest}
    onDisConDone index
  | .onRead index o :: rest =>
    modify fun m => {m with stack := rest}
    onReadDone o index ret
  | .loop _ _ :: _ | [] => pure ()

-- In onRead the application takes bytes out of the buffer.
def pop (len : UInt32) : Moves Unit := do
  let m ← get
  match m.stack with
  | .onRead index _ :: _ =>
    let _ ← call (onReadBuf index (SockBuf.pop len))
  | _ => pure ()

end Machine

-- What the application calls, from outside or within a callback, what its callbacks
-- return, and the rounds of the loop.
inductive MachineEvent where
  | listen (a : ListenAnswer)
  | connectPeer (c : Option Connection)
  | send (index : Nat) (serial : UInt64) (buf : Bytes)
  | closePeer (index : Nat) (serial : UInt64)
  | pop (len : UInt32)
  | resume (ret : Int)
  | eventLoop (o : Outside)
  | round

namespace Machine

def run : MachineEvent → Moves Unit
  | .listen a => call (SelectService.listen a)
  | .connectPeer c => do let _ ← connectPeer c
  | .send index serial buf => send index serial buf.bytes
  | .closePeer index serial => closePeer index serial
  | .pop len => pop len
  | .resume ret => resume ret
  | .eventLoop o => eventLoop o
  | .round => round

-- The application is running.
def Applies (m : Machine) : Prop := ∀ o i rest, m.stack ≠ .loop o i :: rest

-- A handle given by socket, connect or accept is not in use.
def Genuine (m : Machine) : MachineEvent → Prop
  | .listen a => m.Applies ∧ (a.socket ≠ invalidSocket → m.service.Fresh a.socket)
  | .connectPeer (some c) => m.Applies ∧ (c.socket ≠ invalidSocket → m.service.Fresh c.socket)
  | .connectPeer none | .send _ _ _ | .closePeer _ _ | .pop _ | .resume _ => m.Applies
  | .eventLoop o => m.stack = [] ∧ (o.accepted.socket ≠ invalidSocket → m.service.Fresh o.accepted.socket)
  | .round => True

-- Nothing catches an exception, so a run goes on only where the call returns.
inductive MachineStep : Machine → MachineEvent → Machine → Prop where
  | returns (genuine : Genuine m event) (ran : run event m = .ok () after) : MachineStep m event after

end Machine
end PcNetwork.NetSelect
