import PcNetwork.Library.Ledger
import PcNetwork.Netlib.PacketFields
import PcNetwork.Netlib.Streams

namespace PcNetwork.Netlib

def nlibpCheckConnect : UInt16 := 0x0002
def nlibpPing : UInt16 := 0x0100
def nlibpPingRet : UInt16 := 0x0101
def nlibpIcQuery : UInt16 := 0x0201
def nlibpIcLost : UInt16 := 0x0202

-- A call of resend or update_ic_image.
inductive IcCall where
  | resend (ic : UInt16)
  | updateIcImage (lastIc : UInt16)
  deriving DecidableEq

-- The packets of a session. A NET_Packet is known by its address: `packets` is what is
-- there and `ledger` the account of new and delete. `popped` is the packet that
-- ProcessServer has from PopSendPacket until it gives it to send.
structure PacketStore where
  packets : Nat → NetPacket
  ledger : Ledger
  lstSendPacket : List Nat
  mapPacketImage : List (UInt16 × Nat)
  popped : Option Nat
  indexSendCheck : UInt16

-- TCP_Session with its NET_Session. What it does is kept: the bytes given to ::send, the
-- calls above, and every packet given to PushRecvPacket with the index that was expected.
-- `clock` is what Sys_GetTime returns to the session's own calls.
structure TcpSession extends PacketStore where
  indexRecvCheck : UInt16
  lastTime : UInt32
  netDelay : UInt32
  connectCheckTime : Int
  ricSeq : UInt32
  clock : List UInt32
  sent : List (List UInt8)
  calls : List IcCall
  given : List (UInt16 × NetPacket)

namespace TcpSession

def new : TcpSession where
  packets _ := NetPacket.new
  ledger := Ledger.new
  lstSendPacket := []
  mapPacketImage := []
  popped := none
  indexSendCheck := icBegin
  indexRecvCheck := icBegin
  lastTime := 0
  netDelay := 0
  connectCheckTime := 5000
  ricSeq := 0
  clock := []
  sent := []
  calls := []
  given := []

def getTime (s : TcpSession) : UInt32 × TcpSession := (s.clock.headD 0,{s with clock := s.clock.tail})

-- The addresses in the send list and in the image map.
def held (s : TcpSession) : List Nat := s.lstSendPacket ++ s.mapPacketImage.map Prod.snd

-- new and delete, and a method of a packet that reads it or writes to it.
def alloc (s : TcpSession) (p : NetPacket) : Nat × TcpSession :=
  (s.ledger.count,{s with packets := Function.update s.packets s.ledger.count p,ledger := s.ledger.alloc})
def delete (s : TcpSession) (a : Nat) : TcpSession := {s with ledger := s.ledger.delete a s.held}
def touch (s : TcpSession) (a : Nat) : TcpSession := {s with ledger := s.ledger.touch a}
def put (s : TcpSession) (a : Nat) (p : NetPacket) : TcpSession := {s.touch a with packets := Function.update s.packets a p}

-- The source declares PushSendPacket and does not define it.
def pushSendPacket (s : TcpSession) (a : Nat) : TcpSession := {s with lstSendPacket := s.lstSendPacket ++ [a]}

-- m_map_packet_image[ic] = packet, in the order of the indices.
def insertImage (ic : UInt16) (a : Nat) : List (UInt16 × Nat) → List (UInt16 × Nat)
  | [] => [(ic,a)]
  | image :: rest =>
    if ic < image.1 then (ic,a) :: image :: rest
    else if ic = image.1 then (ic,a) :: rest
    else image :: insertImage ic a rest

def markIndex (s : TcpSession) (a : Nat) : TcpSession :=
  let s := s.put a ((s.packets a).setIC s.indexSendCheck)
  let s := {s with mapPacketImage := insertImage s.indexSendCheck a s.mapPacketImage}
  {s with indexSendCheck := NetSession.next s.indexSendCheck}

def sendTo (s : TcpSession) (a : Nat) : TcpSession :=
  let (bytes,p) := (s.packets a).sendTo
  {s.put a p with sent := s.sent ++ [bytes]}

def send (s : TcpSession) (a : Nat) (bIC : Bool) : TcpSession :=
  if bIC then (s.markIndex a).sendTo a
  else
    let s := (s.sendTo a).touch a
    if (s.packets a).getIC = icNull then s.delete a else s

-- A packet that is made and sent at once.
def sendNew (s : TcpSession) (p : NetPacket) : TcpSession :=
  let (a,s) := s.alloc p
  s.send a false

def pushNew (s : TcpSession) (p : NetPacket) : TcpSession :=
  let (a,s) := s.alloc p
  s.pushSendPacket a

def timeSet (s : TcpSession) (time : UInt32) : TcpSession := {s with lastTime := time}

def ping (s : TcpSession) : TcpSession :=
  let (now,s) := s.getTime
  s.pushNew (((NetPacket.new.setCmd nlibpPing).begin.write32 now).write32 s.netDelay).end_

-- time_t has 64 bits, so the differences do not go round.
def checkConnect (s : TcpSession) (tm : UInt32) : TcpSession :=
  if tm < s.lastTime then {s with lastTime := tm}
  else if (tm.toNat : Int)-s.lastTime.toNat > s.connectCheckTime then
    s.pushNew ((NetPacket.new.setCmd nlibpCheckConnect).begin.write32 (tm-s.lastTime)).end_
  else s

def resend (s : TcpSession) (ic : UInt16) : TcpSession :=
  let s := {s with calls := s.calls ++ [IcCall.resend ic]}
  match s.mapPacketImage.lookup ic with
  | some a => s.send a false
  | none => s.sendNew ((NetPacket.new.setIC ic).setCmd nlibpIcLost)

def queryIC (s : TcpSession) : TcpSession :=
  let (tm,s) := s.getTime
  if (tm.toNat : Int)-s.ricSeq.toNat > 30 ∨ tm < s.ricSeq then
    {s with ricSeq := tm}.sendNew ((NetPacket.new.setCmd nlibpIcQuery).write16 s.indexRecvCheck)
  else s

def checkIndex (s : TcpSession) (a : Nat) : Bool × TcpSession :=
  let s := s.touch a
  let ic := (s.packets a).getIC
  if ic = icNull then (true,s)
  else if s.indexRecvCheck = ic then
    let s := {s with indexRecvCheck := s.indexRecvCheck+1}
    if s.indexRecvCheck % 16 = 0 then
      let s := s.sendNew ((NetPacket.new.setCmd nlibpIcOk).write16 s.indexRecvCheck)
      if s.indexRecvCheck > icEnd then (true,{s with indexRecvCheck := icBegin}) else (true,s)
    else (true,s)
  else (false,s)

-- The loop over the images: `kept` are those behind the iterator. An image that is
-- deleted leaves the map with it.
def updateLoop (lastIc : UInt16) : List (UInt16 × Nat) → List (UInt16 × Nat) → TcpSession → TcpSession
  | _,[],s => s
  | kept,image :: rest,s =>
    let s := s.touch image.2
    let d : Int := lastIc.toNat-(s.packets image.2).getIC.toNat
    if d > 0 ∧ d < 16*100 then updateLoop lastIc kept rest ({s with mapPacketImage := kept ++ rest}.delete image.2)
    else updateLoop lastIc (kept ++ [image]) rest s

def updateIcImage (s : TcpSession) (lastIc : UInt16) : TcpSession :=
  let s := {s with calls := s.calls ++ [IcCall.updateIcImage lastIc]}
  updateLoop lastIc [] s.mapPacketImage s

-- The switch of PushRecvPacket: its result, whether it closes the session, and the
-- session.
def command (s : TcpSession) (a : Nat) (time : UInt32) : Bool × Bool × TcpSession :=
  let p := s.packets a
  let s := s.touch a
  if p.getCmd = nlibpPing.toNat then
    let p := p.read32.2
    let (delay,p) := p.read32
    let s := {s with netDelay := delay}
    let s := s.put a (((p.setCmd nlibpPingRet).begin.write32 time).end_)
    (false,false,s.pushSendPacket a)
  else if p.getCmd = nlibpPingRet.toNat then
    let (tRef,p) := p.read32
    let s := s.put a p.read32.2.read32.2
    (false,false,{s with netDelay := time-tRef})
  else if p.getCmd = nlibpCheckConnect.toNat then
    let (tm,p) := p.read32
    let s := s.put a p
    if tm.toNat > 20000 then (true,true,s) else (true,false,s.ping)
  else if p.getCmd = nlibpDisconnect.toNat then (false,true,s)
  else if p.getCmd = nlibpIcQuery.toNat then (false,false,s.resend p.getIC)
  else if p.getCmd = nlibpIcOk.toNat then (false,false,s.updateIcImage p.getIC)
  else (true,false,s)

-- PushRecvPacket
def receive (s : TcpSession) (a : Nat) (time : UInt32) : Bool × Bool × TcpSession :=
  let s := s.timeSet time
  match s.checkIndex a with
  | (false,s) => (false,false,s.queryIC)
  | (true,s) => s.command a time

-- The body of ProcessServer's loop over the frames: the packet was made by the loop,
-- which deletes it unless PushRecvPacket says true.
def pushRecvPacket (s : TcpSession) (p : NetPacket) (time : UInt32) : Bool × TcpSession :=
  let s := {s with given := s.given ++ [(s.indexRecvCheck,p)]}
  let (a,s) := s.alloc p
  let (taken,closes,s) := s.receive a time
  (closes,if taken then s else s.delete a)

def popSendPacket (s : TcpSession) : Option NetPacket × TcpSession :=
  match s.lstSendPacket with
  | [] => (none,s)
  | a :: rest => (some (s.packets a),{s with lstSendPacket := rest,popped := some a})

-- What ProcessServer sends is what it has popped; Disconnect sends a new packet.
def sendPopped (s : TcpSession) (p : NetPacket) : TcpSession :=
  match s.popped with
  | some a => {s with popped := none}.send a false
  | none => s.sendNew p

-- What the application does with a session: it sends packets of its own, each new and
-- written before. `clock` is not a call, but what Sys_GetTime will return.
inductive AppCall where
  | pushSendPacket (ops : List NetPacket.PacketOp)
  | send (ops : List NetPacket.PacketOp) (bIC : Bool)
  | ping
  | setConnectCheckTime (time : Int)
  | clock (times : List UInt32)

def act (s : TcpSession) : AppCall → TcpSession
  | .pushSendPacket ops => s.pushNew (ops.foldl NetPacket.apply NetPacket.new)
  | .send ops bIC =>
    let (a,s) := s.alloc (ops.foldl NetPacket.apply NetPacket.new)
    s.send a bIC
  | .ping => s.ping
  | .setConnectCheckTime time => {s with connectCheckTime := time}
  | .clock times => {s with clock := times}

end TcpSession

instance : Session TcpSession where
  new := TcpSession.new
  popSendPacket := TcpSession.popSendPacket
  send := TcpSession.sendPopped
  timeSet := TcpSession.timeSet
  pushRecvPacket := TcpSession.pushRecvPacket
  checkConnect := TcpSession.checkConnect

-- A run of a server: ProcessServer calls that return, and in between what the
-- application does with a session that is named by its socket.
inductive NetEvent where
  | processServer (o : Outside)
  | app (socket : Nat) (call : TcpSession.AppCall)

def TcpSocket.act (s : TcpSocket TcpSession) (socket : Nat) (call : TcpSession.AppCall) : TcpSocket TcpSession :=
  {s with sessions := s.sessions.map fun e => if e.socket = socket then {e with session := e.session.act call} else e}

inductive NetStep : TcpSocket TcpSession → NetEvent → TcpSocket TcpSession → Prop where
  | processServer (returned : s.processServer o = some next) : NetStep s (.processServer o) next
  | app : NetStep s (.app socket call) (s.act socket call)

end PcNetwork.Netlib
