import PcNetwork.Session.NetPacket

namespace PcNetwork

inductive TNetState where
  | connecting
  | waitingSeed
  | connected
  | dead
  | zero
  deriving DecidableEq,Inhabited

def maxBufferSize : Int := maxNetPacketSize
def maxNetSeedSize : Nat := 16
def netConnectTimeout : UInt32 := 30*1000
def netKeepAliveInterval : UInt32 := 10*1000
-- The release build; a debug build waits 900 seconds.
def netTimeout : UInt32 := 90*1000

-- What the operating system answers to one call on a socket. `sent` and `data` are
-- cut to the length that was offered, so an answer is always a possible one;
-- `data []` is the end of the stream.
inductive SendAnswer where
  | notWritable
  | sent (count : Nat)
  | wouldBlock
  | failed
  deriving DecidableEq

inductive RecvAnswer where
  | notReadable
  | data (bytes : List UInt8)
  | wouldBlock
  | failed
  deriving DecidableEq

-- CG_NetSocket: the handle, the answers the next calls get, and the bytes that came
-- from ::recv and went through ::send since the socket was opened.
structure SocketIn where
  isOpen : Bool
  recvs : List RecvAnswer
  excepts : List Bool
  writables : List Bool
  soErrors : List Bool
  received : List UInt8
  deriving Inhabited

structure NetSocket extends SocketIn where
  sends : List SendAnswer
  accepted : List UInt8
  deriving Inhabited

namespace NetSocket

def send (k : NetSocket) (buf : List UInt8) : Int × NetSocket :=
  match k.sends with
  | [] => (0,k)
  | .notWritable :: rest => (0,{k with sends := rest})
  | .wouldBlock :: rest => (0,{k with sends := rest})
  | .failed :: rest => (-1,{k with sends := rest})
  | .sent n :: rest => ((buf.take n).length,{k with sends := rest,accepted := k.accepted ++ buf.take n})

-- The result is what the function returns and what it stored at `buf`. A recv that
-- would block falls through to `return ret` with ret still SOCKET_ERROR.
def recv (k : NetSocket) (len : Int) : Int × List UInt8 × NetSocket :=
  match k.recvs with
  | [] => (0,[],k)
  | .notReadable :: rest => (0,[],{k with recvs := rest})
  | .wouldBlock :: rest => (-1,[],{k with recvs := rest})
  | .failed :: rest => (-1,[],{k with recvs := rest})
  | .data bytes :: rest =>
    let got := bytes.take len.toNat
    let k := {k with recvs := rest,received := k.received ++ got}
    if got = [] then (-1,[],k) else (got.length,got,k)

def hasExcept (k : NetSocket) : Bool × NetSocket := (k.excepts.headD false,{k with excepts := k.excepts.tail})
def canWrite (k : NetSocket) : Bool × NetSocket := (k.writables.headD false,{k with writables := k.writables.tail})
-- The LINUX build's getsockopt on a socket that can be written; always false on Windows.
def soError (k : NetSocket) : Bool × NetSocket := (k.soErrors.headD false,{k with soErrors := k.soErrors.tail})

def opened (k : NetSocket) : NetSocket := {k with isOpen := true,accepted := [],received := []}
def close (k : NetSocket) : NetSocket := {k with isOpen := false}

end NetSocket

-- One call of a virtual callback, or of HandleSysPacket, with the payload it got.
inductive Callback where
  | onConnect (ret : Bool)
  | onDisconnect
  | onReceive (payload : List UInt8)
  | handleSysPacket (payload : List UInt8)
  deriving DecidableEq

-- A SendPacket call of the application.
structure SendCall where
  packet : CmdPacket
  flush : Bool

structure ReadSide where
  readBuf : List UInt8
  readBufSize : Int
  readPos : Int
  readLen : Int
  deriving Inhabited

-- `inBounds` turns false when an operation after Reset touches an index outside writeBuf.
structure WriteSide where
  writeBuf : List UInt8
  writeBufSize : Int
  writeLen : Int
  writeBeg : Int
  writeEnd : Int
  maxBufSize : Int
  inBounds : Bool
  deriving Inhabited

-- m_seed is an array of MAX_NET_SEED_SIZE bytes, of which seedLen are in use.
structure Keys where
  seed : List UInt8
  seedSize : seed.length = maxNetSeedSize
  behindSeed : Nat → UInt8
  seedLen : Int
  bEncrypt : Bool
  bCompress : Bool

instance : Inhabited Keys where
  default := ⟨List.replicate maxNetSeedSize 0,List.length_replicate,default,0,false,false⟩

namespace Keys

def setSeedLoop : Nat → Int32 → List UInt8
  | 0,_ => []
  | n+1,seed => ((seed % 255)+1).toUInt32.toUInt8 :: setSeedLoop n (seed/19)

theorem length_setSeedLoop (n : Nat) (seed : Int32) : (setSeedLoop n seed).length = n := by
  induction n generalizing seed with
  | zero => rfl
  | succ n ih => simp [setSeedLoop,ih]

def setSeed (k : Keys) (seed : Int32) : Keys :=
  if seed = 0 then {k with bEncrypt := false}
  else {k with
    seed := setSeedLoop maxNetSeedSize seed
    seedSize := length_setSeedLoop _ _
    seedLen := maxNetSeedSize
    bEncrypt := true}

end Keys

-- `times` are the readings Sys_GetTime gives next, `app` what the application sends
-- inside the callbacks to come, one list for each of them, and `calls` the callbacks
-- made so far.
structure Receiver extends ReadSide, Keys where
  lastRecvTime : UInt32
  lastSendTime : UInt32
  connTime : UInt32
  rtt : UInt32
  times : List UInt32
  app : List (List SendCall)
  calls : List Callback
  deriving Inhabited

-- CG_TCPSession. `sent` records the payloads of the user packets for which
-- SendPacket returned true.
structure TcpSession extends Receiver, WriteSide where
  socket : NetSocket
  state : TNetState
  seq : UInt16
  sent : List (List UInt8)
  deriving Inhabited

namespace TcpSession

def getTime (s : TcpSession) : UInt32 × TcpSession := (s.times.headD 0,{s with times := s.times.tail})

def touch (s : TcpSession) (off len : Int) : TcpSession :=
  {s with inBounds := s.inBounds && decide (0 ≤ off ∧ 0 ≤ len ∧ off+len ≤ s.writeBuf.length)}

def setBufSize (s : TcpSession) (kb : Int) : TcpSession := {s with maxBufSize := kb*1000}

def reset (s : TcpSession) : TcpSession :=
  let s := {s with
    rtt := 0
    readBuf := List.replicate maxBufferSize.toNat 0
    readBufSize := maxBufferSize
    writeBuf := List.replicate maxBufferSize.toNat 0
    writeBufSize := maxBufferSize
    maxBufSize := maxBufferSize
    inBounds := true
    socket := s.socket.close
    seedLen := 0
    seq := 0
    state := .zero
    writeLen := 0
    writeBeg := 0
    writeEnd := 0
    readLen := 0
    readPos := 0}
  s.setBufSize (maxBufferSize/1024+1)

def close (s : TcpSession) : TcpSession := s.reset

-- The constructor leaves the other members as they are in memory, here all zero.
def new : TcpSession := reset {(default : TcpSession) with bEncrypt := false,bCompress := true}

-- Send(m_writeBuf+off,len), with the bookkeeping that follows a return value >= 0.
-- The result says whether the socket took it (ret >= 0).
def sendFrom (s : TcpSession) (off len : Int) : Bool × TcpSession :=
  let s := s.touch off len
  let (ret,socket) := s.socket.send (Block.slice s.writeBuf off.toNat len.toNat)
  let s := {s with socket}
  if ret ≥ 0 then
    (true,{s with writeLen := s.writeLen-ret,writeBeg := (s.writeBeg+ret) % s.writeBufSize})
  else (false,{s with state := .dead})

def flushData (s : TcpSession) : TcpSession :=
  if s.writeLen = 0 then s else
  if s.writeEnd > s.writeBeg then (s.sendFrom s.writeBeg s.writeLen).2
  else
    let (ok,s) := s.sendFrom s.writeBeg (s.writeBufSize-s.writeBeg)
    if ok = false then s else
    if s.writeBeg ≠ 0 then s else (s.sendFrom 0 s.writeEnd).2

def resizeBuf (s : TcpSession) (min : Int) : Bool × TcpSession :=
  let newSize := int32 (min*2)
  if min ≥ s.maxBufSize then (false,s) else
  let newSize := if newSize > s.maxBufSize then s.maxBufSize else newSize
  let buf := List.replicate newSize.toNat (0 : UInt8)
  let (buf,s) :=
    if s.writeLen > 0 then
      if s.writeEnd > s.writeBeg then
        let s := s.touch s.writeBeg s.writeLen
        (Block.patch buf 0 (Block.slice s.writeBuf s.writeBeg.toNat s.writeLen.toNat),s)
      else
        let nLen := s.writeBufSize-s.writeBeg
        let s := (s.touch s.writeBeg nLen).touch 0 (s.writeLen-nLen)
        (Block.patch (Block.patch buf 0 (Block.slice s.writeBuf s.writeBeg.toNat nLen.toNat)) nLen.toNat
          (Block.slice s.writeBuf 0 (s.writeLen-nLen).toNat),s)
    else (buf,s)
  -- both copies go to the front of the new block
  let s := {s with inBounds := s.inBounds && decide (s.writeLen ≤ newSize)}
  (true,{s with writeBuf := buf,writeBeg := 0,writeEnd := s.writeLen,writeBufSize := newSize})

def pushLoop (s : TcpSession) : List UInt8 → TcpSession
  | [] => s
  | byte :: rest =>
    let s := s.touch s.writeEnd 1
    let s := {s with writeBuf := s.writeBuf.set s.writeEnd.toNat byte,writeEnd := s.writeEnd+1}
    let s := if s.writeEnd = s.writeBufSize then {s with writeEnd := 0} else s
    s.pushLoop rest

def pushData (s : TcpSession) (buf : List UInt8) : Bool × TcpSession :=
  let len : Int := buf.length
  let (ok,s) := if len ≥ s.writeBufSize-s.writeLen then s.resizeBuf (s.writeLen+len+1) else (true,s)
  if ok = false then (false,s) else
  (true,pushLoop {s with writeLen := s.writeLen+len} buf)

def sendPacket (s : TcpSession) (packet : CmdPacket) (flush sys : Bool) : Bool × TcpSession :=
  if s.state ≠ .connected then (false,s) else
  let seq := if s.seq+1 > maxNetPacketSeq then 1 else s.seq+1
  let s := {s with seq}
  let pkt := (NetPacket.new.addCmdPacket packet).setSeq s.seq
  let pkt :=
    if sys then pkt.setSysPacket
    else
      let pkt := if s.bEncrypt then pkt.encrypt s.seed s.behindSeed s.seedLen else pkt
      if s.bCompress then pkt.compress.2 else pkt
  let (pushed,s) := s.pushData pkt.bytes
  if pushed = false then (false,s) else
  let s := if sys then s else {s with sent := s.sent ++ [packet.content]}
  (true,if flush then s.flushData else s)

def readData (s : TcpSession) : TcpSession :=
  let s :=
    if s.readLen = 0 then {s with readPos := 0}
    else if s.readLen > 0 ∧ s.readPos ≠ 0 then
      {s with
        readBuf := Block.patch s.readBuf 0 (Block.slice s.readBuf s.readPos.toNat s.readLen.toNat)
        readPos := 0}
    else s
  let (ret,bytes,socket) := s.socket.recv (s.readBufSize-s.readLen)
  let s := {s with socket}
  if ret > 0 then
    let s := {s with readBuf := Block.patch s.readBuf s.readLen.toNat bytes,readLen := s.readLen+ret}
    let (now,s) := s.getTime
    {s with lastRecvTime := now}
  else if ret = 0 then s
  else {s with state := .dead}

def defProc (s : TcpSession) : TcpSession :=
  if s.state ≠ .connected ∧ s.state ≠ .waitingSeed then s else
  if s.state = .connected then
    let (now,s) := s.getTime
    let s := if now-s.lastSendTime > netKeepAliveInterval then {s with lastSendTime := now} else s
    if now-s.lastRecvTime > netTimeout then {s with state := .dead}
    else s.flushData.readData
  else s.readData

-- `some` is the return value true, with the packet that was filled in.
def recvPacket (s : TcpSession) : Option NetPacket × TcpSession :=
  let (ret,packet) := NetPacket.new.beginRead (s.readBuf.drop s.readPos.toNat) s.readLen
  if ret > 0 then
    let s := {s with readLen := s.readLen-ret,readPos := s.readPos+ret}
    let packet := if packet.isEncrypt then packet.decrypt s.seed s.behindSeed s.seedLen else packet
    if packet.isCompress then
      let (ok,packet) := packet.uncompress
      if ok = false then (none,s) else (some packet,s)
    else (some packet,s)
  else if ret = 0 then (none,s)
  else (none,{s with state := .dead})

def setSeed (s : TcpSession) (seed : Int32) : TcpSession := {s with toKeys := s.toKeys.setSeed seed}

-- The shared m_sendCmdPkt after BeginWrite, WriteShort and WriteLong.
def sysPacket (type : Int16) (param : Int32) : CmdPacket :=
  (((CmdPacket.new.setSize maxCmdPacketSize).2.beginWrite.writeShort type).2.writeLong param).2

def sendSeed (s : TcpSession) (seed : Int32) : TcpSession :=
  ((s.sendPacket (sysPacket sysPacketSetSeed seed) true true).2).setSeed seed

-- A callback is recorded, and then the application sends what it wants to.
def callback (s : TcpSession) (call : Callback) : TcpSession :=
  (s.app.headD []).foldl (fun s c => (s.sendPacket c.packet c.flush false).2)
    {s with calls := s.calls ++ [call],app := s.app.tail}

def onConnect (s : TcpSession) (ret : Bool) : TcpSession := s.callback (.onConnect ret)
def onDisconnect (s : TcpSession) : TcpSession := s.callback .onDisconnect
def onReceive (s : TcpSession) (packet : CmdPacket) : TcpSession := s.callback (.onReceive packet.readable)

def handleSysPacket (s : TcpSession) (packet : CmdPacket) : TcpSession :=
  let s := {s with calls := s.calls ++ [.handleSysPacket packet.readable]}
  match packet.readShort with
  | (none,_) => s
  | (some type,packet) =>
    if type = sysPacketKeepAlive then
      match packet.readLong with
      | (none,_) => s
      | (some param,_) => (s.sendPacket (sysPacket sysPacketAliveAck param) true true).2
    else if type = sysPacketAliveAck then
      match packet.readLong with
      | (none,_) => s
      | (some param,_) =>
        let (now,s) := s.getTime
        {s with rtt := now-param.toUInt32}
    else if type = sysPacketSetSeed then
      match packet.readLong with
      | (none,_) => s
      | (some param,_) => ({s.setSeed param with state := .connected}).onConnect true
    else s

-- The shared m_recvCmdPkt; only the attached bytes are ever read from it.
def recvCmdPkt : CmdPacket := (CmdPacket.new.setSize maxCmdPacketSize).2

-- Every packet takes bytes out of the read buffer, so readLen bounds both loops.
def getPacketLoop : Nat → TcpSession → Option CmdPacket × TcpSession
  | 0,s => (none,s)
  | fuel+1,s =>
    match s.recvPacket with
    | (none,s) => (none,s)
    | (some pkt,s) =>
      let packet := pkt.attachCmdPacket recvCmdPkt
      if pkt.isSysPacket then getPacketLoop fuel (s.handleSysPacket packet)
      else (some packet,s)

def getPacket (s : TcpSession) : Option CmdPacket × TcpSession := s.getPacketLoop (s.readLen.toNat+1)

def receiveLoop : Nat → TcpSession → TcpSession
  | 0,s => s
  | fuel+1,s =>
    match s.getPacket with
    | (none,s) => s
    | (some packet,s) => receiveLoop fuel (s.onReceive packet)

-- The CONNECTING case of Process: the connect attempt is polled.
def connecting (s : TcpSession) : TcpSession :=
  let (bad,socket) := s.socket.hasExcept
  let s := {s with socket}
  if bad then s.close.onConnect false else
  let (now,s) := s.getTime
  if now-s.connTime > netConnectTimeout then s.close.onConnect false else
  let (ready,socket) := s.socket.canWrite
  let s := {s with socket}
  if ready = false then s else
  let (err,socket) := s.socket.soError
  let s := {s with socket}
  if err then (s.onConnect false).close else
  let (now,s) := s.getTime
  {s with state := .waitingSeed,lastSendTime := now,lastRecvTime := now}

-- Its WAITING_SEED case takes one packet.
def waiting (s : TcpSession) : TcpSession :=
  match s.recvPacket with
  | (none,s) => s
  | (some pkt,s) =>
    if pkt.isSysPacket then s.handleSysPacket (pkt.attachCmdPacket recvCmdPkt) else s

def process (s : TcpSession) : TcpSession :=
  let s := s.defProc
  match s.state with
  | .connected => receiveLoop (s.readLen.toNat+1) s
  | .dead => s.onDisconnect.close
  | .waitingSeed => s.waiting
  | .connecting => s.connecting
  | .zero => s

-- `initialized`, `bound` and `started` are the results of the socket calls.
def connect (s : TcpSession) (initialized bound started : Bool) : Bool × TcpSession :=
  if initialized = false then (false,s) else
  let s := {s with socket := s.socket.opened}
  if bound = false then (false,s) else
  if started then
    let s := {s with state := .connecting}
    let (now,s) := s.getTime
    (true,{s with connTime := now})
  else (false,s)

def attach (s : TcpSession) : TcpSession :=
  let s := {s with socket := s.socket.opened,state := .connected}
  let (now,s) := s.getTime
  {s with lastRecvTime := now,lastSendTime := now}

-- What one Process call meets outside the session: the answers of its socket, the
-- clock, what the application sends in the callbacks, and the memory behind m_seed.
structure Outside where
  recvs : List RecvAnswer
  sends : List SendAnswer
  excepts : List Bool
  writables : List Bool
  soErrors : List Bool
  times : List UInt32
  app : List (List SendCall)
  behindSeed : Nat → UInt8
  deriving Inhabited

def meet (s : TcpSession) (o : Outside) : TcpSession :=
  {s with
    socket := {s.socket with
      recvs := o.recvs,sends := o.sends,excepts := o.excepts,writables := o.writables,soErrors := o.soErrors}
    times := o.times
    app := o.app
    behindSeed := o.behindSeed}

-- The unread bytes, m_readBuf[m_readPos .. m_readPos+m_readLen).
def unread (s : TcpSession) : List UInt8 := Block.slice s.readBuf s.readPos.toNat s.readLen.toNat

-- The bytes waiting in the write ring, in the order they were pushed.
def buffered (s : TcpSession) : List UInt8 := Block.ring s.writeBuf s.writeBeg.toNat s.writeLen.toNat

end TcpSession
end PcNetwork
