import PcNetwork.Netlib.NetPacket
import PcNetwork.Library.Path

namespace PcNetwork.Netlib

-- The session type of TCP_Socket<T>. pushRecvPacket says whether the session closes
-- itself through CloseSession; its own result only decides who deletes the packet.
class Session (T : Type) where
  new : T
  popSendPacket : T → Option NetPacket × T
  send : T → NetPacket → T
  timeSet : T → UInt32 → T
  pushRecvPacket : T → NetPacket → UInt32 → Bool × T
  checkConnect : T → UInt32 → T

-- One session of m_map_session, with what ::recv has returned for it and the frames
-- that were given to its PushRecvPacket. CloseSession deletes the session within
-- PushRecvPacket: it is `dangling` when the loop has gone on with it after that, which
-- leaves the behaviour of the program undefined.
structure Entry (T : Type) where
  socket : Nat
  session : T
  received : List UInt8
  delivered : List (List UInt8)
  dangling : Bool

-- The sessions are in the order of their sockets. `gone` keeps those that were closed.
structure TcpSocket (T : Type) where
  sessions : List (Entry T)
  gone : List (Entry T)
  lastTime : UInt32
  times : List UInt32

-- What one ProcessServer call meets: the result of select, a connection to accept (or
-- an accept that fails), the sockets that can be written, those that can be read with
-- what ::recv returns for them, and the clock.
structure Outside where
  selects : Bool
  accepts : Option (Option Nat)
  writable : Nat → Bool
  readable : Nat → Option (Option (List UInt8))
  times : List UInt32
  deriving Inhabited

variable {T : Type} [Session T]

def insertEntry (e : Entry T) : List (Entry T) → List (Entry T)
  | [] => [e]
  | x :: rest =>
    if e.socket < x.socket then e :: x :: rest
    else if e.socket = x.socket then x :: rest
    else x :: insertEntry e rest

namespace TcpSocket

def created : TcpSocket T := ⟨[],[],0,[]⟩

def getTime (s : TcpSocket T) : UInt32 × TcpSocket T := (s.times.headD 0,{s with times := s.times.tail})

def createSession (s : TcpSocket T) (o : Outside) : TcpSocket T :=
  match o.accepts with
  | none | some none => s
  | some (some socket) =>
    let (now,s) := s.getTime
    {s with sessions := insertEntry ⟨socket,Session.timeSet Session.new now,[],[],false⟩ s.sessions}

-- The loop over the frames of the shared packet. Every frame of at least one byte
-- shortens it, so `fuel` above the length of the content runs out only on a frame
-- length of zero, where the loop does not end. `closes` says that a packet before has
-- closed the session.
def pushLoop : Nat → NetPacket → Entry T → Bool → List UInt32 → Option (Option NetPacket × Entry T × Bool × List UInt32)
  | 0,_,_,_,_ => none
  | fuel+1,packet,e,closes,times =>
    if packet.isCling then
      let next := packet.getClingPacket
      let (session,times) := if packet.getCmd = nlibpConnect then (Session.timeSet e.session (times.headD 0),times.tail)
        else (e.session,times)
      let (closing,session) := Session.pushRecvPacket session packet (times.headD 0)
      let e := {e with session,delivered := e.delivered ++ [packet.frame],dangling := e.dangling || closes}
      match next with
      | none => some (none,e,closes || closing,times.tail)
      | some packet => pushLoop fuel packet e (closes || closing) times.tail
    else some (some packet,e,closes,times)

-- The two halves of the loop body: what is there to send, and what can be read.
def sendNext (e : Entry T) : Entry T :=
  match Session.popSendPacket e.session with
  | (none,session) => {e with session}
  | (some packet,session) => {e with session := Session.send session packet}

def readSession (o : Outside) (e : Entry T) (shared : NetPacket) (times : List UInt32) :
    Option (NetPacket × Entry T × Bool × List UInt32) :=
  match o.readable e.socket with
  | none => some (shared,e,false,times)
  | some answer =>
    let e := {e with received := e.received ++ shared.arriving answer}
    let (recvSize,shared) := shared.recv answer
    if recvSize > 0 then
      match pushLoop (shared.datalen.toNat+1) shared e false times with
      | none => none
      | some (next,e,closes,times) => some (next.getD NetPacket.new,e,closes,times)
    else some (shared,e,false,times)

-- The loop over the sessions: those that stay, those that close, and the clock.
def visit (o : Outside) : List (Entry T) → NetPacket → List UInt32 → Option (List (Entry T) × List (Entry T) × List UInt32)
  | [],_,times => some ([],[],times)
  | e :: rest,shared,times =>
    match readSession o (if o.writable e.socket then sendNext e else e) shared times with
    | none => none
    | some (shared,e,closes,times) =>
      match visit o rest shared times with
      | none => none
      | some (stay,close,times) => some (if closes then (stay,e :: close,times) else (e :: stay,close,times))

def checkConnect (s : TcpSocket T) (time : UInt32) : TcpSocket T :=
  {s with sessions := s.sessions.map fun e => {e with session := Session.checkConnect e.session time}}

-- The second half of ProcessServer.
def checkTime (s : TcpSocket T) : TcpSocket T :=
  let (t,s) := s.getTime
  let s := if s.lastTime = 0 then {s with lastTime := t} else s
  if (t.toNat : Int)-s.lastTime.toNat ≥ 1000 then {s.checkConnect t with lastTime := t} else s

-- `none` where the call does not return.
def processServer (s : TcpSocket T) (o : Outside) : Option (TcpSocket T) :=
  let s := {s with times := o.times}
  if o.selects then
    let s := s.createSession o
    match visit o s.sessions NetPacket.new s.times with
    | none => none
    | some (stay,close,times) => some {s with sessions := stay,gone := s.gone ++ close,times}.checkTime
  else some s.checkTime

end TcpSocket
end PcNetwork.Netlib
