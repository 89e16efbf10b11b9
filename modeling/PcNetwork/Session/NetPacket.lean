import PcNetwork.Session.CmdPacket
import Mathlib.Data.Int.Bitwise

namespace PcNetwork

def netPacketHeadSize : Int := 5
def maxNetPacketSize : Int := maxCmdPacketSize+netPacketHeadSize
def protocolFlag : UInt8 := 5
def flagEncrypt : UInt8 := 1
def flagCompress : UInt8 := 2
def flagSystem : UInt8 := 4
def sysPacketSetSeed : Int16 := 1
def sysPacketKeepAlive : Int16 := 2
def sysPacketAliveAck : Int16 := 3
def maxNetPacketSeq : UInt16 := 65000

-- CG_NetPacket. The first five bytes of m_buffer are its header fields, which the
-- source reaches through m_pktFlag, m_pktSeq and m_pktDataSize; `body` is m_buffer
-- from NET_PACKET_HEAD_SIZE on.
structure NetPacket where
  pktFlag : UInt8
  pktSeq : UInt16
  pktDataSize : UInt16
  body : List UInt8
  deriving DecidableEq

namespace NetPacket

def new : NetPacket := ⟨0,0,0,List.replicate maxCmdPacketSize.toNat 0⟩

def addCmdPacket (p : NetPacket) (packet : CmdPacket) : NetPacket :=
  let dataSize := UInt16.ofInt packet.getDataSize
  {p with
    pktFlag := protocolFlag <<< 4
    pktDataSize := dataSize
    body := Block.patch p.body 0 (packet.getData.take dataSize.toNat)}

def attachCmdPacket (p : NetPacket) (packet : CmdPacket) : CmdPacket :=
  packet.beginRead p.body p.pktDataSize.toNat

-- m_buffer[0 .. m_totalSize), the bytes that go on the wire.
def bytes (p : NetPacket) : List UInt8 :=
  p.pktFlag :: (Endian.ofUInt16 p.pktSeq ++ Endian.ofUInt16 p.pktDataSize ++ p.body.take p.pktDataSize.toNat)

def totalSize (p : NetPacket) : Int := netPacketHeadSize+p.pktDataSize.toNat

-- Returns -1 for an error, 0 for "process next time" and otherwise the length of
-- the frame, which then is in the packet.
def beginRead (packet : NetPacket) (p : List UInt8) (len : Int) : Int × NetPacket :=
  if len < netPacketHeadSize then (0,packet) else
  match p with
  | flag :: s0 :: s1 :: d0 :: d1 :: rest =>
    -- char is signed, so the shift keeps the sign
    if flag.toInt8.toInt >>> 4 ≠ protocolFlag.toNat then (-1,packet) else
    let dataSize := Endian.toUInt16 [d0,d1]
    if dataSize.toNat = 0 ∨ (dataSize.toNat : Int) > maxCmdPacketSize then (-1,packet) else
    let total := dataSize.toNat+netPacketHeadSize
    if len < total then (0,packet) else
    (total,⟨flag,Endian.toUInt16 [s0,s1],dataSize,Block.patch packet.body 0 (rest.take dataSize.toNat)⟩)
  | _ => (0,packet)

-- Encrypt and Decrypt run the same loop. `i` walks the frame from the first
-- payload byte on, `k` the key; the test reads m_pktDataSize, so the loop ends
-- NET_PACKET_HEAD_SIZE bytes before the payload does. A key index outside `seed`
-- reads the memory behind it, given by `behind`.
def seedAt (seed : List UInt8) (behind : Nat → UInt8) (k : Nat) : UInt8 :=
  seed.getD k (behind k)

def cryptLoop (p : NetPacket) (seed : List UInt8) (behind : Nat → UInt8) (len : Int) :
    Nat → Nat → Nat → List UInt8 → List UInt8
  | 0,_,_,body => body
  | fuel+1,i,k,body =>
    if i < p.pktDataSize.toNat then
      let k := if (k : Int) = len then 0 else k
      let at_ := i-netPacketHeadSize.toNat
      cryptLoop p seed behind len fuel (i+1) (k+1)
        (body.set at_ (body.getD at_ 0 ^^^ seedAt seed behind k))
    else body

def crypt (p : NetPacket) (seed : List UInt8) (behind : Nat → UInt8) (len : Int) : NetPacket :=
  {p with body := cryptLoop p seed behind len p.pktDataSize.toNat netPacketHeadSize.toNat 0 p.body}

def encrypt (p : NetPacket) (seed : List UInt8) (behind : Nat → UInt8) (len : Int) : NetPacket :=
  let p := p.crypt seed behind len
  {p with pktFlag := p.pktFlag ||| flagEncrypt}

def decrypt (p : NetPacket) (seed : List UInt8) (behind : Nat → UInt8) (len : Int) : NetPacket :=
  let p := p.crypt seed behind len
  {p with pktFlag := p.pktFlag &&& ~~~flagEncrypt}

def isEncrypt (p : NetPacket) : Bool := p.pktFlag &&& flagEncrypt != 0
def isCompress (p : NetPacket) : Bool := p.pktFlag &&& flagCompress != 0
def isSysPacket (p : NetPacket) : Bool := p.pktFlag &&& flagSystem != 0
def compress (p : NetPacket) : Bool × NetPacket := (true,{p with pktFlag := p.pktFlag ||| flagCompress})
def uncompress (p : NetPacket) : Bool × NetPacket := (true,{p with pktFlag := p.pktFlag &&& ~~~flagCompress})
def setSysPacket (p : NetPacket) : NetPacket := {p with pktFlag := p.pktFlag ||| flagSystem}
def setSeq (p : NetPacket) (seq : UInt16) : NetPacket := {p with pktSeq := seq}

end NetPacket
end PcNetwork
