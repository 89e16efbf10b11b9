import PcNetwork.Library.Block
import PcNetwork.Library.Endian

namespace PcNetwork

def defaultCmdPacketSize : Int := 1024
def maxCmdPacketSize : Int := 1024*16
def byteSize : Int := 1
def longSize : Int := 4
def shortSize : Int := 2
def floatSize : Int := 4

-- What an int of 32 bits keeps of a sum or a product.
def int32 (x : Int) : Int := x.bmod (2^32)

theorem int32_small {x : Int} (low : -2^31 ≤ x) (high : x < 2^31) : int32 x = x :=
  Int.bmod_eq_of_le (by omega) (by omega)

-- A sum that overflows is still another number than the one it started from.
theorem int32_add_ne {a b : Int} (positive : 0 < b) (most : b < 2^32) : int32 (a+b) ≠ a := by
  have turns := Int.mul_ediv_add_emod (a+b) ((2^32 : Nat) : Int)
  unfold int32
  rw [Int.bmod_def]
  split <;> omega

-- CG_CmdPacket. `data` is the block behind m_pData, `readData` the memory from
-- m_pReadData on; attaching to received bytes moves only the second pointer.
structure CmdPacket where
  data : List UInt8
  readData : List UInt8
  len : Int
  readOffset : Int
  writeOffset : Int
  maxSize : Int

namespace CmdPacket

def setSize (p : CmdPacket) (len : Int) : Bool × CmdPacket :=
  if len > maxCmdPacketSize then (false,p)
  else (true,{p with data := List.replicate len.toNat 0,maxSize := len})

def new : CmdPacket :=
  (setSize ⟨[],[],0,0,0,0⟩ defaultCmdPacketSize).2

-- memcpy takes `len` bytes from `data`, which is at least that long.
def writeData (p : CmdPacket) (data : List UInt8) (len : Int) : Bool × CmdPacket :=
  if int32 (p.len+len) > p.maxSize then (false,p)
  else (true,{p with
    data := Block.patch p.data p.writeOffset.toNat (data.take len.toNat)
    len := int32 (p.len+len)
    writeOffset := int32 (p.writeOffset+len)})

def writeByte (p : CmdPacket) (c : UInt8) : Bool × CmdPacket := p.writeData [c] byteSize
def writeShort (p : CmdPacket) (s : Int16) : Bool × CmdPacket := p.writeData (Endian.ofInt16 s) shortSize
def writeLong (p : CmdPacket) (l : Int32) : Bool × CmdPacket := p.writeData (Endian.ofInt32 l) longSize
-- A float is its four bytes.
def writeFloat (p : CmdPacket) (f : UInt32) : Bool × CmdPacket :=
  p.writeData (Endian.encode 4 f.toNat) floatSize

def writeBinary (p : CmdPacket) (data : List UInt8) (len : Int) : Bool × CmdPacket :=
  let (ok,p) := p.writeShort (Int16.ofInt len)
  if ok = false then (false,p) else p.writeData data len

-- `str` are the characters before the terminating zero.
def writeString (p : CmdPacket) (str : List UInt8) : Bool × CmdPacket :=
  let len := Int16.ofInt (str.length+1)
  let (ok,p) := p.writeShort len
  if ok = false then (false,p) else p.writeData (str ++ [0]) len.toInt

def beginWrite (p : CmdPacket) : CmdPacket := {p with len := 0,writeOffset := 0}
def beginRead (p : CmdPacket) (bytes : List UInt8) (len : Int) : CmdPacket :=
  {p with readData := bytes,len := len,readOffset := 0}

-- BeginRead(), which reads the packet's own block.
def beginReadOwn (p : CmdPacket) : CmdPacket := {p with readData := p.data,readOffset := 0}

def readBytes (p : CmdPacket) (len : Int) : Option (List UInt8) × CmdPacket :=
  if int32 (p.readOffset+len) > p.len then (none,p)
  else (some (Block.slice p.readData p.readOffset.toNat len.toNat),{p with readOffset := int32 (p.readOffset+len)})

def readShort (p : CmdPacket) : Option Int16 × CmdPacket :=
  let (bytes,p) := p.readBytes shortSize
  (bytes.map Endian.toInt16,p)

def readLong (p : CmdPacket) : Option Int32 × CmdPacket :=
  let (bytes,p) := p.readBytes longSize
  (bytes.map Endian.toInt32,p)

def readByte (p : CmdPacket) : Option UInt8 × CmdPacket :=
  let (bytes,p) := p.readBytes byteSize
  (bytes.map fun bytes => bytes.headD 0,p)

-- A float is its four bytes.
def readFloat (p : CmdPacket) : Option UInt32 × CmdPacket :=
  let (bytes,p) := p.readBytes floatSize
  (bytes.map fun bytes => UInt32.ofNat (Endian.decode bytes),p)

-- The checks that ReadBinary and ReadString make. A pointer is its distance from
-- m_pReadData, and a length goes with it.
def readBlock (p : CmdPacket) : Option (Int × Int) × CmdPacket :=
  match p.readShort with
  | (none,p) => (none,p)
  | (some len,p) =>
    if len.toInt ≤ 0 then (none,p)
    else if int32 (p.readOffset+len.toInt) > p.len then (none,p)
    else (some (p.readOffset,len.toInt),{p with readOffset := int32 (p.readOffset+len.toInt)})

def readBinary (p : CmdPacket) : Option (Int × Int) × CmdPacket := p.readBlock

-- ReadString also sets the end of the string to zero.
def readString (p : CmdPacket) : Option Int × CmdPacket :=
  match p.readBlock with
  | (none,p) => (none,p)
  | (some (str,len),p) => (some str,{p with readData := p.readData.set (str+len-1).toNat 0})

def getData (p : CmdPacket) : List UInt8 := p.data
def getDataSize (p : CmdPacket) : Int := p.len

def copyData (p : CmdPacket) (buf : List UInt8) (len : Int) : Bool × CmdPacket :=
  let (ok,p) := p.setSize len
  if ok = false then (false,p)
  else (true,{p with data := Block.patch p.data 0 (buf.take len.toNat),len := len})

def cloneFrom (p packet : CmdPacket) : Bool × CmdPacket := p.copyData packet.getData packet.getDataSize

-- The bytes a reader sees: what the packet is attached to, up to m_nLen.
def readable (p : CmdPacket) : List UInt8 := p.readData.take p.len.toNat

-- The bytes a sender takes: GetData()[0..GetDataSize()).
def content (p : CmdPacket) : List UInt8 := p.getData.take p.getDataSize.toNat

end CmdPacket
end PcNetwork
