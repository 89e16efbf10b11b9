import PcNetwork.Session.FailedCalls
import PcNetwork.Library.Path

namespace PcNetwork
namespace CmdPacket

-- The places of m_pData that a WriteData stores to, as an offset and a length.
def stored (p : CmdPacket) (len : Int) : List (Int × Int) :=
  if int32 (p.len+len) > p.maxSize then [] else [(p.writeOffset,len)]

def storedPrefixed (p : CmdPacket) (s : Int16) (len : Int) : List (Int × Int) :=
  p.stored shortSize ++ if int32 (p.len+shortSize) > p.maxSize then [] else (p.writeShort s).2.stored len

-- Those of a call: a length that fits is stored, also where the bytes do not fit.
def stores (p : CmdPacket) : Call → List (Int × Int)
  | .write (.byte _) => p.stored byteSize
  | .write (.short _) => p.stored shortSize
  | .write (.long _) => p.stored longSize
  | .write (.float _) => p.stored floatSize
  | .write (.binary data) => p.storedPrefixed (Int16.ofInt data.length) data.length
  | .write (.string str) => p.storedPrefixed (Int16.ofInt (str.length+1)) (Int16.ofInt (str.length+1)).toInt
  | .writeBinary _ len => p.storedPrefixed (Int16.ofInt len) len
  | .read _ => []

def InBlock (p : CmdPacket) (store : Int × Int) : Prop :=
  0 ≤ store.1 ∧ 0 ≤ store.2 ∧ store.1+store.2 ≤ p.maxSize

-- The block has m_nMaxSize bytes, and the next write begins within it.
structure Bounded (p : CmdPacket) : Prop where
  low : 0 ≤ p.writeOffset
  high : p.writeOffset ≤ p.maxSize
  block : (p.data.length : Int) = p.maxSize

-- The sums m_nLen+len of a Write call are ints: that of its one WriteData, or that of the
-- length and then, where the length was taken, that of the bytes.
def Adds (p : CmdPacket) (n : Int) : Prop := p.len+n < 2^31

def AddsPrefixed (p : CmdPacket) (n : Int) : Prop :=
  p.Adds shortSize ∧ (p.len+shortSize ≤ p.maxSize → p.Adds (shortSize+n))

def Sums (p : CmdPacket) : Call → Prop
  | .write (.byte _) => p.Adds byteSize
  | .write (.short _) => p.Adds shortSize
  | .write (.long _) => p.Adds longSize
  | .write (.float _) => p.Adds floatSize
  | .write (.binary data) => p.AddsPrefixed data.length
  | .write (.string str) => p.AddsPrefixed (Int16.ofInt (str.length+1)).toInt
  | .writeBinary _ len => p.AddsPrefixed len
  | .read _ => True

theorem writeData_bounded {n : Int} (data : List UInt8) (bounded : Bounded p) (agree : p.writeOffset ≤ p.len) (nonneg : 0 ≤ n)
    (adds : p.Adds n) : (∀ store ∈ p.stored n, p.InBlock store) ∧ Bounded (p.writeData data n).2 := by
  obtain ⟨low,high,block⟩ := bounded
  have sum : int32 (p.len+n) = p.len+n := int32_small (by omega) adds
  have moved : int32 (p.writeOffset+n) = p.writeOffset+n := int32_small (by omega) (by unfold Adds at adds; omega)
  unfold stored
  by_cases full : p.maxSize < int32 (p.len+n)
  · rw [if_pos full,writeData_refused data full]
    exact ⟨nofun,low,high,block⟩
  · rw [if_neg full,writeData_taken data (Int.not_lt.mp full),moved]
    rw [sum] at full
    refine ⟨?_,?_,?_,?_⟩
    · intro store member
      cases List.mem_singleton.mp member
      exact ⟨low,nonneg,by dsimp only; omega⟩
    · dsimp only
      omega
    · dsimp only
      omega
    · have most : (data.take n.toNat).length ≤ n.toNat := List.length_take_le _ _
      have fits : p.writeOffset.toNat+(data.take n.toNat).length ≤ p.data.length := by omega
      simpa [Block.length_patch fits] using block

theorem writePrefixed_bounded {s : Int16} {data : List UInt8} {n : Int} (bounded : Bounded p) (agree : p.writeOffset ≤ p.len)
    (nonneg : 0 ≤ n) (adds : p.AddsPrefixed n) :
    (∀ store ∈ p.storedPrefixed s n, p.InBlock store) ∧ Bounded (p.writePrefixed s data n).2 := by
  obtain ⟨length,bytes⟩ := adds
  obtain ⟨first,after⟩ := writeData_bounded (Endian.ofInt16 s) bounded agree (by decide : (0 : Int) ≤ shortSize) length
  have low := bounded.low
  unfold Adds shortSize at length bytes
  have sum : int32 (p.len+shortSize) = p.len+2 := int32_small (by unfold shortSize; omega) (by unfold shortSize; omega)
  have moved : int32 (p.writeOffset+shortSize) = p.writeOffset+2 := int32_small (by unfold shortSize; omega) (by unfold shortSize; omega)
  unfold storedPrefixed
  by_cases full : p.maxSize < int32 (p.len+shortSize)
  · rw [if_pos full,List.append_nil,writePrefixed_refused s data n full]
    exact ⟨first,bounded⟩
  · have room := Int.not_lt.mp full
    obtain ⟨_,len,offset,max⟩ := writeShort_taken s room
    rw [sum] at len room
    rw [moved] at offset
    have later := bytes room
    obtain ⟨second,last⟩ := writeData_bounded (p := (p.writeShort s).2) data after (by omega) nonneg (by unfold Adds; omega)
    rw [if_neg full,writePrefixed_taken s data n (Int.not_lt.mp full)]
    refine ⟨?_,last⟩
    intro store member
    rcases List.mem_append.mp member with early | late
    · exact first store early
    · obtain ⟨start,some,inside⟩ := second store late
      exact ⟨start,some,by omega⟩

-- What no read changes.
structure SameBlock (p q : CmdPacket) : Prop where
  data : q.data = p.data
  len : q.len = p.len
  writeOffset : q.writeOffset = p.writeOffset
  maxSize : q.maxSize = p.maxSize
  memory : q.readData.length = p.readData.length

theorem readBytes_same (p : CmdPacket) (n : Int) : SameBlock p (p.readBytes n).2 := by
  unfold readBytes
  split <;> exact ⟨rfl,rfl,rfl,rfl,rfl⟩

theorem readBlock_same (p : CmdPacket) : SameBlock p p.readBlock.2 := by
  have short : SameBlock p p.readShort.2 := p.readBytes_same shortSize
  unfold readBlock
  generalize p.readShort = r at short
  obtain ⟨_ | s,q⟩ := r
  · exact short
  · dsimp only
    split
    · exact short
    · split
      · exact short
      · exact ⟨short.data,short.len,short.writeOffset,short.maxSize,short.memory⟩

theorem read_same (p : CmdPacket) (op : ReadOp) : SameBlock p (p.read op).2 := by
  cases op with
  | byte => exact p.readBytes_same byteSize
  | short => exact p.readBytes_same shortSize
  | long => exact p.readBytes_same longSize
  | float => exact p.readBytes_same floatSize
  | binary => exact p.readBlock_same
  | string =>
    have block := p.readBlock_same
    show SameBlock p p.readString.2
    unfold readString
    generalize p.readBlock = r at block
    obtain ⟨_ | ⟨start,len⟩,q⟩ := r
    · exact block
    · exact ⟨block.data,block.len,block.writeOffset,block.maxSize,by simpa using block.memory⟩

-- The lengths that WriteString and WriteBinary hand to memcpy are not negative.
def Call.nonneg : Call → Prop
  | .write (.string str) => 0 ≤ (Int16.ofInt (str.length+1)).toInt
  | .writeBinary _ len => 0 ≤ len
  | .write (.byte _) | .write (.short _) | .write (.long _) | .write (.float _) | .write (.binary _) => True
  | .read _ => True

theorem write_bounded {c : Call} (bounded : Bounded p) (agree : p.writeOffset ≤ p.len) (nonneg : c.nonneg) (sums : p.Sums c) :
    (∀ store ∈ p.stores c, p.InBlock store) ∧ Bounded (p.call c).2 := by
  cases c with
  | write op =>
    cases op with
    | byte c => exact writeData_bounded _ bounded agree (by decide) sums
    | short s => exact writeData_bounded _ bounded agree (by decide) sums
    | long l => exact writeData_bounded _ bounded agree (by decide) sums
    | float f => exact writeData_bounded _ bounded agree (by decide) sums
    | binary data => exact writePrefixed_bounded bounded agree (Int.natCast_nonneg _) sums
    | string str => exact writePrefixed_bounded bounded agree nonneg sums
  | writeBinary data len => exact writePrefixed_bounded bounded agree nonneg sums
  | read op =>
    obtain ⟨data,len,offset,max,_⟩ := p.read_same op
    obtain ⟨low,high,block⟩ := bounded
    exact ⟨nofun,by simpa [call,offset] using low,by simpa [call,offset,max] using high,by simpa [call,data,max] using block⟩

theorem setSize_bounded {n : Int} (bounded : Bounded p) (nonneg : 0 ≤ n) (keeps : n ≤ maxCmdPacketSize → p.writeOffset ≤ n) :
    Bounded (p.setSize n).2 := by
  unfold setSize
  split
  · exact bounded
  · rename_i fits
    exact ⟨bounded.low,keeps (Int.not_lt.mp fits),by simpa using nonneg⟩

theorem cloneFrom_refused {packet : CmdPacket} (p : CmdPacket) (large : packet.len > maxCmdPacketSize) :
    p.cloneFrom packet = (false,p) := by
  simp [cloneFrom,copyData,getDataSize,setSize,large]

theorem cloneFrom_taken {packet : CmdPacket} (p : CmdPacket) (fits : packet.len ≤ maxCmdPacketSize) :
    p.cloneFrom packet = (true,{p with
      data := Block.patch (List.replicate packet.len.toNat 0) 0 packet.content
      len := packet.len
      maxSize := packet.len}) := by
  have small : ¬ packet.len > maxCmdPacketSize := Int.not_lt.mpr fits
  simp [cloneFrom,copyData,getDataSize,setSize,small,content]

theorem length_clone (packet : CmdPacket) :
    (Block.patch (List.replicate packet.len.toNat (0 : UInt8)) 0 packet.content).length = packet.len.toNat := by
  have short : packet.content.length ≤ packet.len.toNat := List.length_take_le _ _
  rw [Block.length_patch (by simpa using short),List.length_replicate]

theorem cloneFrom_bounded {packet : CmdPacket} (bounded : Bounded p) (nonneg : 0 ≤ packet.len)
    (keeps : packet.len ≤ maxCmdPacketSize → p.writeOffset ≤ packet.len) : Bounded (p.cloneFrom packet).2 := by
  by_cases large : packet.len > maxCmdPacketSize
  · rw [cloneFrom_refused p large]
    exact bounded
  · have fits := Int.not_lt.mp large
    rw [cloneFrom_taken p fits]
    refine ⟨bounded.low,keeps fits,?_⟩
    simpa [length_clone] using nonneg

end CmdPacket

-- A packet and where m_pReadData points: into the packet's own block, or to bytes that
-- are not the packet's.
structure Located extends CmdPacket where
  own : Bool

inductive PacketEvent where
  | setSize (len : Int)
  | beginWrite
  | beginReadOwn
  | beginRead (bytes : List UInt8) (len : Int)
  | cloneFrom (packet : CmdPacket)
  | call (c : CmdPacket.Call)

namespace Located

def new : Located := ⟨CmdPacket.new,false⟩

-- The packet with the bytes that m_pReadData shows.
def settled (s : Located) : CmdPacket := {s.toCmdPacket with readData := if s.own then s.data else s.readData}

-- A new block leaves m_pReadData at the freed one, with what that held. In its own block a
-- packet reads what it writes, and ReadString sets its zero there.
def run (s : Located) : PacketEvent → Located
  | .setSize len =>
    let (ok,p) := s.settled.setSize len
    ⟨p,s.own && !ok⟩
  | .beginWrite => {s with toCmdPacket := s.toCmdPacket.beginWrite}
  | .beginReadOwn => ⟨s.toCmdPacket.beginReadOwn,true⟩
  | .beginRead bytes len => ⟨s.toCmdPacket.beginRead bytes len,false⟩
  | .cloneFrom packet =>
    let (ok,p) := s.settled.cloneFrom packet
    ⟨p,s.own && !ok⟩
  | .call (.read op) =>
    let p := (s.settled.read op).2
    ⟨{p with data := if s.own then p.readData else p.data},s.own⟩
  | .call (.write op) => ⟨(s.settled.tryWrite op).2,s.own⟩
  | .call (.writeBinary data len) => ⟨(s.settled.writeBinary data len).2,s.own⟩

end Located

-- What the callers pass: no length is negative.
def PacketEvent.nonneg : PacketEvent → Prop
  | .setSize len | .beginRead _ len => 0 ≤ len
  | .cloneFrom packet => 0 ≤ packet.len
  | .call (.writeBinary _ len) => 0 ≤ len
  | .call (.write _) | .call (.read _) | .beginWrite | .beginReadOwn => True

inductive PacketStep : Located → PacketEvent → Located → Prop where
  | run (nonneg : event.nonneg) : PacketStep s event (s.run event)

namespace Located

def stores (s : Located) : PacketEvent → List (Int × Int)
  | .call c => s.settled.stores c
  | .setSize _ | .beginWrite | .beginReadOwn | .beginRead _ _ | .cloneFrom _ => []

-- A new block is no shorter than what was written, a write finds m_nLen no less than
-- m_nWriteOffset and not so large that its sums overflow, and the length of a string is no
-- negative short.
def Agrees (s : Located) : PacketEvent → Prop
  | .setSize len => len ≤ maxCmdPacketSize → s.writeOffset ≤ len
  | .cloneFrom packet => packet.len ≤ maxCmdPacketSize → s.writeOffset ≤ packet.len
  | .call (.write op) => s.writeOffset ≤ s.len ∧ CmdPacket.Call.nonneg (.write op) ∧ s.Sums (.write op)
  | .call (.writeBinary data len) => s.writeOffset ≤ s.len ∧ s.Sums (.writeBinary data len)
  | .call (.read _) | .beginWrite | .beginReadOwn | .beginRead _ _ => True

theorem run_bounded {s : Located} (bounded : s.Bounded) (agrees : s.Agrees event) (step : PacketStep s event t) :
    (∀ store ∈ s.stores event, s.InBlock store) ∧ t.Bounded := by
  have settled : s.settled.Bounded := ⟨bounded.low,bounded.high,bounded.block⟩
  cases step with
  | run nonneg =>
    cases event with
    | setSize len => exact ⟨nofun,CmdPacket.setSize_bounded settled nonneg agrees⟩
    | beginWrite => exact ⟨nofun,Int.le_refl 0,Int.le_trans bounded.low bounded.high,bounded.block⟩
    | beginReadOwn => exact ⟨nofun,bounded.low,bounded.high,bounded.block⟩
    | beginRead bytes len => exact ⟨nofun,bounded.low,bounded.high,bounded.block⟩
    | cloneFrom packet => exact ⟨nofun,CmdPacket.cloneFrom_bounded settled nonneg agrees⟩
    | call c =>
      cases c with
      | write op => exact CmdPacket.write_bounded (c := .write op) settled agrees.1 agrees.2.1 agrees.2.2
      | writeBinary data len => exact CmdPacket.write_bounded (c := .writeBinary data len) settled agrees.1 nonneg agrees.2
      | read op =>
        obtain ⟨data,_,offset,max,memory⟩ := s.settled.read_same op
        obtain ⟨low,high,block⟩ := settled
        refine ⟨nofun,?_,?_,?_⟩
        · simpa [run,offset] using low
        · simpa [run,offset,max] using high
        · cases own : s.own with
          | false => simpa [run,own,data,max] using block
          | true =>
            have length : (s.settled.read op).2.readData.length = s.data.length := by simpa [Located.settled,own] using memory
            simp only [run,own,if_true,length,max]
            exact block

-- Every WriteData that returned true has stored within the block of that time.
theorem writes_inside (path : Path PacketStep new taken last) (agrees : ∀ t ∈ taken, t.before.Agrees t.event) :
    (0 ≤ last.writeOffset ∧ last.writeOffset ≤ last.maxSize) ∧
    ∀ t ∈ taken, ∀ store ∈ t.before.stores t.event,
      0 ≤ store.1 ∧ 0 ≤ store.2 ∧ store.1+store.2 ≤ t.before.maxSize ∧ t.before.maxSize = t.before.data.length := by
  have start : new.Bounded := ⟨by decide,by decide,congrArg Int.ofNat (List.length_replicate : (List.replicate 1024 (0 : UInt8)).length = 1024)⟩
  have guarded := path.restrict Agrees agrees
  have kept : ∀ before event after, before.Bounded → (PacketStep before event after ∧ before.Agrees event) → after.Bounded :=
    fun _ _ _ bounded step => (run_bounded bounded step.2 step.1).2
  refine ⟨?_,?_⟩
  · have ended := guarded.invariant (fun s => s.Bounded) start kept
    exact ⟨ended.low,ended.high⟩
  · refine guarded.along (fun s => s.Bounded) (fun before event _ => ∀ store ∈ before.stores event,
      0 ≤ store.1 ∧ 0 ≤ store.2 ∧ store.1+store.2 ≤ before.maxSize ∧ before.maxSize = before.data.length) start kept ?_
    intro before event after bounded step store member
    obtain ⟨low,some,high⟩ := (run_bounded bounded step.2 step.1).1 store member
    exact ⟨low,some,high,bounded.block.symm⟩

theorem writes_inside_long : ∃ taken last, Path PacketStep new taken last ∧ taken.length = 2 ∧
    (0 ≤ last.writeOffset ∧ last.writeOffset ≤ last.maxSize) ∧
    ∀ t ∈ taken, ∀ store ∈ t.before.stores t.event,
      0 ≤ store.1 ∧ 0 ≤ store.2 ∧ store.1+store.2 ≤ t.before.maxSize ∧ t.before.maxSize = t.before.data.length := by
  have first : PacketStep new (.setSize 4) _ := .run (by decide : (0 : Int) ≤ 4)
  have second : PacketStep (new.run (.setSize 4)) (.call (.write (.long 7))) _ := .run trivial
  have path := Path.step (.step .nil first) second
  refine ⟨_,_,path,rfl,writes_inside path ?_⟩
  intro t member
  rcases List.mem_append.mp member with early | late
  · cases List.mem_singleton.mp early
    exact fun _ => (by decide : (0 : Int) ≤ 4)
  · cases List.mem_singleton.mp late
    exact ⟨(by decide : (0 : Int) ≤ 0),trivial,(by decide : (0 : Int)+4 < 2^31)⟩

-- A long in a block of four bytes, then bytes to read, and a byte behind the long.
theorem write_outside :
    ¬ ∀ taken last, Path PacketStep new taken last →
      (0 ≤ last.writeOffset ∧ last.writeOffset ≤ last.maxSize) ∧
      ∀ t ∈ taken, ∀ store ∈ t.before.stores t.event,
        0 ≤ store.1 ∧ 0 ≤ store.2 ∧ store.1+store.2 ≤ t.before.maxSize ∧ t.before.maxSize = t.before.data.length := by
  intro inside
  have first : PacketStep new (.setSize 4) _ := .run (by decide : (0 : Int) ≤ 4)
  have second : PacketStep (new.run (.setSize 4)) (.call (.write (.long 7))) _ := .run trivial
  have third : PacketStep ((new.run (.setSize 4)).run (.call (.write (.long 7)))) (.beginRead [] 0) _ := .run (Int.le_refl 0)
  have fourth : PacketStep (((new.run (.setSize 4)).run (.call (.write (.long 7)))).run (.beginRead [] 0))
    (.call (.write (.byte 1))) _ := .run trivial
  have reached := (inside _ _ (.step (.step (.step (.step .nil first) second) third) fourth)).2 _
    (List.mem_append_right _ (List.mem_singleton.mpr rfl)) (4,1) (List.mem_singleton.mpr rfl)
  exact absurd reached.2.2.1 (by decide)

end Located
end PcNetwork
