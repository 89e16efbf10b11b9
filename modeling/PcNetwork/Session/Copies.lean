import PcNetwork.Session.HostileReads
import PcNetwork.Session.Acceptance
import PcNetwork.Session.WriteBounds

namespace PcNetwork
namespace CmdPacket

-- Two packets that a reader cannot tell apart, wherever their bytes are.
structure Alike (payload : Int) (p q : CmdPacket) : Prop where
  first : Inside payload p
  second : Inside payload q
  offset : q.readOffset = p.readOffset
  bytes : q.readData.take payload.toNat = p.readData.take payload.toNat

theorem Alike.slice (alike : Alike payload p q) (start n : Nat) (within : start+n ≤ payload.toNat) :
    Block.slice q.readData start n = Block.slice p.readData start n := by
  have cut : ∀ memory : List UInt8, Block.slice memory start n = Block.slice (memory.take payload.toNat) start n := by
    intro memory
    simp only [Block.slice,List.drop_take,List.take_take]
    rw [Nat.min_eq_left (by omega)]
  rw [cut,alike.bytes,← cut]

theorem readBytes_alike {n : Int} (alike : Alike payload p q) (nonneg : 0 ≤ n) (short : n < 2^15) :
    (q.readBytes n).1 = (p.readBytes n).1 ∧ Alike payload (p.readBytes n).2 (q.readBytes n).2 := by
  have ended : q.len = p.len := alike.second.len.trans alike.first.len.symm
  have sum := alike.first.sum nonneg short
  refine ⟨?_,readBytes_inside alike.first nonneg short,readBytes_inside alike.second nonneg short,?_,?_⟩
  all_goals
    unfold readBytes
    rw [ended,alike.offset,sum]
    split
  · rfl
  · rename_i room
    have low := alike.first.low
    have len := alike.first.len
    simp only [alike.slice p.readOffset.toNat n.toNat (by omega)]
  · exact alike.offset
  · rfl
  · exact alike.bytes
  · exact alike.bytes

theorem readShort_alike (alike : Alike payload p q) :
    q.readShort.1 = p.readShort.1 ∧ Alike payload p.readShort.2 q.readShort.2 := by
  obtain ⟨same,after⟩ := readBytes_alike alike (by decide : (0 : Int) ≤ shortSize) (by decide)
  exact ⟨congrArg (Option.map Endian.toInt16) same,after⟩

theorem readBlock_alike (alike : Alike payload p q) :
    q.readBlock.1 = p.readBlock.1 ∧ Alike payload p.readBlock.2 q.readBlock.2 := by
  obtain ⟨same,after⟩ := readShort_alike alike
  have first := (readBlock_inside alike.first).1
  have second := (readBlock_inside alike.second).1
  unfold readBlock at first second ⊢
  generalize p.readShort = r at same after first
  generalize q.readShort = t at same after second
  obtain ⟨found,p'⟩ := r
  obtain ⟨_,q'⟩ := t
  cases same
  have ended : q'.len = p'.len := after.second.len.trans after.first.len.symm
  have offset : q'.readOffset = p'.readOffset := after.offset
  cases found with
  | none => exact ⟨rfl,after⟩
  | some len =>
    dsimp only at first second ⊢
    rw [ended,offset] at second ⊢
    split
    · exact ⟨rfl,after⟩
    · rename_i some
      rw [if_neg some] at first second
      split
      · exact ⟨rfl,after⟩
      · rename_i room
        rw [if_neg room] at first second
        exact ⟨rfl,first,second,rfl,after.bytes⟩

theorem readString_alike (alike : Alike payload p q) :
    (q.read .string).1 = (p.read .string).1 ∧ Alike payload (p.read .string).2 (q.read .string).2 := by
  obtain ⟨same,after⟩ := readBlock_alike alike
  have bounds := (readBlock_inside alike.first).2
  have first := (readString_inside alike.first).1
  have second := (readString_inside alike.second).1
  simp only [read]
  unfold readString at first second ⊢
  generalize p.readBlock = r at same after first bounds
  generalize q.readBlock = t at same after second
  obtain ⟨found,p'⟩ := r
  obtain ⟨_,q'⟩ := t
  cases same
  cases found with
  | none => exact ⟨rfl,after⟩
  | some place =>
    obtain ⟨start,len⟩ := place
    obtain ⟨low,some,high⟩ := bounds start len rfl
    have bytes : (q'.readData.set (start+len-1).toNat 0).take payload.toNat = (p'.readData.set (start+len-1).toNat 0).take payload.toNat := by
      rw [List.take_set,List.take_set,after.bytes]
    -- up to the zero the two are the same
    have cut : ∀ {r : CmdPacket}, Inside payload r →
        ((r.readData.set (start+len-1).toNat 0).drop start.toNat).takeWhile (· ≠ 0) =
        (((r.readData.set (start+len-1).toNat 0).take payload.toNat).drop start.toNat).takeWhile (· ≠ 0) := by
      intro r inside
      have memory := inside.memory
      rw [List.drop_take]
      refine (Block.takeWhile_take (x := 0) (i := (start+len-1).toNat-start.toNat) ?_ (by simp) (by omega)).symm
      rw [List.getElem?_drop,Nat.add_sub_cancel' (by omega)]
      exact List.getElem?_set_self (by omega)
    refine ⟨?_,first,second,after.offset,bytes⟩
    dsimp only [Option.map_some]
    rw [cut after.second,bytes,← cut after.first]

theorem read_alike (alike : Alike payload p q) (op : ReadOp) :
    (q.read op).1 = (p.read op).1 ∧ Alike payload (p.read op).2 (q.read op).2 := by
  cases op with
  | byte =>
    obtain ⟨same,after⟩ := readBytes_alike alike (by decide : (0 : Int) ≤ byteSize) (by decide)
    exact ⟨congrArg (fun bytes => (Option.map (fun bytes : List UInt8 => bytes.headD 0) bytes).map WriteOp.byte) same,after⟩
  | short =>
    obtain ⟨same,after⟩ := readShort_alike alike
    exact ⟨congrArg (Option.map WriteOp.short) same,after⟩
  | long =>
    obtain ⟨same,after⟩ := readBytes_alike alike (by decide : (0 : Int) ≤ longSize) (by decide)
    exact ⟨congrArg (fun bytes => (Option.map Endian.toInt32 bytes).map WriteOp.long) same,after⟩
  | float =>
    obtain ⟨same,after⟩ := readBytes_alike alike (by decide : (0 : Int) ≤ floatSize) (by decide)
    exact ⟨congrArg (fun bytes => (Option.map (fun bytes => UInt32.ofNat (Endian.decode bytes)) bytes).map WriteOp.float) same,after⟩
  | binary =>
    obtain ⟨same,after⟩ := readBlock_alike alike
    have bounds := (readBlock_inside alike.first).2
    simp only [read,readBinary]
    refine ⟨?_,after⟩
    rw [same]
    cases found : p.readBlock.1 with
    | none => rfl
    | some place =>
      obtain ⟨start,len⟩ := place
      obtain ⟨low,some,high⟩ := bounds start len found
      have slices := after.slice start.toNat len.toNat (by omega)
      exact congrArg (fun bytes => Option.some (WriteOp.binary bytes)) slices
  | string => exact readString_alike alike

theorem readAll_alike (alike : Alike payload p q) (ops : List ReadOp) : (readAll ops q).1 = (readAll ops p).1 := by
  induction ops generalizing p q with
  | nil => rfl
  | cons op rest ih =>
    obtain ⟨same,after⟩ := read_alike alike op
    simp only [readAll]
    rw [same,ih after]

-- Where a packet comes from: Write calls have filled it, or BeginRead(p,len) has attached it
-- to received bytes, from which the Read calls `done` have been made.
inductive Source where
  | filled (p : CmdPacket)
  | attached (p : CmdPacket) (bytes : List UInt8) (len : Int) (done : List ReadOp)

namespace Source

def packet : Source → CmdPacket
  | filled p => p
  | attached p bytes len done => (readAll done (p.beginRead bytes len)).2

-- The packet set to its start again.
def start : Source → CmdPacket
  | filled p => p.beginReadOwn
  | attached p bytes len done => {(readAll done (p.beginRead bytes len)).2 with readOffset := 0}

-- Received bytes are there, no more of them than NetPacket's BeginRead lets pass.
def Genuine : Source → Prop
  | filled p => Written p
  | attached _ bytes len _ => 0 ≤ len ∧ len ≤ bytes.length ∧ len ≤ maxCmdPacketSize

-- An attached packet's own block happens to begin with the bytes it is attached to.
def Held : Source → Prop
  | filled _ => True
  | attached p bytes len done => (attached p bytes len done).packet.content = (attached p bytes len done).packet.readable

theorem Genuine.inside {source : Source} (genuine : source.Genuine) :
    Inside source.packet.len source.start ∧ source.packet.len ≤ maxCmdPacketSize ∧ source.start.readOffset = 0 := by
  cases source with
  | filled p =>
    obtain ⟨low,offset,room,most,block⟩ := Written.writing genuine
    have memory : p.len ≤ p.data.length := by omega
    have few : p.len < 2^16 := by unfold maxCmdPacketSize at most; omega
    exact ⟨⟨rfl,Int.le_refl 0,low,memory,few⟩,Int.le_trans room most,rfl⟩
  | attached p bytes len done =>
    obtain ⟨low,given,most⟩ := genuine
    have begun : Inside len (p.beginRead bytes len) := ⟨rfl,Int.le_refl 0,low,given,by unfold maxCmdPacketSize at most; omega⟩
    obtain ⟨ended,_,_,memory,small⟩ := readAll_inside begun done
    have same : (attached p bytes len done).packet.len = len := ended
    rw [same]
    exact ⟨⟨ended,Int.le_refl 0,Int.le_trans low (Int.le_of_eq ended.symm),memory,small⟩,most,rfl⟩

theorem held_iff (source : Source) : source.Held ↔ source.packet.content = source.start.readable := by
  cases source with
  | filled p => exact ⟨fun _ => rfl,fun _ => trivial⟩
  | attached p bytes len done => exact Iff.rfl

end Source

-- What a copy and a frame of the packet are to have.
structure Preserved (source : Source) : Prop where
  within : source.packet.getDataSize ≤ source.packet.getData.length
  copied : ∀ (other : CmdPacket) (ops : List ReadOp), (other.cloneFrom source.packet).1 = true ∧
    (readAll ops (other.cloneFrom source.packet).2.beginReadOwn).1 = (readAll ops source.start).1
  framed : ∀ s : TcpSession, ((s.plain source.packet).attachCmdPacket TcpSession.recvCmdPkt).readable = source.start.readable
  sent : ∀ (s : TcpSession) (sys : Bool), s.bEncrypt = false ∨ sys = true →
    (s.frame source.packet sys).drop netPacketHeadSize.toNat = source.start.readable

theorem plain_readable {p : CmdPacket} (s : TcpSession) (nonneg : 0 ≤ p.len) (most : p.len ≤ maxCmdPacketSize) (within : p.len ≤ p.data.length) :
    (s.plain p).body.take (s.plain p).pktDataSize.toNat = p.content := by
  have bound : maxCmdPacketSize = 16384 := rfl
  have size : (UInt16.ofInt p.len).toNat = p.len.toNat := by
    rw [UInt16.ofInt,UInt16.toNat_ofNat']
    omega
  have whole : p.content.length = p.len.toNat := by
    simp only [content,getData,getDataSize,List.length_take]
    omega
  simp only [TcpSession.plain,NetPacket.addCmdPacket,NetPacket.setSeq,getDataSize,size]
  show (Block.patch NetPacket.new.body 0 p.content).take p.len.toNat = p.content
  simp [Block.patch,← whole]

theorem wire_clear (s : TcpSession) (p : CmdPacket) {sys : Bool} (clear : s.bEncrypt = false ∨ sys = true) :
    (s.wire p sys).body = (s.plain p).body ∧ (s.wire p sys).pktDataSize = (s.plain p).pktDataSize := by
  cases sys with
  | true => exact ⟨rfl,rfl⟩
  | false =>
    have clear : s.bEncrypt = false := clear.resolve_right nofun
    cases compress : s.bCompress <;> simp [TcpSession.wire,TcpSession.plain,NetPacket.compress,clear,compress]

theorem drop_header (pkt : NetPacket) : pkt.bytes.drop netPacketHeadSize.toNat = pkt.body.take pkt.pktDataSize.toNat := by
  obtain ⟨s0,s1,seq⟩ : ∃ s0 s1, Endian.ofUInt16 pkt.pktSeq = [s0,s1] := ⟨_,_,rfl⟩
  obtain ⟨d0,d1,size⟩ : ∃ d0 d1, Endian.ofUInt16 pkt.pktDataSize = [d0,d1] := ⟨_,_,rfl⟩
  rw [NetPacket.bytes,seq,size]
  rfl

theorem clone_alike {source : Source} (genuine : source.Genuine) (held : source.packet.content = source.start.readable)
    (other : CmdPacket) : Alike source.packet.len source.start (other.cloneFrom source.packet).2.beginReadOwn := by
  obtain ⟨inside,most,offset⟩ := genuine.inside
  have memory := inside.memory
  have nonneg : 0 ≤ source.packet.len := Int.le_trans (Int.le_of_eq offset.symm) (Int.le_trans inside.high (Int.le_of_eq inside.len))
  have whole : source.packet.content.length = source.packet.len.toNat := by
    rw [held,readable,inside.len,List.length_take]
    omega
  have block := length_clone source.packet
  rw [cloneFrom_taken other most]
  refine ⟨inside,⟨rfl,Int.le_refl 0,nonneg,?_,inside.small⟩,offset.symm,?_⟩
  · simp only [beginReadOwn,block]
    omega
  · have front : (Block.patch (List.replicate source.packet.len.toNat (0 : UInt8)) 0 source.packet.content).take source.packet.len.toNat =
        source.packet.content := by simp [Block.patch,← whole]
    simp only [beginReadOwn,front]
    rw [held,readable,inside.len]

-- Copying and sending go by GetData() and GetDataSize(): they keep what was written, and of
-- an attached packet what its own block holds.
theorem preserved_iff {source : Source} (genuine : source.Genuine) : Preserved source ↔ source.Held := by
  obtain ⟨inside,most,offset⟩ := genuine.inside
  have nonneg : 0 ≤ source.packet.len := Int.le_trans (Int.le_of_eq offset.symm) (Int.le_trans inside.high (Int.le_of_eq inside.len))
  rw [source.held_iff]
  constructor
  · intro preserved
    have framed := preserved.framed TcpSession.new
    rwa [← plain_readable TcpSession.new nonneg most preserved.within]
  · intro held
    have memory := inside.memory
    have whole : (source.packet.content.length : Int) = source.packet.len := by
      rw [held,readable,inside.len,List.length_take]
      omega
    have within : source.packet.getDataSize ≤ source.packet.getData.length := by
      rw [content,List.length_take] at whole
      unfold getDataSize at whole ⊢
      omega
    have payload := fun s : TcpSession => (plain_readable s nonneg most within).trans held
    refine ⟨within,?_,payload,?_⟩
    · intro other ops
      have alike := clone_alike genuine held other
      rw [cloneFrom_taken other most] at alike ⊢
      exact ⟨rfl,readAll_alike alike ops⟩
    · intro s sys clear
      obtain ⟨body,size⟩ := wire_clear s.numbered source.packet clear
      unfold TcpSession.frame
      rw [drop_header,body,size]
      exact payload s.numbered

theorem preserved_iff_byte :
    Preserved (.filled (new.beginWrite.write (.byte 7))) ↔ Source.Held (.filled (new.beginWrite.write (.byte 7))) := by
  have written : (new.beginWrite.write (.byte 7)).Written := by
    refine ⟨new,[.byte 7],new_sized,?_,rfl⟩
    intro op member
    cases List.mem_singleton.mp member
    trivial
  exact preserved_iff written

-- A packet attached to one byte that its own block does not hold.
theorem attached_lost : ¬ ∀ source : Source, source.Genuine → Preserved source := by
  intro preserved
  have kept := preserved (.attached new [7] 1 []) ⟨by decide,by decide,by decide⟩
  have bytes := plain_readable (p := (Source.attached new [7] 1 []).packet) TcpSession.new (by decide) (by decide) kept.within
  have lost := (kept.framed TcpSession.new).symm.trans bytes
  exact absurd lost (by decide)

end CmdPacket
end PcNetwork
