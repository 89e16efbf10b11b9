import PcNetwork.Session.Acceptance

namespace PcNetwork
namespace CmdPacket

-- The Read calls. What they give back is the field that a Write call would have taken:
-- a string are the characters before the zero it is terminated with.
inductive ReadOp where
  | byte
  | short
  | long
  | float
  | binary
  | string

def read (p : CmdPacket) : ReadOp → Option WriteOp × CmdPacket
  | .byte => (p.readByte.1.map .byte,p.readByte.2)
  | .short => (p.readShort.1.map .short,p.readShort.2)
  | .long => (p.readLong.1.map .long,p.readLong.2)
  | .float => (p.readFloat.1.map .float,p.readFloat.2)
  | .binary =>
    let (found,p) := p.readBinary
    (found.map fun (data,len) => .binary (Block.slice p.readData data.toNat len.toNat),p)
  | .string =>
    let (found,p) := p.readString
    (found.map fun str => .string ((p.readData.drop str.toNat).takeWhile (· ≠ 0)),p)

def readAll : List ReadOp → CmdPacket → List (Option WriteOp) × CmdPacket
  | [],p => ([],p)
  | op :: rest,p =>
    let (value,p) := p.read op
    let (values,p) := readAll rest p
    (value :: values,p)

-- The Write calls with what they return.
def tryWrite (p : CmdPacket) : WriteOp → Bool × CmdPacket
  | .byte c => p.writeByte c
  | .short s => p.writeShort s
  | .long l => p.writeLong l
  | .float f => p.writeFloat f
  | .binary data => p.writeBinary data data.length
  | .string str => p.writeString str

theorem write_tryWrite (p : CmdPacket) (op : WriteOp) : p.write op = (p.tryWrite op).2 := by cases op <;> rfl

def writeAll : List WriteOp → CmdPacket → List Bool × CmdPacket
  | [],p => ([],p)
  | op :: rest,p =>
    let (ok,p) := p.tryWrite op
    let (oks,p) := writeAll rest p
    (ok :: oks,p)

-- A string has no zero within it, a block has at least one byte.
def WriteOp.proper : WriteOp → Prop
  | .string str => ∀ c ∈ str, c ≠ 0
  | .binary data => data ≠ []
  | .byte _ | .short _ | .long _ | .float _ => True

def WriteOp.size : WriteOp → Nat
  | .byte _ => 1
  | .short _ => 2
  | .long _ => 4
  | .float _ => 4
  | .string str => 2+str.length+1
  | .binary data => 2+data.length

def WriteOp.kind : WriteOp → ReadOp
  | .byte _ => .byte
  | .short _ => .short
  | .long _ => .long
  | .float _ => .float
  | .string _ => .string
  | .binary _ => .binary

-- A field as it lies in a packet.
def WriteOp.bytes : WriteOp → List UInt8
  | .byte c => [c]
  | .short s => Endian.ofInt16 s
  | .long l => Endian.ofInt32 l
  | .float f => Endian.encode 4 f.toNat
  | .string str => Endian.ofInt16 (Int16.ofInt (str.length+1)) ++ (str ++ [0])
  | .binary data => Endian.ofInt16 (Int16.ofInt data.length) ++ data

@[simp] theorem WriteOp.length_bytes (op : WriteOp) : op.bytes.length = op.size := by
  cases op with
  | byte | short | long | float => simp [bytes,size]
  | string str => simp [bytes,size]; omega
  | binary data => simp [bytes,size]

-- A write that fits appends its bytes.
structure Grew (p : CmdPacket) (bytes : List UInt8) (r : Bool × CmdPacket) : Prop where
  accepted : r.1 = true
  writing : Writing r.2
  content : r.2.content = p.content ++ bytes
  max : r.2.maxSize = p.maxSize
  len : r.2.len = p.len+bytes.length

theorem writeData_grew {bytes : List UInt8} {n : Int} (writing : Writing p) (count : (bytes.length : Int) = n)
    (fits : p.len+bytes.length ≤ p.maxSize) : Grew p bytes (p.writeData bytes n) := by
  have low := writing.len_nonneg
  have most := writing.size_le
  have bound : maxCmdPacketSize = 16384 := rfl
  obtain ⟨after,grew⟩ := writeData_writing writing count (by omega)
  obtain ⟨accepted,content,max,len⟩ := grew (by omega)
  exact ⟨accepted,after,content,max,by omega⟩

-- WriteBinary and WriteString: a length, and if that fits the bytes.
theorem writeShort_then {bytes : List UInt8} {s : Int16} {n : Int} (writing : Writing p) (count : (bytes.length : Int) = n)
    (fits : p.len+2+bytes.length ≤ p.maxSize) :
    Grew p (Endian.ofInt16 s ++ bytes)
      (if (p.writeShort s).1 = false then (false,(p.writeShort s).2) else (p.writeShort s).2.writeData bytes n) := by
  have width : (Endian.ofInt16 s).length = 2 := Endian.length_ofInt16 s
  obtain ⟨accepted,after,content,max,len⟩ : Grew p (Endian.ofInt16 s) (p.writeShort s) :=
    writeData_grew writing (by simp [shortSize]) (by rw [width]; omega)
  rw [accepted,if_neg (by simp)]
  obtain ⟨accepted,last,appended,same,total⟩ := writeData_grew after count (by rw [len,max,width]; omega)
  refine ⟨accepted,last,?_,same.trans max,?_⟩
  · rw [appended,content,List.append_assoc]
  · rw [total,len,List.length_append]
    omega

theorem toInt_short {n : Nat} (small : n < 2^15) : (Int16.ofInt n).toInt = n := by
  rw [Int16.toInt_ofInt]
  unfold Int16.size
  exact Int.bmod_eq_of_le (by omega) (by omega)

theorem tryWrite_grew {op : WriteOp} (writing : Writing p) (fits : p.len+op.size ≤ p.maxSize) :
    Grew p op.bytes (p.tryWrite op) := by
  have size := writing.size_le
  have nonneg := writing.len_nonneg
  have max : maxCmdPacketSize = 16384 := rfl
  have room : p.len+op.bytes.length ≤ p.maxSize := by
    rw [WriteOp.length_bytes]
    exact fits
  cases op with
  | byte c => exact writeData_grew writing rfl room
  | short s => exact writeData_grew writing (by simp [shortSize,WriteOp.size]) room
  | long l => exact writeData_grew writing (by simp [longSize,WriteOp.size]) room
  | float f => exact writeData_grew writing (by simp [floatSize,WriteOp.size]) room
  | binary data =>
    have whole : p.len+(2+data.length : Nat) ≤ p.maxSize := fits
    exact writeShort_then writing rfl (by omega)
  | string str =>
    have whole : p.len+(2+str.length+1 : Nat) ≤ p.maxSize := fits
    have count : ((str ++ [0]).length : Int) = (Int16.ofInt (str.length+1)).toInt := by
      have small : (Int16.ofInt ((str.length+1 : Nat) : Int)).toInt = (str.length+1 : Nat) := toInt_short (by omega)
      simpa using small.symm
    exact writeShort_then writing count (by simp; omega)

theorem writeAll_grew {ops : List WriteOp} (writing : Writing p) (fits : p.len+(ops.map WriteOp.size).sum ≤ p.maxSize) :
    (writeAll ops p).1 = ops.map (fun _ => true) ∧ Grew p (ops.flatMap WriteOp.bytes) (true,(writeAll ops p).2) := by
  induction ops generalizing p with
  | nil => exact ⟨rfl,rfl,writing,by simp [writeAll],rfl,by simp [writeAll]⟩
  | cons op rest ih =>
    rw [List.map_cons,List.sum_cons] at fits
    have first : p.len+op.size ≤ p.maxSize := by omega
    obtain ⟨accepted,after,content,max,len⟩ := tryWrite_grew writing first
    rw [WriteOp.length_bytes] at len
    obtain ⟨oks,_,last,appended,same,total⟩ := ih after (by rw [len,max]; omega)
    unfold writeAll
    dsimp only
    refine ⟨by rw [accepted,oks]; rfl,rfl,last,?_,same.trans max,?_⟩
    · rw [appended,content,List.flatMap_cons,List.append_assoc]
    · rw [total,len,List.flatMap_cons,List.length_append,WriteOp.length_bytes]
      omega

-- A packet in the course of reading: what was read, and what is left. Its size is one of
-- a frame, which has 16 bits for it.
structure Reads (p : CmdPacket) (done left : List UInt8) : Prop where
  memory : ∃ tail, p.readData = done ++ left ++ tail
  offset : p.readOffset = done.length
  len : p.len = (done.length+left.length : Nat)
  small : p.len < 2^16

theorem Reads.bytes {bytes left : List UInt8} {n : Int} (reads : Reads p done (bytes ++ left)) (count : (bytes.length : Int) = n) :
    (p.readBytes n).1 = some bytes ∧ (p.readBytes n).2.readData = p.readData ∧ Reads (p.readBytes n).2 (done ++ bytes) left := by
  obtain ⟨⟨tail,memory⟩,offset,len,small⟩ := reads
  rw [List.length_append] at len
  unfold readBytes
  rw [int32_small (by omega) (by omega),if_neg (by omega)]
  refine ⟨?_,rfl,⟨⟨tail,?_⟩,?_,?_,small⟩⟩
  · have place : p.readOffset.toNat = done.length := by omega
    have width : n.toNat = bytes.length := by omega
    simp [Block.slice,memory,place,width,List.append_assoc]
  · simp only [memory,List.append_assoc]
  · simp only [List.length_append]
    omega
  · simp only [List.length_append]
    omega

theorem Reads.short {s : Int16} (reads : Reads p done (Endian.ofInt16 s ++ left)) :
    p.readShort.1 = some s ∧ p.readShort.2.readData = p.readData ∧ Reads p.readShort.2 (done ++ Endian.ofInt16 s) left := by
  obtain ⟨value,same,after⟩ := reads.bytes (n := shortSize) (by simp [shortSize])
  refine ⟨?_,same,after⟩
  show (p.readBytes shortSize).1.map Endian.toInt16 = _
  simp [value]

theorem Reads.block {bytes left : List UInt8} {s : Int16} (reads : Reads p done (Endian.ofInt16 s ++ (bytes ++ left)))
    (count : s.toInt = bytes.length) (some : bytes ≠ []) :
    p.readBlock.1 = .some (((done ++ Endian.ofInt16 s).length : Int),(bytes.length : Int)) ∧
    p.readBlock.2.readData = p.readData ∧ Reads p.readBlock.2 (done ++ (Endian.ofInt16 s ++ bytes)) left := by
  obtain ⟨value,same,⟨tail,memory⟩,offset,len,few⟩ := reads.short
  have positive := List.length_pos_iff.mpr some
  unfold readBlock
  generalize p.readShort = r at value same memory offset len few
  obtain ⟨_,q⟩ := r
  subst value
  simp only [List.length_append,Endian.length_ofInt16] at same memory offset len few ⊢
  rw [count,if_neg (by omega),int32_small (by omega) (by omega),if_neg (by omega)]
  refine ⟨by rw [offset],same,⟨tail,?_⟩,?_,?_,few⟩
  · simp only [memory,List.append_assoc]
  · simp only [List.length_append,Endian.length_ofInt16]
    omega
  · simp only [List.length_append,Endian.length_ofInt16]
    omega

-- A block and a string behind their length.
theorem Reads.binary {data : List UInt8} (reads : Reads p done (Endian.ofInt16 (Int16.ofInt data.length) ++ (data ++ left)))
    (nonempty : data ≠ []) (small : 2+data.length < 2^15) :
    (p.read .binary).1 = some (.binary data) ∧
    Reads (p.read .binary).2 (done ++ (Endian.ofInt16 (Int16.ofInt data.length) ++ data)) left := by
  obtain ⟨value,same,after⟩ := reads.block (toInt_short (by omega)) nonempty
  obtain ⟨tail,memory⟩ := reads.memory
  refine ⟨?_,after⟩
  have found : p.readData = (done ++ Endian.ofInt16 (Int16.ofInt data.length)) ++ (data ++ (left ++ tail)) := by
    simpa using memory
  show (p.readBlock.1.map fun (place,len) => WriteOp.binary (Block.slice p.readBlock.2.readData place.toNat len.toNat)) = _
  rw [value,same,found]
  exact congrArg (fun bytes => some (WriteOp.binary bytes)) (Block.slice_middle _ _ _)

theorem Reads.string {str : List UInt8} (reads : Reads p done (Endian.ofInt16 (Int16.ofInt (str.length+1)) ++ ((str ++ [0]) ++ left)))
    (letters : ∀ c ∈ str, c ≠ 0) (small : 2+str.length+1 < 2^15) :
    (p.read .string).1 = some (.string str) ∧
    Reads (p.read .string).2 (done ++ (Endian.ofInt16 (Int16.ofInt (str.length+1)) ++ (str ++ [0]))) left := by
  have count : (Int16.ofInt (str.length+1)).toInt = (str ++ [0]).length := by
    have fits : (Int16.ofInt ((str.length+1 : Nat) : Int)).toInt = (str.length+1 : Nat) := toInt_short (by omega)
    simpa using fits
  obtain ⟨value,same,after⟩ := reads.block count (by simp)
  obtain ⟨tail,memory⟩ := reads.memory
  have found : p.readData = (done ++ Endian.ofInt16 (Int16.ofInt (str.length+1))) ++ (str ++ (0 :: (left ++ tail))) := by
    simpa using memory
  -- the zero that ReadString sets is the one that WriteString wrote
  have ended : p.readData.set ((done ++ Endian.ofInt16 (Int16.ofInt (str.length+1))).length+str.length) 0 = p.readData := by
    rw [found,List.set_append_right _ _ (by omega),Nat.add_sub_cancel_left,List.set_append_right _ _ (Nat.le_refl _),
      Nat.sub_self,List.set_cons_zero]
  have chars : (p.readData.drop (done ++ Endian.ofInt16 (Int16.ofInt (str.length+1))).length).takeWhile (· ≠ 0) = str := by
    rw [found,List.drop_left' rfl,List.takeWhile_append_of_pos (by simpa using letters)]
    simp
  obtain ⟨start,place⟩ : ∃ start : Nat, (done ++ Endian.ofInt16 (Int16.ofInt (str.length+1))).length = start := ⟨_,rfl⟩
  rw [place] at value ended chars
  have read : p.readString = (some (start : Int),p.readBlock.2) := by
    unfold readString
    generalize p.readBlock = r at value same
    obtain ⟨_,q⟩ := r
    subst value
    have zero : ((start : Int)+((str ++ [0]).length : Int)-1).toNat = start+str.length := by simp; omega
    dsimp only at same ⊢
    rw [zero,same,ended,← same]
  have form : p.read .string =
    (p.readString.1.map fun str => .string ((p.readString.2.readData.drop str.toNat).takeWhile (· ≠ 0)),p.readString.2) := rfl
  rw [form,read]
  refine ⟨?_,after⟩
  simpa [same] using chars

-- Every field is read as it was written.
theorem read_bytes {op : WriteOp} (proper : op.proper) (small : op.size < 2^15) (reads : Reads p done (op.bytes ++ left)) :
    (p.read op.kind).1 = some op ∧ Reads (p.read op.kind).2 (done ++ op.bytes) left := by
  cases op with
  | byte c =>
    obtain ⟨value,_,after⟩ := reads.bytes (n := byteSize) rfl
    refine ⟨?_,after⟩
    show ((p.readBytes byteSize).1.map fun bytes => bytes.headD 0).map WriteOp.byte = _
    rw [value]
    rfl
  | short s =>
    obtain ⟨value,_,after⟩ := reads.short
    exact ⟨congrArg (Option.map WriteOp.short) value,after⟩
  | long l =>
    obtain ⟨value,_,after⟩ := reads.bytes (n := longSize) (by simp [longSize,WriteOp.size])
    refine ⟨?_,after⟩
    show ((p.readBytes longSize).1.map Endian.toInt32).map WriteOp.long = _
    simp [value,WriteOp.bytes]
  | float f =>
    obtain ⟨value,_,after⟩ := reads.bytes (n := floatSize) (by simp [floatSize,WriteOp.size])
    refine ⟨?_,after⟩
    show ((p.readBytes floatSize).1.map fun bytes => UInt32.ofNat (Endian.decode bytes)).map WriteOp.float = _
    have back := Endian.decode_encode 4 f.toNat f.toNat_lt
    simp [value,WriteOp.bytes,back]
  | binary data =>
    have reading : Reads p done (Endian.ofInt16 (Int16.ofInt data.length) ++ (data ++ left)) := by
      simpa [WriteOp.bytes] using reads
    exact reading.binary proper small
  | string str =>
    have reading : Reads p done (Endian.ofInt16 (Int16.ofInt (str.length+1)) ++ ((str ++ [0]) ++ left)) := by
      simpa [WriteOp.bytes] using reads
    exact reading.string proper small

theorem readAll_bytes {ops : List WriteOp} (proper : ∀ op ∈ ops, op.proper) (small : (ops.map WriteOp.size).sum < 2^15)
    (reads : Reads p done (ops.flatMap WriteOp.bytes)) :
    (readAll (ops.map WriteOp.kind) p).1 = ops.map some ∧
    Reads (readAll (ops.map WriteOp.kind) p).2 (done ++ ops.flatMap WriteOp.bytes) [] := by
  induction ops generalizing p done with
  | nil =>
    refine ⟨rfl,?_⟩
    simpa [readAll] using reads
  | cons op rest ih =>
    simp only [List.map_cons,List.sum_cons,List.flatMap_cons] at small reads ⊢
    obtain ⟨value,after⟩ := read_bytes (proper op List.mem_cons_self) (by omega) reads
    obtain ⟨values,last⟩ := ih (fun o member => proper o (List.mem_cons_of_mem _ member)) (by omega) after
    unfold readAll
    refine ⟨?_,?_⟩
    · simp [value,values]
    · simpa using last

end CmdPacket

namespace NetPacket

-- BeginRead and AttachCmdPacket of the receiver. A BeginRead that takes no frame, of at
-- least a header, has left m_pktDataSize in the bytes it was given.
def receive (receiver : NetPacket) (bytes : List UInt8) (len : Int) (packet : CmdPacket) : CmdPacket :=
  let (ret,found) := receiver.beginRead bytes len
  if ret > 0 ∨ len < netPacketHeadSize then found.attachCmdPacket packet
  else packet.beginRead found.body (Endian.toUInt16 (Block.slice bytes 3 2)).toNat

-- A frame that was sent: its bytes, and what BeginRead makes of them.
structure Carries (sender : NetPacket) (payload : List UInt8) : Prop where
  flag : sender.pktFlag = protocolFlag <<< 4
  size : sender.pktDataSize.toNat = payload.length
  body : sender.body.take payload.length = payload
  most : (payload.length : Int) ≤ maxCmdPacketSize

theorem Carries.bytes (carries : Carries sender payload) (later : List UInt8) :
    ∃ s0 s1 d0 d1, Endian.toUInt16 [d0,d1] = sender.pktDataSize ∧
    sender.bytes ++ later = sender.pktFlag :: s0 :: s1 :: d0 :: d1 :: (payload ++ later) := by
  obtain ⟨s0,s1,seq⟩ : ∃ s0 s1, Endian.ofUInt16 sender.pktSeq = [s0,s1] := ⟨_,_,rfl⟩
  obtain ⟨d0,d1,count⟩ : ∃ d0 d1, Endian.ofUInt16 sender.pktDataSize = [d0,d1] := ⟨_,_,rfl⟩
  refine ⟨s0,s1,d0,d1,by rw [← count,Endian.uint16_roundtrip],?_⟩
  rw [NetPacket.bytes,seq,count,carries.size,carries.body]
  simp

theorem Carries.beginRead (carries : Carries sender payload) (receiver : NetPacket) (later : List UInt8) :
    ∃ found : NetPacket, found.pktDataSize = sender.pktDataSize ∧ found.body = Block.patch receiver.body 0 payload ∧
    receiver.beginRead (sender.bytes ++ later) (sender.bytes ++ later).length =
      if payload = [] then (-1,receiver) else (payload.length+netPacketHeadSize,found) := by
  obtain ⟨s0,s1,d0,d1,back,form⟩ := carries.bytes later
  have nibble : sender.pktFlag.toInt8.toInt >>> 4 = protocolFlag.toNat := by
    rw [carries.flag]
    decide
  have most := carries.most
  have length : ((sender.bytes ++ later).length : Int) = payload.length+later.length+netPacketHeadSize := by
    simp [form,netPacketHeadSize]
    omega
  refine ⟨⟨sender.pktFlag,Endian.toUInt16 [s0,s1],sender.pktDataSize,Block.patch receiver.body 0 payload⟩,rfl,rfl,?_⟩
  unfold NetPacket.beginRead
  rw [length,form,if_neg (by omega)]
  dsimp only
  rw [if_neg (not_not.mpr nibble),back,carries.size]
  by_cases empty : payload = []
  · simp [empty]
  · have positive := List.length_pos_iff.mpr empty
    rw [if_neg (by omega),if_neg (by omega),if_neg empty,List.take_left' rfl]

-- A frame that was sent is attached with its payload, also if that is empty.
theorem Carries.receive (carries : Carries sender payload) (receiver : NetPacket) (later : List UInt8) (packet : CmdPacket) :
    CmdPacket.Reads (receiver.receive (sender.bytes ++ later) (sender.bytes ++ later).length packet) [] payload := by
  obtain ⟨s0,s1,d0,d1,back,form⟩ := carries.bytes later
  obtain ⟨found,size,body,answer⟩ := carries.beginRead receiver later
  unfold NetPacket.receive
  rw [answer]
  by_cases empty : payload = []
  · have short : ¬ ((-1 : Int) > 0 ∨ ((sender.bytes ++ later).length : Int) < netPacketHeadSize) := by
      simp [form,netPacketHeadSize]
      omega
    have count : Block.slice (sender.bytes ++ later) 3 2 = [d0,d1] := by simp [form,Block.slice]
    rw [if_pos empty]
    dsimp only
    rw [if_neg short,count,back,carries.size,empty]
    exact ⟨⟨receiver.body,rfl⟩,rfl,rfl,by simp [CmdPacket.beginRead]⟩
  · rw [if_neg empty]
    dsimp only
    rw [if_pos (.inl (by unfold netPacketHeadSize; omega))]
    refine ⟨⟨receiver.body.drop payload.length,?_⟩,rfl,?_,?_⟩
    · show found.body = _
      simp [body,Block.patch]
    · show (found.pktDataSize.toNat : Int) = _
      simp [size,carries.size]
    · exact Int.ofNat_lt.mpr found.pktDataSize.toNat_lt

theorem addCmdPacket_carries {packet : CmdPacket} (sender : NetPacket) (seq : UInt16) (writing : packet.Writing) :
    Carries ((sender.addCmdPacket packet).setSeq seq) packet.content := by
  obtain ⟨low,most,size⟩ := writing.dataSize
  have length := writing.length_content
  refine ⟨rfl,size.trans (by omega),?_,by omega⟩
  -- the buffer begins with what was copied, and that is all of it
  have copied : ((sender.addCmdPacket packet).setSeq seq).body = Block.patch sender.body 0 (packet.getData.take packet.getDataSize.toNat) := by
    rw [← size]
    rfl
  rw [copied]
  simp [Block.patch,CmdPacket.content]

-- Whatever a packet held before, and whatever follows the frame in the received bytes.
theorem written_received {fields : List CmdPacket.WriteOp} (sized : CmdPacket.Sized p)
    (fits : (fields.map CmdPacket.WriteOp.size).sum ≤ p.maxSize) (sender receiver : NetPacket) (seq : UInt16) (later : List UInt8)
    (cmd : CmdPacket) :
    let (written,packet) := CmdPacket.writeAll fields p.beginWrite
    let frame := ((sender.addCmdPacket packet).setSeq seq).bytes
    written = fields.map (fun _ => true) ∧
    CmdPacket.Reads (receiver.receive (frame ++ later) (frame ++ later).length cmd) [] (fields.flatMap CmdPacket.WriteOp.bytes) := by
  have start := sized.writing
  have room : p.beginWrite.len+(fields.map CmdPacket.WriteOp.size).sum ≤ p.beginWrite.maxSize := by
    simpa [CmdPacket.beginWrite] using fits
  obtain ⟨written,_,writing,content,_,_⟩ := CmdPacket.writeAll_grew start room
  have empty : p.beginWrite.content = [] := by simp [CmdPacket.content,CmdPacket.getDataSize,CmdPacket.beginWrite]
  rw [empty,List.nil_append] at content
  have carries := addCmdPacket_carries sender seq writing
  rw [content] at carries
  exact ⟨written,carries.receive receiver later cmd⟩

theorem fields_roundtrip {fields : List CmdPacket.WriteOp} (sized : CmdPacket.Sized p) (proper : ∀ field ∈ fields, field.proper)
    (fits : (fields.map CmdPacket.WriteOp.size).sum ≤ p.maxSize) (sender receiver : NetPacket) (seq : UInt16) (later : List UInt8)
    (cmd : CmdPacket) :
    let (written,packet) := CmdPacket.writeAll fields p.beginWrite
    let frame := ((sender.addCmdPacket packet).setSeq seq).bytes
    let (values,read) := CmdPacket.readAll (fields.map CmdPacket.WriteOp.kind)
      (receiver.receive (frame ++ later) (frame ++ later).length cmd)
    written = fields.map (fun _ => true) ∧ values = fields.map some ∧ read.readOffset = read.len := by
  have most : maxCmdPacketSize = 16384 := rfl
  have bound := sized.size_le
  obtain ⟨written,received⟩ := written_received sized fits sender receiver seq later cmd
  obtain ⟨values,after⟩ := CmdPacket.readAll_bytes proper (by omega) received
  have offset := after.offset
  have len := after.len
  refine ⟨written,values,?_⟩
  simp only [List.length_nil,Nat.add_zero] at len
  exact offset.trans len.symm

theorem fields_roundtrip_mixed :
    let fields : List CmdPacket.WriteOp := [.string [104,105],.byte 7,.binary [0,1],.long (-3)]
    let (written,packet) := CmdPacket.writeAll fields CmdPacket.new.beginWrite
    let frame := ((new.addCmdPacket packet).setSeq 9).bytes
    let (values,read) := CmdPacket.readAll (fields.map CmdPacket.WriteOp.kind)
      (new.receive (frame ++ [80]) (frame ++ [80]).length CmdPacket.new)
    written = fields.map (fun _ => true) ∧ values = fields.map some ∧ read.readOffset = read.len := by
  have proper : ∀ field ∈ [CmdPacket.WriteOp.string [104,105],.byte 7,.binary [0,1],.long (-3)],field.proper := by
    simp [CmdPacket.WriteOp.proper]
  exact fields_roundtrip CmdPacket.new_sized proper (by decide) new new 9 [80] CmdPacket.new

end NetPacket
end PcNetwork
