import PcNetwork.Netlib.Arrivals

namespace PcNetwork.Netlib
namespace NetPacket

-- The read calls, and what a caller makes of their pointers: of a string the characters
-- before its zero, of data the bytes it is long. Behind the block other memory follows,
-- into which a string runs that has no zero in the block.
inductive ReadCall where
  | read8
  | read16
  | read32
  | readString
  | readData
  | readBinary
  deriving DecidableEq

inductive Value where
  | uint8 (b : UInt8)
  | uint16 (w : UInt16)
  | uint32 (dw : UInt32)
  | string (str : Option (List UInt8))
  | data (bytes : Option (List UInt8))
  | binary (len : UInt16) (bytes : Option (List UInt8))
  deriving DecidableEq

def charsAt (behind : List UInt8) (p : NetPacket) (str : Int) : List UInt8 := ((p.data ++ behind).drop str.toNat).takeWhile (· ≠ 0)
def bytesAt (p : NetPacket) (len : UInt16) (off : Int) : List UInt8 := Block.slice p.data off.toNat len.toNat

def read (behind : List UInt8) (p : NetPacket) : ReadCall → Value × NetPacket
  | .read8 => (.uint8 p.read8.1,p.read8.2)
  | .read16 => (.uint16 p.read16.1,p.read16.2)
  | .read32 => (.uint32 p.read32.1,p.read32.2)
  | .readString => (.string (p.readString.1.map (p.charsAt behind)),p.readString.2)
  | .readData => (.data (p.readData.1.map (p.bytesAt p.read16.1)),p.readData.2)
  | .readBinary => (.binary p.readBinary.1.1 (p.readBinary.1.2.map (p.bytesAt p.readBinary.1.1)),p.readBinary.2)

def readAll (behind : List UInt8) : List ReadCall → NetPacket → List Value × NetPacket
  | [],p => ([],p)
  | call :: rest,p =>
    let (value,p) := p.read behind call
    let (values,p) := readAll behind rest p
    (value :: values,p)

-- A string are the characters before its zero.
inductive Field where
  | uint8 (b : UInt8)
  | uint16 (w : UInt16)
  | uint32 (dw : UInt32)
  | string (str : List UInt8)
  | data (bytes : List UInt8)
  deriving DecidableEq

def write (p : NetPacket) : Field → NetPacket
  | .uint8 b => p.write8 b
  | .uint16 w => p.write16 w
  | .uint32 dw => p.write32 dw
  | .string str => p.writeString str
  | .data bytes => p.writeData bytes (UInt16.ofNat bytes.length)

namespace Field

def proper : Field → Prop
  | .string str => ∀ c ∈ str, c ≠ 0
  | .uint8 _ | .uint16 _ | .uint32 _ | .data _ => True

def size : Field → Nat
  | .uint8 _ => 1
  | .uint16 _ => 2
  | .uint32 _ => 4
  | .string str => 2+str.length+1
  | .data bytes => 2+bytes.length

-- A field as it lies in a packet.
def bytes : Field → List UInt8
  | .uint8 b => [b]
  | .uint16 w => htons w
  | .uint32 dw => htonl dw
  | .string str => htons (UInt16.ofNat (str.length+1)) ++ (str ++ [0])
  | .data bytes => htons (UInt16.ofNat bytes.length) ++ bytes

def call : Field → ReadCall
  | .uint8 _ => .read8
  | .uint16 _ => .read16
  | .uint32 _ => .read32
  | .string _ => .readString
  | .data _ => .readBinary

def value : Field → Value
  | .uint8 b => .uint8 b
  | .uint16 w => .uint16 w
  | .uint32 dw => .uint32 dw
  | .string str => .string (some str)
  | .data bytes => .binary (UInt16.ofNat bytes.length) (some bytes)

@[simp] theorem length_bytes (field : Field) : field.bytes.length = field.size := by
  cases field with
  | uint8 | uint16 | uint32 => rfl
  | string str => simp [bytes,size,htons]; omega
  | data bytes => simp [Field.bytes,size,htons]; omega

end Field

@[simp] theorem length_htons (w : UInt16) : (htons w).length = 2 := rfl
@[simp] theorem length_htonl (dw : UInt32) : (htonl dw).length = 4 := rfl

-- A packet that is being written, with the content so far.
structure Filled (p : NetPacket) (written : List UInt8) : Prop where
  placed : Placed p
  cursor : p.cursor = packetContentPos+written.length
  content : Block.slice p.data packetContentPos.toNat written.length = written

theorem begin_filled (placed : Placed p) : Filled p.begin [] :=
  ⟨begin_placed placed,(Int.add_zero _).symm,Block.slice_zero _ _⟩

theorem Filled.put {written bytes : List UInt8} {n : Nat} (filled : Filled p written) (count : bytes.length = n)
    (fits : p.cursor+n ≤ maxPacketSize) :
    Filled {p with data := Block.patch p.data p.cursor.toNat bytes,cursor := p.cursor+n} (written ++ bytes) := by
  obtain ⟨placed,cursor,content⟩ := filled
  have block := placed.block
  have limit : maxPacketSize = 2000 := rfl
  have eight : packetContentPos = 8 := rfl
  have place : p.cursor.toNat = packetContentPos.toNat+written.length := by omega
  refine ⟨(placed.put fits bytes).placed,?_,?_⟩
  · rw [List.length_append]
    dsimp only
    omega
  · dsimp only
    rw [place,List.length_append,Block.slice_patch_extend (by omega),content]

theorem write16_filled {written : List UInt8} (filled : Filled p written) (fits : p.cursor+2 ≤ maxPacketSize) (w : UInt16) :
    Filled (p.write16 w) (written ++ htons w) ∧ (p.write16 w).cursor = p.cursor+2 := by
  have max := filled.placed.max
  unfold write16
  rw [if_pos (by omega)]
  exact ⟨filled.put (length_htons w) fits,rfl⟩

-- writeString and writeData: a length, and as many bytes.
theorem writeLong_filled {written bytes : List UInt8} {len : UInt16} (filled : Filled p written) (count : bytes.length = len.toNat)
    (fits : p.cursor+2+bytes.length ≤ maxPacketSize) :
    Filled (if p.cursor ≤ p.maxDataSize-2-len.toNat then
        {p.write16 len with
          data := Block.patch (p.write16 len).data (p.write16 len).cursor.toNat bytes
          cursor := (p.write16 len).cursor+len.toNat}
      else p) (written ++ (htons len ++ bytes)) := by
  have max := filled.placed.max
  obtain ⟨first,moved⟩ := write16_filled filled (by omega) len
  rw [if_pos (by omega),← List.append_assoc]
  exact first.put count (by omega)

theorem write_filled {written : List UInt8} (field : Field) (filled : Filled p written) (fits : p.cursor+field.size ≤ maxPacketSize) :
    Filled (p.write field) (written ++ field.bytes) := by
  have max := filled.placed.max
  have low := filled.placed.low
  have limit : maxPacketSize = 2000 := rfl
  have eight : packetContentPos = 8 := rfl
  cases field with
  | uint8 b =>
    have room : p.cursor+(1 : Nat) ≤ maxPacketSize := fits
    unfold write write8
    dsimp only
    rw [if_pos (by omega)]
    exact filled.put (n := 1) rfl room
  | uint16 w => exact (write16_filled filled fits w).1
  | uint32 dw =>
    have room : p.cursor+(4 : Nat) ≤ maxPacketSize := fits
    unfold write write32
    dsimp only
    rw [if_pos (by omega)]
    exact filled.put (length_htonl dw) room
  | string str =>
    have room : p.cursor+(2+str.length+1 : Nat) ≤ maxPacketSize := fits
    have count : (str ++ [0]).length = (UInt16.ofNat (str.length+1)).toNat := by
      rw [UInt16.toNat_ofNat',Nat.mod_eq_of_lt (by omega),List.length_append,List.length_singleton]
    exact writeLong_filled filled count (by rw [List.length_append,List.length_singleton]; omega)
  | data bytes =>
    have room : p.cursor+(2+bytes.length : Nat) ≤ maxPacketSize := fits
    have count : bytes.length = (UInt16.ofNat bytes.length).toNat := by
      rw [UInt16.toNat_ofNat',Nat.mod_eq_of_lt (by omega)]
    have filled := writeLong_filled filled count (by omega)
    unfold write writeData
    dsimp only
    rw [List.take_of_length_le (Nat.le_of_eq count)]
    exact filled

theorem writeAll_filled {written : List UInt8} {fields : List Field} (filled : Filled p written)
    (fits : p.cursor+(fields.map Field.size).sum ≤ maxPacketSize) :
    Filled (fields.foldl write p) (written ++ fields.flatMap Field.bytes) := by
  induction fields generalizing p written with
  | nil => simpa using filled
  | cons field rest ih =>
    rw [List.map_cons,List.sum_cons] at fits
    have first := write_filled field filled (by omega)
    have before := filled.cursor
    have after := first.cursor
    rw [List.length_append,Field.length_bytes] at after
    rw [List.foldl_cons,List.flatMap_cons,← List.append_assoc]
    exact ih first (by omega)

-- What send_to transmits: a header and the content.
theorem sendTo_filled {written : List UInt8} (filled : Filled p written) :
    ∃ header, header.length = packetContentPos.toNat ∧ p.sendTo.1 = header ++ written := by
  obtain ⟨placed,cursor,content⟩ := filled
  obtain ⟨after,same,_⟩ := end_parts placed
  have block := placed.block
  have longer := after.block
  have limit : maxPacketSize = 2000 := rfl
  have eight : packetContentPos = 8 := rfl
  have high := placed.high
  have kept : Block.slice p.end_.data packetContentPos.toNat written.length = written := by
    unfold end_
    split
    · have two : (htons (UInt16.ofInt p.cursor)).length = 2 := rfl
      dsimp only
      rw [Block.slice_patch_behind (by omega) (by omega),content]
    · exact content
  refine ⟨Block.slice p.end_.data 0 packetContentPos.toNat,Block.length_slice (by omega),?_⟩
  have place : p.cursor.toNat = packetContentPos.toNat+written.length := by omega
  unfold sendTo
  dsimp only
  rw [same,place,Block.slice_add,Nat.zero_add,kept]

-- A packet that has got the bytes in any number of ::recv calls.
def receives (p : NetPacket) (chunks : List (List UInt8)) : NetPacket := chunks.foldl (fun p bytes => (p.recv (some bytes)).2) p

theorem recv_chunk (bytes : List UInt8) (ok : Ok p) (start : p.cursor = packetContentPos)
    (fits : p.content.length+bytes.length ≤ maxPacketSize.toNat) :
    Ok (p.recv (some bytes)).2 ∧ (p.recv (some bytes)).2.cursor = packetContentPos ∧
    (p.recv (some bytes)).2.content = p.content ++ bytes := by
  have length := ok.length_content
  have max := ok.max
  have limit : maxPacketSize = 2000 := rfl
  have all : p.arriving (some bytes) = bytes := List.take_of_length_le (by rw [Option.getD_some]; omega)
  obtain ⟨got,after,content⟩ : (p.recv (some bytes)).1 = (p.arriving (some bytes)).length ∧ Ok (p.recv (some bytes)).2 ∧
      (p.recv (some bytes)).2.content = p.content ++ p.arriving (some bytes) := recv_ok ok
  rw [all] at got content
  refine ⟨after,?_,content⟩
  by_cases positive : (p.recv (some bytes)).1 > 0
  · exact recv_start positive
  · unfold recv at positive ⊢
    dsimp only at positive ⊢
    rw [if_neg positive]
    exact start

theorem receives_content (chunks : List (List UInt8)) (ok : Ok p) (start : p.cursor = packetContentPos)
    (fits : p.content.length+chunks.flatten.length ≤ maxPacketSize.toNat) :
    Ok (p.receives chunks) ∧ (p.receives chunks).cursor = packetContentPos ∧
    (p.receives chunks).content = p.content ++ chunks.flatten := by
  induction chunks generalizing p with
  | nil => exact ⟨ok,start,by simp [receives]⟩
  | cons bytes rest ih =>
    rw [List.flatten_cons,List.length_append] at fits
    obtain ⟨after,same,content⟩ := recv_chunk bytes ok start (by omega)
    obtain ⟨last,place,whole⟩ := ih after same (by rw [content,List.length_append]; omega)
    exact ⟨last,place,by rw [List.flatten_cons,← List.append_assoc,← content]; exact whole⟩

-- A packet in the course of reading: what is in front of the cursor, and what is left.
structure Reads (p : NetPacket) (done left : List UInt8) : Prop where
  memory : ∃ tail, p.data = done ++ (left ++ tail)
  cursor : p.cursor = done.length
  datalen : p.datalen = (done.length+left.length : Nat)

theorem getD_behind (done rest : List UInt8) (i : Nat) : (done ++ rest).getD (done.length+i) 0 = rest.getD i 0 := by
  simp [List.getD_eq_getElem?_getD,List.getElem?_append_right]

theorem ntohs_here (done : List UInt8) (w : UInt16) (rest : List UInt8) : ntohs (done ++ (htons w ++ rest)) done.length = w.toNat := by
  have found : ntohs (Block.patch (done ++ (htons w ++ rest)) done.length (htons w)) done.length = w.toNat := ntohs_patch_at (by simp) w
  simpa [Block.patch,List.take_left',htons] using found

theorem ntohl_here (done : List UInt8) (dw : UInt32) (rest : List UInt8) : ntohl (done ++ (htonl dw ++ rest)) done.length = dw.toNat := by
  have found : ntohl (Block.patch (done ++ (htonl dw ++ rest)) done.length (htonl dw)) done.length = dw.toNat := ntohl_patch_at (by simp) dw
  simpa [Block.patch,List.take_left',htonl] using found

theorem Reads.took {bytes left : List UInt8} {n : Int} (reads : Reads p done (bytes ++ left)) (count : (bytes.length : Int) = n) :
    p.cursor ≤ p.datalen-n ∧ Reads {p with cursor := p.cursor+n} (done ++ bytes) left := by
  obtain ⟨⟨tail,memory⟩,cursor,datalen⟩ := reads
  rw [List.length_append] at datalen
  refine ⟨by omega,⟨tail,?_⟩,?_,?_⟩
  · rw [memory,List.append_assoc,List.append_assoc]
  · rw [List.length_append]
    dsimp only
    omega
  · rw [List.length_append]
    dsimp only
    omega

theorem Reads.read16 {w : UInt16} (reads : Reads p done (htons w ++ left)) :
    p.read16 = (w,{p with cursor := p.cursor+2}) ∧ Reads {p with cursor := p.cursor+2} (done ++ htons w) left := by
  obtain ⟨fits,after⟩ := reads.took (n := 2) rfl
  obtain ⟨tail,memory⟩ := reads.memory
  have place : p.cursor.toNat = done.length := by
    rw [reads.cursor]
    rfl
  refine ⟨?_,after⟩
  unfold NetPacket.read16
  rw [if_pos fits,place,memory,List.append_assoc,ntohs_here,UInt16.ofNat_toNat]

-- A length, and as many bytes.
theorem Reads.long {bytes left : List UInt8} {len : UInt16} (reads : Reads p done (htons len ++ (bytes ++ left)))
    (count : bytes.length = len.toNat) :
    p.read16 = (len,{p with cursor := p.cursor+2}) ∧ p.cursor+2 ≤ p.datalen-len.toNat ∧ p.bytesAt len (p.cursor+2) = bytes ∧
    Reads {p with cursor := p.cursor+2+len.toNat} (done ++ (htons len ++ bytes)) left := by
  obtain ⟨read,after⟩ := reads.read16
  obtain ⟨tail,memory⟩ := after.memory
  obtain ⟨fits,last⟩ := after.took (congrArg Int.ofNat count)
  have place : (p.cursor+2).toNat = (done ++ htons len).length := by
    have cursor : p.cursor+2 = (done ++ htons len).length := after.cursor
    rw [cursor]
    rfl
  have memory : p.data = (done ++ htons len) ++ (bytes ++ (left ++ tail)) := by rw [← List.append_assoc bytes]; exact memory
  refine ⟨read,fits,?_,?_⟩
  · rw [bytesAt,place,memory,← count]
    exact Block.slice_middle _ _ _
  · rw [← List.append_assoc]
    exact last

theorem Reads.field {field : Field} (proper : field.proper) (small : field.size < 2^16) (reads : Reads p done (field.bytes ++ left))
    (behind : List UInt8) : ∃ q, p.read behind field.call = (field.value,q) ∧ Reads q (done ++ field.bytes) left := by
  have place : p.cursor.toNat = done.length := by
    rw [reads.cursor]
    rfl
  cases field with
  | uint8 b =>
    obtain ⟨fits,after⟩ := reads.took (n := 1) rfl
    obtain ⟨tail,memory⟩ := reads.memory
    have found : p.data.getD p.cursor.toNat 0 = b := by
      rw [memory,place]
      exact getD_behind done _ 0
    have read : p.read8 = (b,{p with cursor := p.cursor+1}) := by rw [read8,if_pos fits,found]
    exact ⟨_,congrArg (fun r => (Value.uint8 r.1,r.2)) read,after⟩
  | uint16 w =>
    obtain ⟨read,after⟩ := reads.read16
    exact ⟨_,congrArg (fun r => (Value.uint16 r.1,r.2)) read,after⟩
  | uint32 dw =>
    obtain ⟨fits,after⟩ := reads.took (n := 4) rfl
    obtain ⟨tail,memory⟩ := reads.memory
    have found : UInt32.ofNat (ntohl p.data p.cursor.toNat) = dw := by
      rw [memory,place,Field.bytes,List.append_assoc,ntohl_here,UInt32.ofNat_toNat]
    have read : p.read32 = (dw,{p with cursor := p.cursor+4}) := by rw [read32,if_pos fits,found]
    exact ⟨_,congrArg (fun r => (Value.uint32 r.1,r.2)) read,after⟩
  | data bytes =>
    have small : 2+bytes.length < 2^16 := small
    have count : bytes.length = (UInt16.ofNat bytes.length).toNat := by rw [UInt16.toNat_ofNat',Nat.mod_eq_of_lt (by omega)]
    have reading : Reads p done (htons (UInt16.ofNat bytes.length) ++ (bytes ++ left)) := by
      simpa [Field.bytes] using reads
    obtain ⟨length,fits,found,after⟩ := reading.long count
    have read : p.readBinary = ((UInt16.ofNat bytes.length,some (p.cursor+2)),
        {p with cursor := p.cursor+2+(UInt16.ofNat bytes.length).toNat}) := by
      rw [readBinary,length]
      exact if_pos fits
    have value := congrArg (fun r => (Value.binary r.1.1 (r.1.2.map (p.bytesAt r.1.1)),r.2)) read
    refine ⟨_,value.trans ?_,after⟩
    exact congrArg (fun bytes => (Value.binary _ (some bytes),_)) found
  | string str =>
    have letters : ∀ c ∈ str, c ≠ 0 := proper
    have cursor := reads.cursor
    have small : 2+str.length+1 < 2^16 := small
    have count : (str ++ [0]).length = (UInt16.ofNat (str.length+1)).toNat := by
      rw [UInt16.toNat_ofNat',Nat.mod_eq_of_lt (by omega),List.length_append,List.length_singleton]
    have reading : Reads p done (htons (UInt16.ofNat (str.length+1)) ++ ((str ++ [0]) ++ left)) := by
      simpa [Field.bytes] using reads
    obtain ⟨length,fits,found,after⟩ := reading.long count
    obtain ⟨start,memory⟩ : ∃ tail, p.data = (done ++ htons (UInt16.ofNat (str.length+1))) ++ (str ++ (0 :: tail)) := by
      obtain ⟨tail,memory⟩ := reading.memory
      exact ⟨left ++ tail,by rw [memory]; simp⟩
    have first : (p.cursor+2).toNat = (done ++ htons (UInt16.ofNat (str.length+1))).length := by
      rw [List.length_append,length_htons]
      omega
    have chars : p.charsAt behind (p.cursor+2) = str := by
      rw [charsAt,first,memory,List.append_assoc,List.drop_left' rfl,List.append_assoc,List.takeWhile_append_of_pos (by simpa using letters)]
      simp
    have ended : p.data.getD (p.cursor+2+(UInt16.ofNat (str.length+1)).toNat-1).toNat 0 = 0 := by
      have last : (p.cursor+2+(UInt16.ofNat (str.length+1)).toNat-1).toNat = (done ++ htons (UInt16.ofNat (str.length+1)) ++ str).length := by
        rw [← count,List.length_append,List.length_singleton,List.length_append,← first]
        omega
      rw [last,memory,← List.append_assoc]
      exact getD_behind _ _ 0
    have read : p.readString = (some (p.cursor+2),{p with cursor := p.cursor+2+(UInt16.ofNat (str.length+1)).toNat}) := by
      rw [readString,length]
      exact if_pos ⟨fits,ended⟩
    have value := congrArg (fun r => (Value.string (r.1.map (p.charsAt behind)),r.2)) read
    refine ⟨_,value.trans ?_,after⟩
    exact congrArg (fun str => (Value.string (some str),_)) chars

theorem Reads.all {fields : List Field} (proper : ∀ field ∈ fields, field.proper) (small : (fields.map Field.size).sum < 2^16)
    (reads : Reads p done (fields.flatMap Field.bytes)) (behind : List UInt8) :
    ∃ q, readAll behind (fields.map Field.call) p = (fields.map Field.value,q) ∧ Reads q (done ++ fields.flatMap Field.bytes) [] := by
  induction fields generalizing p done with
  | nil => exact ⟨p,rfl,by simpa using reads⟩
  | cons field rest ih =>
    simp only [List.map_cons,List.sum_cons,List.flatMap_cons] at small reads ⊢
    obtain ⟨q,value,after⟩ := reads.field (proper field List.mem_cons_self) (by omega) behind
    obtain ⟨r,values,last⟩ := ih (fun other member => proper other (List.mem_cons_of_mem _ member)) (by omega) after
    refine ⟨r,?_,by rw [← List.append_assoc]; exact last⟩
    simp only [readAll,value,values]

theorem receives_reads {header written : List UInt8} {chunks : List (List UInt8)} (front : header.length = packetContentPos.toNat)
    (arrives : chunks.flatten = header ++ written) (fits : (header ++ written).length ≤ maxPacketSize.toNat) :
    Reads (new.receives chunks) header written := by
  have empty : new.content = [] := Block.slice_zero _ _
  have eight : packetContentPos = 8 := rfl
  obtain ⟨ok,cursor,content⟩ := receives_content chunks new_ok rfl (by rw [empty,arrives,List.length_nil,Nat.zero_add]; exact fits)
  have length := ok.length_content
  rw [empty,List.nil_append,arrives] at content
  rw [content,List.length_append] at length
  refine ⟨⟨(new.receives chunks).data.drop (new.receives chunks).datalen.toNat,?_⟩,by omega,length.symm⟩
  rw [← List.append_assoc,← content]
  exact (List.take_append_drop _ _).symm

-- Whatever was done to a packet before begin(), and however ::recv cuts the bytes.
theorem fields_received {p : NetPacket} {fields : List Field} {chunks : List (List UInt8)} {behind : List UInt8} (handed : Handed p)
    (ops : List PacketOp) (proper : ∀ field ∈ fields, field.proper) (fits : packetContentPos+(fields.map Field.size).sum ≤ maxPacketSize)
    (arrives : chunks.flatten = (fields.foldl write (ops.foldl apply p).begin).sendTo.1) :
    let (values,read) := readAll behind (fields.map Field.call) (new.receives chunks)
    values = fields.map Field.value ∧ read.cursor = read.datalen := by
  have limit : maxPacketSize = 2000 := rfl
  have eight : packetContentPos = 8 := rfl
  have filled := writeAll_filled (begin_filled (foldl_parts handed.placed ops).1) fits
  have high := filled.placed.high
  have cursor := filled.cursor
  obtain ⟨header,front,sent⟩ := sendTo_filled filled
  rw [List.nil_append] at sent cursor
  rw [sent] at arrives
  obtain ⟨q,values,last⟩ := (receives_reads front arrives (by rw [List.length_append]; omega)).all proper (by omega) behind
  rw [values]
  refine ⟨rfl,?_⟩
  rw [last.cursor,last.datalen,List.length_nil,Nat.add_zero]

theorem fields_received_mixed :
    let fields : List Field := [.string [104,105],.uint8 7,.data [],.uint32 5,.data [0,1],.uint16 9]
    let sent := (fields.foldl write (([PacketOp.setCmd 9].foldl apply new).begin)).sendTo.1
    let (values,read) := readAll [] (fields.map Field.call) (new.receives [sent.take 3,sent.drop 3])
    values = fields.map Field.value ∧ read.cursor = read.datalen := by
  have proper : ∀ field ∈ [Field.string [104,105],.uint8 7,.data [],.uint32 5,.data [0,1],.uint16 9],field.proper := by
    simp [Field.proper]
  exact fields_received .fresh [.setCmd 9] proper (by decide) (by simp)

end NetPacket
end PcNetwork.Netlib
