import PcNetwork.Netlib.ClingLoop
import PcNetwork.Netlib.Fields

namespace PcNetwork.Netlib
namespace NetPacket

-- A packet that the loop of ProcessServer hands out: the one that has just received, or
-- one that was split off.
def Delivered (p : NetPacket) : Prop :=
  ∃ packet bytes, Ok packet ∧ (packet.recv (some bytes)).1 > 0 ∧ TcpSocket.Held (packet.recv (some bytes)).2 p ∧ p.isCling = true

theorem held_start (held : TcpSocket.Held packet p) (ok : Ok packet) (start : packet.cursor = packetContentPos) :
    Ok p ∧ p.cursor = packetContentPos := by
  induction held with
  | first => exact ⟨ok,start⟩
  | next _ _ next ih => exact getClingPacket_start ih.1 next

theorem isCling_iff (ok : Ok p) : p.isCling = true ↔ packetHeaderSize ≤ p.datalen ∧ (p.getLen : Int) ≤ p.datalen := by
  have nonneg := ok.nonneg
  have fits := ok.fits
  have limit : maxPacketSize = 2000 := rfl
  have same : unsigned p.datalen = p.datalen := by unfold unsigned; omega
  simp [isCling,same]

-- The block behind what was received may hold anything.
theorem delivered_parts (p : NetPacket) : Delivered p ↔ Ok p ∧ p.cursor = packetContentPos ∧ p.isCling = true := by
  constructor
  · rintro ⟨packet,bytes,ok,some,held,cling⟩
    obtain ⟨fine,start⟩ := held_start held (recv_ok ok).2.1 (recv_start some)
    exact ⟨fine,start,cling⟩
  · rintro ⟨ok,start,cling⟩
    have length := ok.length_content
    obtain ⟨nonneg,max,fits,block⟩ := id ok
    have header := ((isCling_iff ok).mp cling).1
    have six : packetHeaderSize = 6 := rfl
    have empty : Ok {p with datalen := 0} := ⟨Int.le_refl 0,max,Int.le_trans nonneg fits,block⟩
    have all : arriving {p with datalen := 0} (some p.content) = p.content :=
      List.take_of_length_le (by rw [Option.getD_some]; dsimp only; omega)
    have kept : Block.patch p.data 0 p.content = p.data := by
      rw [Block.patch,List.take_zero,List.nil_append,Nat.zero_add]
      have front : p.content.length = p.datalen.toNat := by omega
      rw [front]
      exact List.take_append_drop _ _
    have got : recv {p with datalen := 0} (some p.content) = (p.datalen,p) := by
      unfold recv
      dsimp only
      rw [all,if_neg (Option.some_ne_none _),length,if_pos (by omega)]
      simp only [begin,← start,Int.zero_add]
      exact congrArg (fun data => (p.datalen,{p with data})) kept
    refine ⟨_,p.content,empty,?_,?_,cling⟩
    · rw [got]
      show p.datalen > 0
      omega
    · rw [got]
      exact .first

-- Two packets with the same frame in front, read up to the same place.
structure Framed (p : NetPacket) : Prop where
  ok : Ok p
  header : packetHeaderSize ≤ p.datalen
  whole : (p.getLen : Int) ≤ p.datalen
  low : packetContentPos ≤ p.cursor
  place : p.cursor = packetContentPos ∨ p.cursor ≤ p.getLen

structure Twin (p q : NetPacket) : Prop where
  first : Framed p
  second : Framed q
  getLen : q.getLen = p.getLen
  frame : q.frame = p.frame
  cursor : q.cursor = p.cursor

theorem Twin.slice (twin : Twin p q) (start n : Nat) (within : start+n ≤ p.getLen) :
    Block.slice q.data start n = Block.slice p.data start n := by
  have cut : ∀ r : NetPacket, start+n ≤ r.getLen → Block.slice r.data start n = (r.frame.drop start).take n := by
    intro r within
    rw [NetPacket.frame,Block.drop_slice,Block.take_slice _ _ _ _ (by omega),Nat.zero_add]
  rw [cut p within,cut q (by rw [twin.getLen]; exact within),twin.frame]

theorem Twin.byte (twin : Twin p q) {i : Nat} (within : i < p.getLen) : q.data.getD i 0 = p.data.getD i 0 := by
  have same := congrArg (fun bytes => bytes.getD 0 0) (twin.slice i 1 within)
  rw [Block.getD_slice Nat.zero_lt_one,Block.getD_slice Nat.zero_lt_one,Nat.add_zero] at same
  exact same

theorem Twin.ntohs (twin : Twin p q) {i : Nat} (within : i+2 ≤ p.getLen) : NetPacket.ntohs q.data i = NetPacket.ntohs p.data i := by
  unfold NetPacket.ntohs
  rw [twin.byte (by omega),twin.byte (by omega)]

theorem Twin.ntohl (twin : Twin p q) {i : Nat} (within : i+4 ≤ p.getLen) : NetPacket.ntohl q.data i = NetPacket.ntohl p.data i := by
  unfold NetPacket.ntohl
  rw [twin.ntohs (by omega),twin.ntohs (by omega)]

-- What all read calls do: they take n bytes if these are there, and, of a string, if the
-- last one is zero.
def taking (n : Int) (f : List UInt8 → Nat → Option α) (p : NetPacket) : Option α × NetPacket :=
  if p.cursor ≤ p.datalen-n then
    match f p.data p.cursor.toNat with
    | some a => (some a,{p with cursor := p.cursor+n})
    | none => (none,p)
  else (none,p)

theorem taking_out {n : Int} {f : List UInt8 → Nat → Option α} {p : NetPacket} (out : p.datalen < p.cursor+n) : taking n f p = (none,p) :=
  if_neg (by omega)

theorem taking_none {n : Int} {f : List UInt8 → Nat → Option α} {p : NetPacket} (refused : f p.data p.cursor.toNat = none) :
    taking n f p = (none,p) := by
  unfold taking
  rw [refused]
  split <;> rfl

theorem taking_some {n : Int} {f : List UInt8 → Nat → Option α} {p : NetPacket} (there : p.cursor+n ≤ p.datalen)
    (given : f p.data p.cursor.toNat = some a) : taking n f p = (some a,{p with cursor := p.cursor+n}) := by
  unfold taking
  rw [if_pos (by omega),given]

-- The bytes that a call takes are own ones, or more than a block holds.
def Settled (p : NetPacket) (n : Int) : Prop := p.cursor+n ≤ p.getLen ∨ maxPacketSize < p.cursor+n

theorem Framed.took {n : Int} (framed : Framed p) (nonneg : 0 ≤ n) (own : p.cursor+n ≤ p.getLen) : Framed {p with cursor := p.cursor+n} := by
  obtain ⟨⟨low,max,fits,block⟩,header,whole,start,_⟩ := framed
  exact ⟨⟨low,max,fits,block⟩,header,whole,Int.le_trans start (Int.le_add_of_nonneg_right nonneg),.inr own⟩

theorem taking_twin {n : Int} {f g : List UInt8 → Nat → Option α} (twin : Twin p q) (nonneg : 0 ≤ n) (settled : Settled p n)
    (same : p.cursor+n ≤ p.getLen → g q.data p.cursor.toNat = f p.data p.cursor.toNat) :
    (taking n g q).1 = (taking n f p).1 ∧ Twin (taking n f p).2 (taking n g q).2 := by
  obtain ⟨first,second,getLen,frame,cursor⟩ := id twin
  have fits := first.ok.fits
  have others := second.ok.fits
  have whole := first.whole
  have other := second.whole
  rcases settled with own | beyond
  · have same := same own
    cases found : f p.data p.cursor.toNat with
    | none =>
      rw [found,← cursor] at same
      rw [taking_none found,taking_none same]
      exact ⟨rfl,twin⟩
    | some a =>
      rw [found,← cursor] at same
      rw [taking_some (by omega) found,taking_some (by omega) same]
      refine ⟨rfl,first.took nonneg own,second.took nonneg (by rw [cursor,getLen]; exact own),getLen,frame,?_⟩
      exact congrArg (· + n) cursor
  · rw [taking_out (by omega),taking_out (by omega)]
    exact ⟨rfl,twin⟩

-- The calls in this form. A long one takes a length first. Two packets may have other
-- memory behind their blocks as well.
section Calls
variable {behind heap : List UInt8}

def stringOf (behind : List UInt8) (len : UInt16) (data : List UInt8) (off : Nat) : Option (List UInt8) :=
  if data.getD (off+len.toNat-1) 0 = 0 then some (((data ++ behind).drop off).takeWhile (· ≠ 0)) else none
def blockOf (len : UInt16) (data : List UInt8) (off : Nat) : Option (List UInt8) := some (Block.slice data off len.toNat)

theorem stringOf_zero (behind : List UInt8) {len : UInt16} {data : List UInt8} {off : Nat} (zero : data.getD (off+len.toNat-1) 0 = 0) :
    stringOf behind len data off = some (((data ++ behind).drop off).takeWhile (· ≠ 0)) := if_pos zero

theorem stringOf_other (behind : List UInt8) {len : UInt16} {data : List UInt8} {off : Nat} (other : data.getD (off+len.toNat-1) 0 ≠ 0) :
    stringOf behind len data off = none := if_neg other

-- Of a string of length 0 the byte in front of it is asked.
theorem stringOf_empty (behind : List UInt8) {data : List UInt8} {off : Nat} (zero : data.getD (off-1) 0 = 0) :
    stringOf behind 0 data off = some (((data ++ behind).drop off).takeWhile (· ≠ 0)) := stringOf_zero behind zero

theorem stringOf_missing {data : List UInt8} {off : Nat} (other : data.getD (off-1) 0 ≠ 0) : stringOf behind 0 data off = none :=
  stringOf_other behind other

theorem read8_taking (p : NetPacket) :
    p.read8 = ((taking 1 (fun data off => some (data.getD off 0)) p).1.getD 0,(taking 1 (fun data off => some (data.getD off 0)) p).2) := by
  unfold read8 taking
  split <;> rfl

theorem read16_taking (p : NetPacket) : p.read16 = ((taking 2 (fun data off => some (UInt16.ofNat (ntohs data off))) p).1.getD 0,
    (taking 2 (fun data off => some (UInt16.ofNat (ntohs data off))) p).2) := by
  unfold read16 taking
  split <;> rfl

theorem read32_taking (p : NetPacket) : p.read32 = ((taking 4 (fun data off => some (UInt32.ofNat (ntohl data off))) p).1.getD 0,
    (taking 4 (fun data off => some (UInt32.ofNat (ntohl data off))) p).2) := by
  unfold read32 taking
  split <;> rfl

theorem read16_data (p : NetPacket) : p.read16.2.data = p.data := by
  unfold read16
  split <;> rfl

theorem readData_taking (p : NetPacket) :
    p.read behind .readData = (fun r => (Value.data r.1,r.2)) (taking p.read16.1.toNat (blockOf p.read16.1) p.read16.2) := by
  simp only [read,readData,taking,blockOf]
  split
  · simp [bytesAt,read16_data]
  · rfl

theorem readBinary_taking (p : NetPacket) :
    p.read behind .readBinary = (fun r => (Value.binary p.read16.1 r.1,r.2)) (taking p.read16.1.toNat (blockOf p.read16.1) p.read16.2) := by
  simp only [read,readBinary,taking,blockOf]
  split
  · simp [bytesAt,read16_data]
  · rfl

theorem readString_taking (p : NetPacket) (low : packetContentPos ≤ p.read16.2.cursor) :
    p.read behind .readString = (fun r => (Value.string r.1,r.2)) (taking p.read16.1.toNat (stringOf behind p.read16.1) p.read16.2) := by
  have eight : packetContentPos = 8 := rfl
  have place : (p.read16.2.cursor+p.read16.1.toNat-1).toNat = p.read16.2.cursor.toNat+p.read16.1.toNat-1 := by omega
  simp only [read,readString,taking,stringOf,place]
  by_cases fits : p.read16.2.cursor ≤ p.read16.2.datalen-p.read16.1.toNat
  · by_cases zero : p.read16.2.data.getD (p.read16.2.cursor.toNat+p.read16.1.toNat-1) 0 = 0
    · rw [if_pos ⟨fits,zero⟩,if_pos fits,if_pos zero]
      simp [charsAt,read16_data]
    · rw [if_neg fun both => zero both.2,if_pos fits,if_neg zero]
      rfl
  · rw [if_neg fun both => fits both.1,if_neg fits]
    rfl

-- A string of length 0 goes on to the next zero, which has to be an own byte.
def Ended (p : NetPacket) (len : UInt16) : Prop :=
  len = 0 → p.data.getD (p.cursor.toNat-1) 0 = 0 →
    0 ∈ Block.slice p.data p.cursor.toNat (p.getLen-p.cursor.toNat)

def OwnCall (p : NetPacket) : ReadCall → Prop
  | .read8 => Settled p 1
  | .read16 => Settled p 2
  | .read32 => Settled p 4
  | .readData | .readBinary => Settled p 2 ∧ Settled p.read16.2 p.read16.1.toNat
  | .readString => Settled p 2 ∧ Settled p.read16.2 p.read16.1.toNat ∧ Ended p.read16.2 p.read16.1

theorem zero_member {data : List UInt8} {off n i : Nat} (within : off+n ≤ data.length) (inside : i < n)
    (zero : data.getD (off+i) 0 = 0) : 0 ∈ Block.slice data off n := by
  have found : (Block.slice data off n).getD i 0 = 0 := by rw [Block.getD_slice inside,zero]
  rw [List.getD_eq_getElem?_getD,List.getElem?_eq_getElem (by rw [Block.length_slice within]; exact inside),Option.getD_some] at found
  rw [← found]
  exact List.getElem_mem _

-- What lies behind the first zero is not seen, in the block or out of it.
theorem zero_within {data : List UInt8} {off n : Nat} (behind : List UInt8) (zero : 0 ∈ Block.slice data off n) :
    (Block.slice data off n).takeWhile (· ≠ 0) = ((data ++ behind).drop off).takeWhile (· ≠ 0) := by
  obtain ⟨i,inside,found⟩ := List.getElem_of_mem zero
  have short : i < n := Nat.lt_of_lt_of_le inside (Block.length_slice_le _ _ _)
  have there : (data.drop off)[i]? = some 0 := by
    rw [← List.getElem?_take_of_lt short]
    exact List.getElem?_eq_some_iff.mpr ⟨inside,found⟩
  have within : i < (data.drop off).length := (List.getElem?_eq_some_iff.mp there).1
  have further : (data.drop off ++ behind.drop (off-data.length))[i]? = some 0 := by
    rw [List.getElem?_append_left within]
    exact there
  have whole := Block.takeWhile_take (q := (· ≠ 0)) further (by simp) within
  rw [List.take_left] at whole
  rw [List.drop_append,← whole]
  exact Block.takeWhile_take there (by simp) short

theorem stringOf_twin {len : UInt16} (twin : Twin p q) (own : p.cursor+len.toNat ≤ p.getLen) (ended : Ended p len) :
    stringOf heap len q.data p.cursor.toNat = stringOf behind len p.data p.cursor.toNat := by
  obtain ⟨low,fits,block⟩ := And.intro twin.first.low (And.intro twin.first.ok.fits twin.first.ok.block)
  have whole := twin.first.whole
  have others := twin.second.ok.block
  have limit : maxPacketSize = 2000 := rfl
  have eight : packetContentPos = 8 := rfl
  have same := twin.byte (i := p.cursor.toNat+len.toNat-1) (by omega)
  by_cases zero : p.data.getD (p.cursor.toNat+len.toNat-1) 0 = 0
  · rw [stringOf_zero _ zero,stringOf_zero _ (same.trans zero)]
    have member : 0 ∈ Block.slice p.data p.cursor.toNat (p.getLen-p.cursor.toNat) := by
      by_cases none : len = 0
      · subst none
        exact ended rfl zero
      · have some : 0 < len.toNat := by
          apply Nat.pos_of_ne_zero
          intro same
          exact none (UInt16.toNat_inj.mp same)
        refine zero_member (by omega) (by omega : len.toNat-1 < _) ?_
        rw [← zero]
        congr 1
        omega
    have same := twin.slice p.cursor.toNat (p.getLen-p.cursor.toNat) (by omega)
    rw [← zero_within behind member,← same,zero_within heap (by rw [same]; exact member)]
  · rw [stringOf_other _ zero,stringOf_other _ (by rw [same]; exact zero)]

theorem read16_twin (twin : Twin p q) (own : Settled p 2) : q.read16.1 = p.read16.1 ∧ Twin p.read16.2 q.read16.2 := by
  have low := twin.first.low
  have eight : packetContentPos = 8 := rfl
  obtain ⟨same,after⟩ := taking_twin (f := fun data off => some (UInt16.ofNat (ntohs data off)))
    (g := fun data off => some (UInt16.ofNat (ntohs data off))) twin (by decide) own
    fun within => congrArg (fun n => some (UInt16.ofNat n)) (twin.ntohs (by omega))
  rw [read16_taking,read16_taking,same]
  exact ⟨rfl,after⟩

theorem read_after (behind : List UInt8) (p : NetPacket) (call : ReadCall) : (p.read behind call).2 = (p.read [] call).2 := by
  cases call <;> rfl

-- A call moves the cursor and nothing else.
theorem read_cursor (behind : List UInt8) (p : NetPacket) (call : ReadCall) :
    (p.read behind call).2 = {p with cursor := (p.read behind call).2.cursor} := by
  suffices moved : ∃ cursor, (p.read behind call).2 = {p with cursor} by
    obtain ⟨cursor,moved⟩ := moved
    rw [moved]
  obtain ⟨cursor,length⟩ : ∃ cursor, p.read16.2 = {p with cursor} := by
    unfold read16
    split <;> exact ⟨_,rfl⟩
  cases call with
  | read8 =>
    simp only [read,read8]
    split <;> exact ⟨_,rfl⟩
  | read16 => exact ⟨_,length⟩
  | read32 =>
    simp only [read,read32]
    split <;> exact ⟨_,rfl⟩
  | readString =>
    simp only [read,readString,length]
    split <;> exact ⟨_,rfl⟩
  | readData =>
    simp only [read,readData,length]
    split <;> exact ⟨_,rfl⟩
  | readBinary =>
    simp only [read,readBinary,length]
    split <;> exact ⟨_,rfl⟩

-- A long call, behind its length.
theorem block_twin (twin : Twin p q) (own : Settled p 2) (settled : Settled p.read16.2 p.read16.1.toNat) :
    (taking q.read16.1.toNat (blockOf q.read16.1) q.read16.2).1 = (taking p.read16.1.toNat (blockOf p.read16.1) p.read16.2).1 ∧
    Twin (taking p.read16.1.toNat (blockOf p.read16.1) p.read16.2).2 (taking q.read16.1.toNat (blockOf q.read16.1) q.read16.2).2 := by
  obtain ⟨length,after⟩ := read16_twin twin own
  have low := after.first.low
  have eight : packetContentPos = 8 := rfl
  rw [length]
  exact taking_twin after (Int.natCast_nonneg _) settled fun within => congrArg some (after.slice _ _ (by omega))

theorem call_twin (behind heap : List UInt8) {call : ReadCall} (twin : Twin p q) (own : OwnCall p call) :
    (q.read heap call).1 = (p.read behind call).1 ∧ Twin (p.read behind call).2 (q.read heap call).2 := by
  have low := twin.first.low
  have eight : packetContentPos = 8 := rfl
  cases call with
  | read8 =>
    obtain ⟨same,after⟩ := taking_twin (f := fun data off => some (data.getD off 0)) (g := fun data off => some (data.getD off 0)) twin (by decide) own
      fun within => congrArg some (twin.byte (by omega))
    simp only [read,read8_taking]
    exact ⟨congrArg (fun b => Value.uint8 (b.getD 0)) same,after⟩
  | read16 =>
    obtain ⟨same,after⟩ := read16_twin twin own
    exact ⟨congrArg Value.uint16 same,after⟩
  | read32 =>
    obtain ⟨same,after⟩ := taking_twin (f := fun data off => some (UInt32.ofNat (ntohl data off)))
      (g := fun data off => some (UInt32.ofNat (ntohl data off))) twin (by decide) own
      fun within => congrArg (fun n => some (UInt32.ofNat n)) (twin.ntohl (by omega))
    simp only [read,read32_taking]
    exact ⟨congrArg (fun dw => Value.uint32 (dw.getD 0)) same,after⟩
  | readData =>
    obtain ⟨same,after⟩ := block_twin twin own.1 own.2
    rw [readData_taking,readData_taking]
    exact ⟨congrArg Value.data same,after⟩
  | readBinary =>
    obtain ⟨same,after⟩ := block_twin twin own.1 own.2
    obtain ⟨length,_⟩ := read16_twin twin own.1
    rw [readBinary_taking,readBinary_taking]
    exact ⟨congrArg₂ Value.binary length same,after⟩
  | readString =>
    obtain ⟨first,settled,ended⟩ := own
    obtain ⟨length,after⟩ := read16_twin twin first
    obtain ⟨same,last⟩ := taking_twin (f := stringOf behind p.read16.1) (g := stringOf heap p.read16.1) after (Int.natCast_nonneg _) settled
      fun within => stringOf_twin after within ended
    rw [readString_taking p after.first.low,readString_taking q after.second.low,length]
    exact ⟨congrArg Value.string same,last⟩

-- A string whose length begins with the last own byte, and by that byte is already too long
-- for a block. It is refused with and without the next byte; the cursor is one place behind
-- the frame then, or still on its last byte.
structure TornAt (p : NetPacket) : Prop where
  room : p.cursor+2 ≤ maxPacketSize
  last : p.cursor+1 = p.getLen
  long : maxPacketSize < p.cursor+2+256*(p.data.getD p.cursor.toNat 0).toNat
  before : p.data.getD (p.cursor.toNat-1) 0 ≠ 0

-- The calls that get nothing at both places.
def Harmless (len : Nat) : ReadCall → Prop
  | .read16 | .readData | .readBinary => maxPacketSize < len+3
  | .read32 => maxPacketSize < len+5
  | .read8 | .readString => False

def OwnBytes : NetPacket → List ReadCall → Prop
  | _,[] => True
  | p,call :: rest =>
    (OwnCall p call ∧ OwnBytes (p.read [] call).2 rest) ∨ (call = .readString ∧ TornAt p ∧ ∀ call ∈ rest, Harmless p.getLen call)

structure Adrift (len : Nat) (p : NetPacket) : Prop where
  fits : p.datalen ≤ maxPacketSize
  place : (p.cursor+1 = len ∧ p.datalen = len) ∨ (p.cursor = len+1 ∧ len+1 ≤ p.datalen)

def nothing : ReadCall → Value
  | .read8 => .uint8 0
  | .read16 => .uint16 0
  | .read32 => .uint32 0
  | .readString => .string none
  | .readData => .data (some [])
  | .readBinary => .binary 0 (some [])

theorem read16_short {p : NetPacket} (short : p.datalen < p.cursor+2) : p.read16 = (0,p) := if_neg (by omega)

theorem block_nothing {p : NetPacket} (there : p.cursor ≤ p.datalen) : taking (0 : UInt16).toNat (blockOf 0) p = (some [],p) := by
  rw [taking_some (by show p.cursor+0 ≤ _; omega) (congrArg some (Block.slice_zero _ _))]
  show (_,{p with cursor := p.cursor+0}) = _
  rw [Int.add_zero]

theorem read_harmless {call : ReadCall} {len : Nat} {p : NetPacket} (adrift : Adrift len p) (harmless : Harmless len call) :
    p.read behind call = (nothing call,p) := by
  obtain ⟨fits,place⟩ := adrift
  have limit : maxPacketSize = 2000 := rfl
  have there : p.cursor ≤ p.datalen := by omega
  cases call with
  | read8 | readString => cases harmless
  | read16 =>
    have most : maxPacketSize < len+3 := harmless
    exact congrArg (fun r => (Value.uint16 r.1,r.2)) (read16_short (p := p) (by omega))
  | read32 =>
    have most : maxPacketSize < len+5 := harmless
    have short : p.read32 = (0,p) := if_neg (by omega)
    exact congrArg (fun r => (Value.uint32 r.1,r.2)) short
  | readData =>
    have most : maxPacketSize < len+3 := harmless
    rw [readData_taking,read16_short (by omega),block_nothing there]
    rfl
  | readBinary =>
    have most : maxPacketSize < len+3 := harmless
    rw [readBinary_taking,read16_short (by omega),block_nothing there]
    rfl

theorem readAll_harmless {calls : List ReadCall} {len : Nat} {p : NetPacket} (adrift : Adrift len p) (harmless : ∀ call ∈ calls, Harmless len call) :
    readAll behind calls p = (calls.map nothing,p) := by
  induction calls with
  | nil => rfl
  | cons call rest ih =>
    unfold readAll
    rw [read_harmless adrift (harmless call List.mem_cons_self)]
    dsimp only
    rw [ih fun other member => harmless other (List.mem_cons_of_mem _ member)]
    rfl

theorem ntohs_small (data : List UInt8) (off : Nat) : (UInt16.ofNat (ntohs data off)).toNat = ntohs data off := by
  have high := (data.getD off 0).toNat_lt
  have low := (data.getD (off+1) 0).toNat_lt
  rw [UInt16.toNat_ofNat']
  unfold ntohs
  omega

theorem read16_there {p : NetPacket} (there : p.cursor+2 ≤ p.datalen) : ∃ len : UInt16,
    p.read16 = (len,{p with cursor := p.cursor+2}) ∧
    len.toNat = 256*(p.data.getD p.cursor.toNat 0).toNat+(p.data.getD (p.cursor.toNat+1) 0).toNat :=
  ⟨_,if_pos (by omega),ntohs_small _ _⟩

theorem read_last (twin : Twin p q) (torn : TornAt p) (short : q.datalen = p.getLen) :
    q.read behind .readString = (.string none,q) := by
  obtain ⟨_,last,_,before⟩ := torn
  have low := twin.first.low
  have cursor := twin.cursor
  have eight : packetContentPos = 8 := rfl
  rw [← twin.byte (by omega),← cursor] at before
  have nothing : q.read16 = (0,q) := read16_short (by omega)
  rw [readString_taking q (by rw [nothing]; dsimp only; omega),nothing]
  dsimp only
  rw [taking_none (stringOf_missing before)]

theorem read_behind (twin : Twin p q) (torn : TornAt p) (more : p.getLen+1 ≤ q.datalen) :
    q.read behind .readString = (.string none,{q with cursor := q.cursor+2}) := by
  obtain ⟨_,last,long,_⟩ := torn
  have low := twin.first.low
  have fits := twin.second.ok.fits
  have cursor := twin.cursor
  have eight : packetContentPos = 8 := rfl
  rw [← twin.byte (by omega),← cursor] at long
  obtain ⟨len,read,count⟩ := read16_there (p := q) (by omega)
  rw [readString_taking q (by rw [read]; dsimp only; omega),read]
  dsimp only
  rw [taking_out (by dsimp only; omega)]

theorem read_torn (behind : List UInt8) (twin : Twin p q) (torn : TornAt p) : ∃ r, q.read behind .readString = (.string none,r) ∧ Adrift p.getLen r := by
  have last := torn.last
  have fits := twin.second.ok.fits
  have whole := twin.second.whole
  have cursor := twin.cursor
  rw [twin.getLen] at whole
  by_cases short : q.datalen = p.getLen
  · exact ⟨q,read_last twin torn short,fits,.inl ⟨by omega,short⟩⟩
  · exact ⟨_,read_behind twin torn (by omega),fits,.inr ⟨by dsimp only; omega,by dsimp only; omega⟩⟩

theorem own_same {calls : List ReadCall} (twin : Twin p q) (own : OwnBytes p calls) :
    (readAll heap calls q).1 = (readAll behind calls p).1 := by
  induction calls generalizing p q with
  | nil => rfl
  | cons call rest ih =>
    unfold readAll
    rcases own with ⟨first,later⟩ | ⟨rfl,torn,harmless⟩
    · obtain ⟨same,after⟩ := call_twin behind heap twin first
      have values := ih after (read_after behind p call ▸ later)
      simp only [same,values]
    · obtain ⟨r,one,drift⟩ := read_torn heap twin torn
      obtain ⟨s,other,adrift⟩ := read_torn behind ⟨twin.first,twin.first,rfl,rfl,rfl⟩ torn
      rw [one,other]
      dsimp only
      rw [readAll_harmless drift harmless,readAll_harmless adrift harmless]

end Calls
end NetPacket
end PcNetwork.Netlib
