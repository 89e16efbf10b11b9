import PcNetwork.Netlib.NetSession

namespace PcNetwork.Netlib
namespace NetPacket

-- htonl and ntohl, as htons and ntohs for four bytes.
def htonl (dw : UInt32) : List UInt8 :=
  [UInt8.ofNat (dw.toNat/2^24),UInt8.ofNat (dw.toNat/2^16%256),UInt8.ofNat (dw.toNat/2^8%256),UInt8.ofNat (dw.toNat%256)]
def ntohl (bytes : List UInt8) (off : Nat) : Nat := 65536*ntohs bytes off+ntohs bytes (off+2)

def write8 (p : NetPacket) (b : UInt8) : NetPacket :=
  if p.cursor ≤ p.maxDataSize-1 then
    {p with data := Block.patch p.data p.cursor.toNat [b],cursor := p.cursor+1}
  else p

def write32 (p : NetPacket) (dw : UInt32) : NetPacket :=
  if p.cursor ≤ p.maxDataSize-4 then
    {p with data := Block.patch p.data p.cursor.toNat (htonl dw),cursor := p.cursor+4}
  else p

-- `str` are the characters before the terminating zero. The length is counted in 16
-- bits, and strcpy copies them all.
def writeString (p : NetPacket) (str : List UInt8) : NetPacket :=
  let len := UInt16.ofNat (str.length+1)
  if p.cursor ≤ p.maxDataSize-2-len.toNat then
    let p := p.write16 len
    {p with data := Block.patch p.data p.cursor.toNat (str ++ [0]),cursor := p.cursor+len.toNat}
  else p

def writeData (p : NetPacket) (pData : List UInt8) (len : UInt16) : NetPacket :=
  if p.cursor ≤ p.maxDataSize-2-len.toNat then
    let p := p.write16 len
    {p with data := Block.patch p.data p.cursor.toNat (pData.take len.toNat),cursor := p.cursor+len.toNat}
  else p

def read8 (p : NetPacket) : UInt8 × NetPacket :=
  if p.cursor ≤ p.datalen-1 then (p.data.getD p.cursor.toNat 0,{p with cursor := p.cursor+1}) else (0,p)

def read16 (p : NetPacket) : UInt16 × NetPacket :=
  if p.cursor ≤ p.datalen-2 then (UInt16.ofNat (ntohs p.data p.cursor.toNat),{p with cursor := p.cursor+2}) else (0,p)

def read32 (p : NetPacket) : UInt32 × NetPacket :=
  if p.cursor ≤ p.datalen-4 then (UInt32.ofNat (ntohl p.data p.cursor.toNat),{p with cursor := p.cursor+4}) else (0,p)

-- A pointer is its distance from m_data. The last byte of a string has to be zero; of a
-- string of length 0 it is the one in front of the cursor.
def readString (p : NetPacket) : Option Int × NetPacket :=
  let (len,p) := p.read16
  if p.cursor ≤ p.datalen-len.toNat ∧ p.data.getD (p.cursor+len.toNat-1).toNat 0 = 0 then
    (some p.cursor,{p with cursor := p.cursor+len.toNat})
  else (none,p)

def readData (p : NetPacket) : Option Int × NetPacket :=
  let (len,p) := p.read16
  if p.cursor ≤ p.datalen-len.toNat then (some p.cursor,{p with cursor := p.cursor+len.toNat}) else (none,p)

-- Where the data does not fit, ptr_data stays as it was in memory.
def readBinary (p : NetPacket) : (UInt16 × Option Int) × NetPacket :=
  let (len,p) := p.read16
  if p.cursor ≤ p.datalen-len.toNat then ((len,some p.cursor),{p with cursor := p.cursor+len.toNat}) else ((len,none),p)

-- end()
def end_ (p : NetPacket) : NetPacket :=
  if p.getLen < p.cursor then {p with data := Block.patch p.data 4 (htons (UInt16.ofInt p.cursor))} else p

-- The bytes that are given to ::send.
def sendTo (p : NetPacket) : List UInt8 × NetPacket :=
  let p := p.end_
  (Block.slice p.data 0 p.cursor.toNat,p)

-- What the session code does to a packet between having it and sending it.
inductive PacketOp where
  | setCmd (cmd : UInt16)
  | begin
  | write8 (b : UInt8)
  | write16 (w : UInt16)
  | write32 (dw : UInt32)
  | writeString (str : List UInt8)
  | writeData (pData : List UInt8) (len : UInt16)
  | read8
  | read16
  | read32
  | readString
  | readData
  | readBinary
  | end_
  deriving DecidableEq

def apply (p : NetPacket) : PacketOp → NetPacket
  | .setCmd cmd => p.setCmd cmd
  | .begin => p.begin
  | .write8 b => p.write8 b
  | .write16 w => p.write16 w
  | .write32 dw => p.write32 dw
  | .writeString str => p.writeString str
  | .writeData pData len => p.writeData pData len
  | .read8 => p.read8.2
  | .read16 => p.read16.2
  | .read32 => p.read32.2
  | .readString => p.readString.2
  | .readData => p.readData.2
  | .readBinary => p.readBinary.2
  | .end_ => p.end_

-- The packets there are: a new one, one that has received whatever ::recv stored, and
-- one that was split off. There is no splitting where datalen is negative after errors.
inductive Handed : NetPacket → Prop where
  | fresh : Handed new
  | received : Handed p → Handed (p.recv answer).2
  | cling : Handed p → 0 ≤ p.datalen → p.getClingPacket = some q → Handed q

-- The block of a packet, and a cursor behind the header.
structure Placed (p : NetPacket) : Prop where
  max : p.maxDataSize = maxPacketSize
  block : maxPacketSize ≤ p.data.length
  datalen : p.datalen ≤ maxPacketSize
  low : packetContentPos ≤ p.cursor
  high : p.cursor ≤ maxPacketSize

theorem new_placed : Placed new := by
  have length : new.data.length = maxPacketSize.toNat := List.length_replicate
  refine ⟨rfl,?_,by decide,by decide,by decide⟩
  rw [length]
  decide

theorem recv_placed (placed : Placed p) (answer : Option (List UInt8)) : Placed (p.recv answer).2 := by
  obtain ⟨max,block,datalen,low,high⟩ := placed
  have short : (p.arriving answer).length ≤ (p.maxDataSize-p.datalen).toNat := List.length_take_le _ _
  have longer := Block.le_length_patch p.data p.datalen.toNat ((p.arriving answer).drop (-p.datalen).toNat)
  have limit : packetContentPos ≤ maxPacketSize := by decide
  have count : (if answer = none then -1 else ((p.arriving answer).length : Int)) ≤ (p.arriving answer).length := by
    split <;> omega
  unfold recv
  dsimp only
  generalize (if answer = none then (-1 : Int) else _) = len at count
  by_cases some : len > 0
  · rw [if_pos some]
    exact ⟨max,by dsimp only [begin]; omega,by dsimp only [begin]; omega,Int.le_refl _,limit⟩
  · rw [if_neg some]
    exact ⟨max,by dsimp only; omega,by dsimp only; omega,low,high⟩

theorem cling_placed (placed : Placed p) (nonneg : 0 ≤ p.datalen) (next : p.getClingPacket = some q) : Placed q := by
  have small := placed.datalen
  have limit : maxPacketSize = 2000 := rfl
  have most : p.getLen < 65536 := by
    unfold getLen ntohs
    have high := (p.data.getD 4 0).toNat_lt
    have low := (p.data.getD (4+1) 0).toNat_lt
    omega
  have size : (p.datalen-p.getLen).bmod (2^32) = p.datalen-p.getLen := Int.bmod_eq_of_le (by omega) (by omega)
  unfold getClingPacket at next
  split at next
  · cases next
  · rw [size] at next
    cases next
    obtain ⟨max,block,_,low,high⟩ := new_placed
    have longer := Block.le_length_patch new.data 0 (Block.slice p.data p.getLen (p.datalen-p.getLen).toNat)
    exact ⟨max,by dsimp only; omega,by dsimp only; omega,low,high⟩

theorem Handed.placed (handed : Handed p) : Placed p := by
  induction handed with
  | fresh => exact new_placed
  | received _ ih => exact recv_placed ih _
  | cling _ nonneg next ih => exact cling_placed ih nonneg next

-- The header's numbers in a block that was written to.
theorem ntohs_patch_before {data bytes : List UInt8} (fits : off ≤ data.length) (before : i+2 ≤ off) :
    ntohs (Block.patch data off bytes) i = ntohs data i := by
  unfold ntohs
  rw [Block.getD_patch_before fits (by omega),Block.getD_patch_before fits (by omega)]

theorem ntohs_patch_at {data : List UInt8} (fits : off ≤ data.length) (w : UInt16) :
    ntohs (Block.patch data off (htons w)) off = w.toNat := by
  have high : w.toNat/256 < 256 := Nat.div_lt_of_lt_mul w.toNat_lt
  have first : (Block.patch data off (htons w)).getD off 0 = UInt8.ofNat (w.toNat/256) :=
    Block.getD_patch_at (i := 0) fits (by simp [htons])
  have second : (Block.patch data off (htons w)).getD (off+1) 0 = UInt8.ofNat (w.toNat%256) :=
    Block.getD_patch_at (i := 1) fits (by simp [htons])
  unfold ntohs
  rw [first,second,UInt8.toNat_ofNat',UInt8.toNat_ofNat']
  omega

-- What an operation does to the cursor and to the len field: a write or a read moves
-- the cursor on and leaves the header alone.
structure Onward (p q : NetPacket) : Prop where
  placed : Placed q
  getLen : q.getLen = p.getLen
  cursor : p.cursor ≤ q.cursor

theorem Onward.refl (placed : Placed p) : Onward p p := ⟨placed,rfl,Int.le_refl _⟩

theorem Onward.trans (first : Onward p q) (second : Onward q r) : Onward p r :=
  ⟨second.placed,second.getLen.trans first.getLen,Int.le_trans first.cursor second.cursor⟩

theorem Placed.put (placed : Placed p) {n : Nat} (fits : p.cursor+n ≤ maxPacketSize) (bytes : List UInt8) :
    Onward p {p with data := Block.patch p.data p.cursor.toNat bytes,cursor := p.cursor+n} := by
  obtain ⟨max,block,datalen,low,high⟩ := placed
  have longer := Block.le_length_patch p.data p.cursor.toNat bytes
  have eight : packetContentPos = 8 := rfl
  refine ⟨⟨max,by dsimp only; omega,datalen,by dsimp only; omega,fits⟩,?_,by dsimp only; omega⟩
  exact ntohs_patch_before (by omega) (by omega)

theorem Placed.took (placed : Placed p) {n : Nat} (fits : p.cursor+n ≤ p.datalen) : Onward p {p with cursor := p.cursor+n} := by
  obtain ⟨max,block,datalen,low,high⟩ := placed
  exact ⟨⟨max,block,datalen,by dsimp only; omega,by dsimp only; omega⟩,rfl,by dsimp only; omega⟩

theorem write16_onward (placed : Placed p) (w : UInt16) : Onward p (p.write16 w) := by
  have max := placed.max
  unfold write16
  split
  · exact placed.put (n := 2) (by omega) _
  · exact .refl placed

theorem write32_onward (placed : Placed p) (dw : UInt32) : Onward p (p.write32 dw) := by
  have max := placed.max
  unfold write32
  split
  · exact placed.put (n := 4) (by omega) _
  · exact .refl placed

theorem read32_onward (placed : Placed p) : Onward p p.read32.2 := by
  unfold read32
  split
  · exact placed.took (n := 4) (by omega)
  · exact .refl placed

-- writeString and writeData: a length, and as many bytes.
theorem writeLong_onward (placed : Placed p) (len : UInt16) (bytes : List UInt8) :
    Onward p (if p.cursor ≤ p.maxDataSize-2-len.toNat then
      {p.write16 len with
        data := Block.patch (p.write16 len).data (p.write16 len).cursor.toNat bytes
        cursor := (p.write16 len).cursor+len.toNat}
      else p) := by
  have max := placed.max
  split
  · have first := write16_onward placed len
    have moved : (p.write16 len).cursor = p.cursor+2 := by
      unfold write16
      rw [if_pos (by omega)]
    exact first.trans (first.placed.put (by omega) bytes)
  · exact .refl placed

theorem read16_onward (placed : Placed p) : Onward p p.read16.2 ∧ p.read16.2.datalen = p.datalen := by
  unfold read16
  split
  · exact ⟨placed.took (n := 2) (by omega),rfl⟩
  · exact ⟨.refl placed,rfl⟩

-- readString, readData and readBinary: a length, and as many bytes if they are there.
theorem read16_then (placed : Placed p) {q : NetPacket}
    (ends : q = p.read16.2 ∨ ∃ n : Nat, p.read16.2.cursor+n ≤ p.read16.2.datalen ∧
      q = {p.read16.2 with cursor := p.read16.2.cursor+n}) : Onward p q := by
  have first := (read16_onward placed).1
  rcases ends with rfl | ⟨n,fits,rfl⟩
  · exact first
  · exact first.trans (first.placed.took fits)

theorem setCmd_onward (placed : Placed p) (cmd : UInt16) : Onward p (p.setCmd cmd) := by
  obtain ⟨max,block,datalen,low,high⟩ := placed
  have longer := Block.le_length_patch p.data packetHeaderSize (htons cmd)
  have limit : maxPacketSize = 2000 := rfl
  have six : packetHeaderSize = 6 := rfl
  refine ⟨⟨max,by dsimp only [setCmd]; omega,datalen,low,high⟩,?_,Int.le_refl _⟩
  exact ntohs_patch_before (by omega) (by omega)

-- The rest of the operations moves on.
theorem apply_onward (placed : Placed p) {op : PacketOp} (plain : op ≠ .begin ∧ op ≠ .end_) : Onward p (p.apply op) := by
  have max := placed.max
  cases op with
  | begin => exact absurd rfl plain.1
  | end_ => exact absurd rfl plain.2
  | setCmd cmd => exact setCmd_onward placed cmd
  | write8 b =>
    unfold apply write8
    dsimp only
    split
    · exact placed.put (n := 1) (by omega) _
    · exact .refl placed
  | write16 w => exact write16_onward placed w
  | write32 dw => exact write32_onward placed dw
  | writeString str => exact writeLong_onward placed _ _
  | writeData pData len => exact writeLong_onward placed len _
  | read8 =>
    unfold apply read8
    dsimp only
    split
    · exact placed.took (n := 1) (by omega)
    · exact .refl placed
  | read16 => exact (read16_onward placed).1
  | read32 => exact read32_onward placed
  | readString =>
    apply read16_then placed
    unfold apply readString
    dsimp only
    split
    · exact .inr ⟨_,by omega,rfl⟩
    · exact .inl rfl
  | readData =>
    apply read16_then placed
    unfold apply readData
    dsimp only
    split
    · exact .inr ⟨_,by omega,rfl⟩
    · exact .inl rfl
  | readBinary =>
    apply read16_then placed
    unfold apply readBinary
    dsimp only
    split
    · exact .inr ⟨_,by omega,rfl⟩
    · exact .inl rfl

-- end() raises the len field to the cursor, and never lowers it.
theorem end_parts (placed : Placed p) :
    Placed p.end_ ∧ p.end_.cursor = p.cursor ∧ (p.end_.getLen : Int) = max (p.getLen : Int) p.cursor := by
  obtain ⟨size,block,datalen,low,high⟩ := id placed
  have longer := Block.le_length_patch p.data 4 (htons (UInt16.ofInt p.cursor))
  have eight : packetContentPos = 8 := rfl
  have limit : maxPacketSize = 2000 := rfl
  unfold end_
  split
  · refine ⟨⟨size,by dsimp only; omega,datalen,low,high⟩,rfl,?_⟩
    have fits : 4 ≤ p.data.length := by omega
    have stored := ntohs_patch_at fits (UInt16.ofInt p.cursor)
    have count : (UInt16.ofInt p.cursor).toNat = p.cursor.toNat := by
      rw [UInt16.ofInt,UInt16.toNat_ofNat']
      omega
    rw [getLen,stored,count]
    omega
  · exact ⟨placed,rfl,by omega⟩

theorem apply_parts (placed : Placed p) (op : PacketOp) :
    Placed (p.apply op) ∧ ∀ n : Int, (p.apply op).getLen ≤ n ↔ p.getLen ≤ n ∧ (op = .end_ → p.cursor ≤ n) := by
  by_cases plain : op ≠ .begin ∧ op ≠ .end_
  · obtain ⟨after,same,_⟩ := apply_onward placed plain
    refine ⟨after,fun n => ?_⟩
    simp [same,plain.2]
  · by_cases ending : op = .end_
    · obtain ⟨after,_,len⟩ := end_parts placed
      subst ending
      refine ⟨after,fun n => ?_⟩
      have len : ((p.apply .end_).getLen : Int) = max (p.getLen : Int) p.cursor := len
      simp [len]
    · have back : op = .begin := by
        by_contra other
        exact plain ⟨other,ending⟩
      subst back
      obtain ⟨max,block,datalen,_,_⟩ := placed
      have fits : packetContentPos ≤ maxPacketSize := by decide
      refine ⟨⟨max,block,datalen,Int.le_refl _,fits⟩,fun n => ?_⟩
      have same : (p.apply .begin).getLen = p.getLen := rfl
      simp [same]

-- Where the cursor stood at each end() call.
def ends (p : NetPacket) : List PacketOp → List Int
  | [] => []
  | op :: rest => if op = .end_ then p.cursor :: ends (p.apply op) rest else ends (p.apply op) rest

theorem foldl_parts (placed : Placed p) (ops : List PacketOp) :
    Placed (ops.foldl apply p) ∧
    ∀ n : Int, (ops.foldl apply p).getLen ≤ n ↔ p.getLen ≤ n ∧ ∀ place ∈ p.ends ops, place ≤ n := by
  induction ops generalizing p with
  | nil => simp [ends,placed]
  | cons op rest ih =>
    obtain ⟨after,len⟩ := apply_parts placed op
    obtain ⟨last,lens⟩ := ih after
    refine ⟨last,fun n => ?_⟩
    rw [List.foldl_cons,lens n,len n]
    by_cases ending : op = .end_
    · simp [ends,ending,and_assoc]
    · simp [ends,ending]

-- What send_to transmits is as long as the header says if the cursor is then as far as
-- the len field the packet had first, and as every end() call made it.
theorem length_sent (handed : Handed p) (ops : List PacketOp) :
    ((ops.foldl apply p).sendTo.1.length = (ops.foldl apply p).sendTo.2.getLen) ↔
      (p.getLen : Int) ≤ (ops.foldl apply p).cursor ∧ ∀ place ∈ p.ends ops, place ≤ (ops.foldl apply p).cursor := by
  obtain ⟨placed,len⟩ := foldl_parts handed.placed ops
  generalize ops.foldl apply p = q at placed len
  obtain ⟨after,same,announced⟩ := end_parts placed
  have block := after.block
  have low := after.low
  have high := after.high
  have eight : packetContentPos = 8 := rfl
  have sent : q.sendTo.1.length = q.cursor.toNat := by
    unfold sendTo
    dsimp only
    rw [Block.length_slice (by omega),same]
  rw [← len,sent]
  show q.cursor.toNat = q.end_.getLen ↔ _
  omega

-- A new packet with a body.
theorem length_sent_written :
    let p := [PacketOp.setCmd 9,.begin,.write32 7,.writeString [104,105],.end_].foldl apply new
    p.sendTo.1.length = p.sendTo.2.getLen := by
  refine (length_sent .fresh [PacketOp.setCmd 9,.begin,.write32 7,.writeString [104,105],.end_]).mpr ?_
  decide

-- The reply that PushRecvPacket makes in place of an NLIBP_PING.
def pingReply : List PacketOp := [.read32,.read32,.setCmd 0x0101,.begin,.write32 1000,.end_]

theorem length_sent_ping :
    ¬ ∀ (p : NetPacket) (ops : List PacketOp), Handed p →
      (ops.foldl apply p).sendTo.1.length = (ops.foldl apply p).sendTo.2.getLen := by
  intro claim
  have request := claim (new.recv (some [0,0,0,0,0,16,1,0,0,0,3,232,0,0,0,0])).2 pingReply (.received .fresh)
  revert request
  decide

end NetPacket
end PcNetwork.Netlib
