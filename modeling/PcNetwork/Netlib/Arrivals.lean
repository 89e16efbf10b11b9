import PcNetwork.Netlib.PacketFields

namespace PcNetwork.Netlib
namespace NetPacket

theorem ntohl_patch_at {data : List UInt8} (fits : off ≤ data.length) (dw : UInt32) :
    ntohl (Block.patch data off (htonl dw)) off = dw.toNat := by
  have bound := dw.toNat_lt
  have first : (Block.patch data off (htonl dw)).getD off 0 = UInt8.ofNat (dw.toNat/2^24) :=
    Block.getD_patch_at (i := 0) fits (by simp [htonl])
  have second : (Block.patch data off (htonl dw)).getD (off+1) 0 = UInt8.ofNat (dw.toNat/2^16%256) :=
    Block.getD_patch_at (i := 1) fits (by simp [htonl])
  have third : (Block.patch data off (htonl dw)).getD (off+2) 0 = UInt8.ofNat (dw.toNat/2^8%256) :=
    Block.getD_patch_at (i := 2) fits (by simp [htonl])
  have fourth : (Block.patch data off (htonl dw)).getD (off+2+1) 0 = UInt8.ofNat (dw.toNat%256) :=
    Block.getD_patch_at (i := 3) fits (by simp [htonl])
  unfold ntohl ntohs
  rw [first,second,third,fourth]
  simp only [UInt8.toNat_ofNat']
  omega

-- What the header says, with the command behind it.
theorem setCmd_header (placed : Placed p) (cmd : UInt16) : (p.setCmd cmd).getIC = p.getIC ∧ (p.setCmd cmd).getCmd = cmd.toNat := by
  have block := placed.block
  have limit : maxPacketSize = 2000 := rfl
  have six : packetHeaderSize = 6 := rfl
  constructor
  · unfold getIC setCmd
    rw [ntohs_patch_before (by omega) (by omega)]
  · unfold getCmd setCmd
    rw [ntohs_patch_at (by omega)]

theorem put_header (placed : Placed p) (bytes : List UInt8) (cursor : Int) :
    let q : NetPacket := {p with data := Block.patch p.data p.cursor.toNat bytes,cursor}
    q.getIC = p.getIC ∧ q.getCmd = p.getCmd := by
  have block := placed.block
  have low := placed.low
  have high := placed.high
  have limit : maxPacketSize = 2000 := rfl
  have eight : packetContentPos = 8 := rfl
  have six : packetHeaderSize = 6 := rfl
  constructor
  · unfold getIC
    rw [ntohs_patch_before (by omega) (by omega)]
  · unfold getCmd
    rw [ntohs_patch_before (by omega) (by omega)]

theorem write16_header (placed : Placed p) (w : UInt16) : (p.write16 w).getIC = p.getIC ∧ (p.write16 w).getCmd = p.getCmd := by
  unfold write16
  split
  · exact put_header placed _ _
  · exact ⟨rfl,rfl⟩

theorem write32_header (placed : Placed p) (dw : UInt32) : (p.write32 dw).getIC = p.getIC ∧ (p.write32 dw).getCmd = p.getCmd := by
  unfold write32
  split
  · exact put_header placed _ _
  · exact ⟨rfl,rfl⟩

theorem end_ntohs (placed : Placed p) (apart : i+2 ≤ 4 ∨ 6 ≤ i) : ntohs p.end_.data i = ntohs p.data i := by
  have block := placed.block
  have limit : maxPacketSize = 2000 := rfl
  unfold end_
  split
  · rcases apart with before | behind
    · exact ntohs_patch_before (by omega) before
    · have two : (htons (UInt16.ofInt p.cursor)).length = 2 := rfl
      unfold ntohs
      rw [Block.getD_patch_behind (by omega) (by omega),Block.getD_patch_behind (by omega) (by omega)]
  · rfl

theorem end_header (placed : Placed p) : p.end_.getIC = p.getIC ∧ p.end_.getCmd = p.getCmd := by
  have six : packetHeaderSize = 6 := rfl
  constructor
  · unfold getIC
    rw [end_ntohs placed (by omega)]
  · unfold getCmd
    rw [end_ntohs placed (by omega)]

theorem begin_placed (placed : Placed p) : Placed p.begin := by
  have limit : packetContentPos ≤ maxPacketSize := by decide
  exact ⟨placed.max,placed.block,placed.datalen,Int.le_refl _,limit⟩

-- A packet that PushRecvPacket is called with: the bytes that were sent are the first of
-- those received, and nothing has been read.
structure Carries (q : NetPacket) (bytes : List UInt8) : Prop where
  placed : Placed q
  cursor : q.cursor = packetContentPos
  arrived : bytes <+: q.content

theorem Carries.datalen (carries : Carries q bytes) (nonempty : 0 < bytes.length) : (bytes.length : Int) ≤ q.datalen := by
  have short := carries.arrived.length_le
  have most : q.content.length ≤ q.datalen.toNat := Block.length_slice_le _ _ _
  omega

theorem Carries.ntohs (carries : Carries q bytes) (inside : i+2 ≤ bytes.length) : NetPacket.ntohs q.data i = NetPacket.ntohs bytes i := by
  have within : bytes <+: q.data := by
    apply carries.arrived.trans
    unfold content Block.slice
    exact List.take_prefix _ _
  obtain ⟨rest,parts⟩ := within
  rw [← parts]
  simp only [NetPacket.ntohs,List.getD_eq_getElem?_getD]
  rw [List.getElem?_append_left (by omega),List.getElem?_append_left (by omega)]

-- The numbers of a packet that is sent, but for its len field.
theorem length_sendTo (placed : Placed p) : p.sendTo.1.length = p.cursor.toNat := by
  obtain ⟨after,same,_⟩ := end_parts placed
  have block := after.block
  have low := after.low
  have high := after.high
  have eight : packetContentPos = 8 := rfl
  unfold sendTo
  dsimp only
  rw [Block.length_slice (by omega),same]

theorem Carries.field {i : Nat} (carries : Carries q p.sendTo.1) (placed : Placed p) (inside : (i+2 : Int) ≤ p.cursor)
    (apart : i+2 ≤ 4 ∨ 6 ≤ i) : NetPacket.ntohs q.data i = NetPacket.ntohs p.data i := by
  have long := length_sendTo placed
  have same := (end_parts placed).2.1
  have sent : NetPacket.ntohs p.sendTo.1 i = NetPacket.ntohs p.end_.data i := by
    unfold sendTo NetPacket.ntohs
    dsimp only
    rw [same,Block.getD_slice (by omega),Block.getD_slice (by omega),Nat.zero_add,Nat.zero_add]
  rw [carries.ntohs (by omega),sent,end_ntohs placed apart]

theorem Carries.getIC (carries : Carries q p.sendTo.1) (placed : Placed p) : q.getIC = p.getIC := by
  have low := placed.low
  have eight : packetContentPos = 8 := rfl
  unfold NetPacket.getIC
  rw [carries.field placed (by omega) (by omega)]

theorem Carries.getCmd (carries : Carries q p.sendTo.1) (placed : Placed p) : q.getCmd = p.getCmd := by
  have low := placed.low
  have eight : packetContentPos = 8 := rfl
  have six : packetHeaderSize = 6 := rfl
  unfold NetPacket.getCmd
  rw [carries.field placed (by omega) (by omega)]

theorem Carries.long {i : Nat} (carries : Carries q p.sendTo.1) (placed : Placed p) (inside : (i+4 : Int) ≤ p.cursor)
    (behind : 6 ≤ i) : ntohl q.data i = ntohl p.data i := by
  unfold ntohl
  rw [carries.field placed (by omega) (by omega),carries.field placed (by omega) (by omega)]

-- The packets of ProcessServer's loop: one that has just received, and those that
-- get_cling_packet splits off.
theorem getClingPacket_start (ok : Ok p) (found : p.getClingPacket = some q) : Ok q ∧ q.cursor = packetContentPos := by
  have nonneg := ok.nonneg
  have fits := ok.fits
  have limit : maxPacketSize = 2000 := rfl
  have same : unsigned p.datalen = p.datalen := by unfold unsigned; omega
  have behind : p.getLen < p.datalen := by
    by_contra whole
    unfold getClingPacket at found
    rw [if_pos (by omega)] at found
    cases found
  obtain ⟨r,split,fine,_⟩ := getClingPacket_behind ok behind
  cases split.symm.trans found
  refine ⟨fine,?_⟩
  unfold getClingPacket at found
  split at found
  · cases found
  · cases found
    rfl

theorem recv_start {p : NetPacket} {answer : Option (List UInt8)} (positive : (p.recv answer).1 > 0) : (p.recv answer).2.cursor = packetContentPos := by
  unfold recv at positive ⊢
  dsimp only at positive ⊢
  rw [if_pos positive]
  rfl

-- What ::recv stores in a new packet.
theorem recv_carries {bytes : List UInt8} (short : (bytes.length : Int) ≤ maxPacketSize) :
    Carries (new.recv (some bytes)).2 bytes := by
  have all : new.arriving (some bytes) = bytes := List.take_of_length_le (by show bytes.length ≤ (maxPacketSize-0).toNat; omega)
  have content : (new.recv (some bytes)).2.content = new.content ++ new.arriving (some bytes) := (recv_ok new_ok).2.2
  have empty : new.content = [] := Block.slice_zero _ _
  rw [all,empty,List.nil_append] at content
  refine ⟨recv_placed new_placed _,?_,?_⟩
  · unfold recv
    dsimp only
    generalize (if some bytes = none then (-1 : Int) else _) = len
    split <;> rfl
  · rw [content]

end NetPacket
end PcNetwork.Netlib
