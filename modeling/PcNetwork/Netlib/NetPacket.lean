import PcNetwork.Library.Block
import PcNetwork.Library.Framing

namespace PcNetwork.Netlib

def maxPacketSize : Int := 2000
def packetHeaderSize : Nat := 6
def packetContentPos : Int := packetHeaderSize+2
def nlibpConnect : Nat := 0x0010

-- An int that is compared with an unsigned number.
def unsigned (x : Int) : Int := x % 2^32

-- NET_Packet: a block, and a cursor and a length in it. The header is ic, reserved and
-- len, two bytes each with the high byte first, and the command follows it.
structure NetPacket where
  data : List UInt8
  maxDataSize : Int
  cursor : Int
  datalen : Int

namespace NetPacket

-- Behind the header and the command, which are set to zero, the block is as it was in
-- memory, here zero as well.
def new : NetPacket := ⟨List.replicate maxPacketSize.toNat 0,maxPacketSize,packetContentPos,0⟩

def ntohs (bytes : List UInt8) (off : Nat) : Nat := 256*(bytes.getD off 0).toNat+(bytes.getD (off+1) 0).toNat

def getLen (p : NetPacket) : Nat := ntohs p.data 4
def getCmd (p : NetPacket) : Nat := ntohs p.data packetHeaderSize

def begin (p : NetPacket) : NetPacket := {p with cursor := packetContentPos}

-- What ::recv stores. The answer is cut to the length that was offered, and `none`
-- is SOCKET_ERROR.
def arriving (p : NetPacket) (answer : Option (List UInt8)) : List UInt8 :=
  (answer.getD []).take (p.maxDataSize-p.datalen).toNat

-- After an error datalen is negative, and the bytes stored in front of the block are lost.
def recv (p : NetPacket) (answer : Option (List UInt8)) : Int × NetPacket :=
  let got := p.arriving answer
  let len : Int := if answer = none then -1 else got.length
  let p := {p with data := Block.patch p.data p.datalen.toNat (got.drop (-p.datalen).toNat)}
  let p := if len > 0 then p.begin else p
  (len,{p with datalen := p.datalen+len})

def isCling (p : NetPacket) : Bool :=
  decide (unsigned p.datalen ≥ packetHeaderSize) && decide (unsigned p.datalen ≥ p.getLen)

def getClingPacket (p : NetPacket) : Option NetPacket :=
  if unsigned p.datalen ≤ p.getLen then none
  else
    let sizeCling := (p.datalen-p.getLen).bmod (2^32)
    some {new with
      data := Block.patch new.data 0 (Block.slice p.data p.getLen sizeCling.toNat)
      datalen := sizeCling}

-- The bytes received so far, and the frame at the front of the block.
def content (p : NetPacket) : List UInt8 := Block.slice p.data 0 p.datalen.toNat
def frame (p : NetPacket) : List UInt8 := Block.slice p.data 0 p.getLen

-- A packet as ProcessServer has it while no recv fails.
structure Ok (p : NetPacket) : Prop where
  nonneg : 0 ≤ p.datalen
  max : p.maxDataSize = maxPacketSize
  fits : p.datalen ≤ maxPacketSize
  block : (p.data.length : Int) = maxPacketSize

theorem new_ok : Ok new := by
  have length : new.data.length = maxPacketSize.toNat := List.length_replicate
  exact ⟨Int.le_refl 0,rfl,by decide,congrArg Int.ofNat length⟩

theorem Ok.length_content (ok : Ok p) : (p.content.length : Int) = p.datalen := by
  obtain ⟨nonneg,_,fits,block⟩ := ok
  unfold content
  rw [Block.length_slice (by omega)]
  omega

-- Bytes behind the ones that are there.
theorem recv_ok {bytes : List UInt8} (ok : Ok p) :
    (p.recv (some bytes)).1 = (p.arriving (some bytes)).length ∧ Ok (p.recv (some bytes)).2 ∧
    (p.recv (some bytes)).2.content = p.content ++ p.arriving (some bytes) := by
  obtain ⟨nonneg,max,fits,block⟩ := ok
  have limit : maxPacketSize = 2000 := rfl
  have short : (p.arriving (some bytes)).length ≤ (p.maxDataSize-p.datalen).toNat := by
    unfold arriving
    exact List.length_take_le _ _
  have front : (-p.datalen).toNat = 0 := by omega
  have shape : p.recv (some bytes) =
      (((p.arriving (some bytes)).length : Int),{p with
        data := Block.patch p.data p.datalen.toNat (p.arriving (some bytes))
        cursor := if ((p.arriving (some bytes)).length : Int) > 0 then packetContentPos else p.cursor
        datalen := p.datalen+(p.arriving (some bytes)).length}) := by
    unfold recv
    simp only [front,List.drop_zero,reduceCtorEq,if_false]
    split <;> rfl
  rw [shape]
  generalize p.arriving (some bytes) = got at short
  have within : 0+p.datalen.toNat+got.length ≤ p.data.length := by omega
  have grown := Block.slice_patch_extend within
  rw [Nat.zero_add] at grown within
  refine ⟨rfl,⟨?_,max,?_,?_⟩,?_⟩
  · dsimp only; omega
  · dsimp only; omega
  · rw [Block.length_patch within]; exact block
  · unfold content
    rw [show (p.datalen+(got.length : Int)).toNat = p.datalen.toNat+got.length by omega]
    exact grown

end NetPacket

-- The frames of a byte stream. A length of zero would be split off for ever.
def nextFrame (bytes : List UInt8) : Verdict UInt8 (List UInt8) :=
  let len := NetPacket.ntohs bytes 4
  if bytes.length < packetHeaderSize ∨ bytes.length < len then .more
  else if len = 0 then .bad
  else .frame (bytes.take len) (bytes.drop len)

theorem ntohs_append {bytes : List UInt8} (later : List UInt8) (long : ¬ bytes.length < packetHeaderSize) :
    NetPacket.ntohs (bytes ++ later) 4 = NetPacket.ntohs bytes 4 := by
  have six : packetHeaderSize = 6 := rfl
  unfold NetPacket.ntohs
  simp only [List.getD_eq_getElem?_getD]
  rw [List.getElem?_append_left (by omega),List.getElem?_append_left (by omega)]

def frames : Framing UInt8 (List UInt8) where
  next := nextFrame
  next_nil := rfl
  consumes := by
    intro bytes found rest answer
    unfold nextFrame at answer
    dsimp only at answer
    split at answer
    · cases answer
    · split at answer
      · cases answer
      · cases answer
        rename_i long some
        rw [List.length_drop]
        omega
  frame_final := by
    intro bytes found rest later answer
    unfold nextFrame at answer
    dsimp only at answer
    split at answer
    · cases answer
    · split at answer
      · cases answer
      · rename_i long some
        cases answer
        rw [not_or] at long
        unfold nextFrame
        dsimp only
        rw [ntohs_append later long.1,if_neg (by rw [List.length_append]; omega),if_neg some,
          List.take_append_of_le_length (by omega),List.drop_append_of_le_length (by omega)]
  bad_final := by
    intro bytes later answer
    unfold nextFrame at answer
    dsimp only at answer
    split at answer
    · cases answer
    · split at answer
      · rename_i long zero
        rw [not_or] at long
        unfold nextFrame
        dsimp only
        rw [ntohs_append later long.1,if_neg (by rw [List.length_append]; omega),if_pos zero]
      · cases answer

namespace NetPacket

theorem ntohs_content (p : NetPacket) (long : ¬ p.content.length < packetHeaderSize) : ntohs p.content 4 = p.getLen := by
  have parts : p.data = p.content ++ p.data.drop p.datalen.toNat := (List.take_append_drop _ _).symm
  rw [getLen,parts,ntohs_append _ long]

-- What get_cling_packet splits off is what is behind the frame, all of it if the frame
-- says that it is empty.
theorem getClingPacket_behind (ok : Ok p) (behind : p.getLen < p.datalen) :
    ∃ q, p.getClingPacket = some q ∧ Ok q ∧ q.content = p.content.drop p.getLen ∧ q.datalen = p.datalen-p.getLen := by
  have length := ok.length_content
  obtain ⟨nonneg,max,fits,block⟩ := ok
  have limit : maxPacketSize = 2000 := rfl
  have same : unsigned p.datalen = p.datalen := by unfold unsigned; omega
  have size : (p.datalen-p.getLen).bmod (2^32) = p.datalen-p.getLen := Int.bmod_eq_of_le (by omega) (by omega)
  have rest : Block.slice p.data p.getLen (p.datalen-p.getLen).toNat = p.content.drop p.getLen := by
    rw [content,Block.drop_slice,Nat.zero_add]
    congr 1
    omega
  have count : (p.content.drop p.getLen).length = (p.datalen-p.getLen).toNat := by
    rw [List.length_drop]
    omega
  have within : 0+(p.content.drop p.getLen).length ≤ new.data.length := by
    rw [count,show new.data.length = 2000 from List.length_replicate]
    omega
  have block' := Block.length_patch within
  unfold getClingPacket
  rw [same,if_neg (by omega),size]
  dsimp only
  rw [rest]
  refine ⟨_,rfl,⟨?_,rfl,?_,?_⟩,?_,rfl⟩
  · dsimp only; omega
  · dsimp only; omega
  · dsimp only; rw [block']; exact new_ok.block
  · rw [content]
    dsimp only
    rw [← count]
    exact Block.slice_patch_same within

-- What is_cling and get_cling_packet find is what the frames of the content say.
theorem isCling_parts (ok : Ok p) :
    (frames.next p.content = .more ∧ p.isCling = false) ∨
    (frames.next p.content = .bad ∧ p.isCling = true ∧ p.getLen = 0 ∧ 0 < p.datalen) ∨
    ∃ rest, frames.next p.content = .frame p.frame rest ∧ p.isCling = true ∧
      ((rest = [] ∧ p.getClingPacket = none) ∨
        ∃ q, rest ≠ [] ∧ p.getClingPacket = some q ∧ Ok q ∧ q.content = rest) := by
  obtain ⟨nonneg,max,fits,block⟩ := id ok
  have length := ok.length_content
  have limit : maxPacketSize = 2000 := rfl
  have six : packetHeaderSize = 6 := rfl
  have same : unsigned p.datalen = p.datalen := by unfold unsigned; omega
  show (nextFrame p.content = _ ∧ _) ∨ (nextFrame p.content = _ ∧ _) ∨ ∃ rest, nextFrame p.content = _ ∧ _
  unfold nextFrame isCling
  rw [same]
  by_cases long : p.content.length < packetHeaderSize
  · refine .inl ⟨if_pos (.inl long),?_⟩
    rw [decide_eq_false (by omega),Bool.false_and]
  · rw [ntohs_content p long]
    by_cases waits : p.content.length < p.getLen
    · refine .inl ⟨if_pos (.inr waits),?_⟩
      rw [decide_eq_false (by omega : ¬ p.datalen ≥ p.getLen),Bool.and_false]
    · have cling : (decide (p.datalen ≥ packetHeaderSize) && decide (p.datalen ≥ p.getLen)) = true := by
        rw [decide_eq_true (by omega),decide_eq_true (by omega : p.datalen ≥ p.getLen)]
        rfl
      dsimp only
      rw [if_neg (by omega)]
      by_cases zero : p.getLen = 0
      · exact .inr (.inl ⟨if_pos zero,cling,zero,by omega⟩)
      · have front : p.content.take p.getLen = p.frame := Block.take_slice _ _ _ _ (by omega)
        rw [if_neg zero,front]
        refine .inr (.inr ⟨_,rfl,cling,?_⟩)
        by_cases whole : p.datalen ≤ p.getLen
        · refine .inl ⟨List.drop_eq_nil_of_le (by omega),?_⟩
          unfold getClingPacket
          rw [same,if_pos whole]
        · obtain ⟨q,some,fine,rest,_⟩ := getClingPacket_behind ok (by omega)
          refine .inr ⟨q,?_,some,fine,rest⟩
          intro none
          have count := congrArg List.length none
          rw [List.length_drop,List.length_nil] at count
          omega

end NetPacket
end PcNetwork.Netlib
