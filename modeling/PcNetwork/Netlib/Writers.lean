import PcNetwork.Library.Path
import PcNetwork.Netlib.PacketFields

namespace PcNetwork.Netlib
namespace NetPacket

-- A packet of any capacity. NET_Packet() has MAX_PACKET_SIZE.
def ofSize (dataSize : Int) : NetPacket := ⟨List.replicate dataSize.toNat 0,dataSize,packetContentPos,0⟩

inductive WriteCall where
  | write8 (b : UInt8)
  | write16 (w : UInt16)
  | write32 (dw : UInt32)
  | writeString (str : List UInt8)
  | writeData (pData : List UInt8) (len : UInt16)

def writes (p : NetPacket) : WriteCall → NetPacket
  | .write8 b => p.write8 b
  | .write16 w => p.write16 w
  | .write32 dw => p.write32 dw
  | .writeString str => p.writeString str
  | .writeData pData len => p.writeData pData len

-- The bytes of the field, its length with them.
def WriteCall.size : WriteCall → Nat
  | .write8 _ => 1
  | .write16 _ => 2
  | .write32 _ => 4
  | .writeString str => 2+(str.length+1)
  | .writeData _ len => 2+len.toNat

-- Where a call stores bytes, and which: the distances are those from m_data.
def stored (p : NetPacket) (bytes : List UInt8) : List (Int × List UInt8) :=
  if p.cursor ≤ p.maxDataSize-bytes.length then [(p.cursor,bytes)] else []

def storedLong (p : NetPacket) (len : UInt16) (bytes : List UInt8) : List (Int × List UInt8) :=
  if p.cursor ≤ p.maxDataSize-2-len.toNat then p.stored (htons len) ++ [((p.write16 len).cursor,bytes)] else []

def stores (p : NetPacket) : WriteCall → List (Int × List UInt8)
  | .write8 b => p.stored [b]
  | .write16 w => p.stored (htons w)
  | .write32 dw => p.stored (htonl dw)
  | .writeString str => p.storedLong (UInt16.ofNat (str.length+1)) (str ++ [0])
  | .writeData pData len => p.storedLong len (pData.take len.toNat)

def applied (data : List UInt8) (stores : List (Int × List UInt8)) : List UInt8 :=
  stores.foldl (fun data store => Block.patch data store.1.toNat store.2) data

theorem write16_taken {p : NetPacket} (fits : p.cursor ≤ p.maxDataSize-2) (w : UInt16) :
    p.write16 w = {p with data := Block.patch p.data p.cursor.toNat (htons w),cursor := p.cursor+2} := if_pos fits

theorem writeLong_applied (p : NetPacket) (len : UInt16) (bytes : List UInt8) :
    (if p.cursor ≤ p.maxDataSize-2-len.toNat then
      {p.write16 len with
        data := Block.patch (p.write16 len).data (p.write16 len).cursor.toNat bytes
        cursor := (p.write16 len).cursor+len.toNat}
      else p).data = applied p.data (p.storedLong len bytes) := by
  unfold storedLong
  split
  · have room : p.cursor ≤ p.maxDataSize-2 := by omega
    have first : p.stored (htons len) = [(p.cursor,htons len)] := if_pos room
    rw [first,write16_taken room]
    rfl
  · rfl

-- Nothing else is written to.
theorem writes_applied (p : NetPacket) (call : WriteCall) : (p.writes call).data = applied p.data (p.stores call) := by
  cases call with
  | write8 b =>
    show (p.write8 b).data = applied p.data (if p.cursor ≤ p.maxDataSize-1 then [(p.cursor,[b])] else [])
    unfold write8
    split <;> rfl
  | write16 w =>
    show (p.write16 w).data = applied p.data (if p.cursor ≤ p.maxDataSize-2 then [(p.cursor,htons w)] else [])
    unfold write16
    split <;> rfl
  | write32 dw =>
    show (p.write32 dw).data = applied p.data (if p.cursor ≤ p.maxDataSize-4 then [(p.cursor,htonl dw)] else [])
    unfold write32
    split <;> rfl
  | writeString str => exact writeLong_applied p _ _
  | writeData pData len => exact writeLong_applied p len _

-- What a call has to do: it stores in the block, leaves the cursor in it or at its end,
-- and drops a field that does not fit as a whole.
structure Contained (p : NetPacket) (call : WriteCall) : Prop where
  inside : ∀ store ∈ p.stores call, 0 ≤ store.1 ∧ store.1+store.2.length ≤ p.maxDataSize
  cursor : 0 ≤ (p.writes call).cursor ∧ (p.writes call).cursor ≤ p.maxDataSize
  dropped : p.maxDataSize < p.cursor+call.size → p.writes call = p

-- A string whose length in 16 bits passes the test has to fit with its real length.
def Counted (p : NetPacket) : WriteCall → Prop
  | .writeString str =>
    p.cursor+2+((str.length+1) % 2^16 : Nat) ≤ p.maxDataSize → p.cursor+2+(str.length+1) ≤ p.maxDataSize
  | .write8 _ | .write16 _ | .write32 _ | .writeData _ _ => True

-- The block is as long as m_max_data_size says, and the cursor is behind the header.
structure Sized (p : NetPacket) : Prop where
  block : (p.data.length : Int) = p.maxDataSize
  low : packetContentPos ≤ p.cursor
  high : p.cursor ≤ p.maxDataSize

-- write8, write16 and write32.
theorem put_contained {call : WriteCall} (sized : Sized p) (bytes : List UInt8) (size : call.size = bytes.length)
    (stores : p.stores call = p.stored bytes)
    (writes : p.writes call = if p.cursor ≤ p.maxDataSize-bytes.length then
      {p with data := Block.patch p.data p.cursor.toNat bytes,cursor := p.cursor+bytes.length} else p) : Contained p call := by
  obtain ⟨block,low,high⟩ := sized
  have eight : packetContentPos = 8 := rfl
  unfold stored at stores
  by_cases room : p.cursor ≤ p.maxDataSize-bytes.length
  · rw [if_pos room] at stores writes
    refine ⟨?_,?_,fun full => absurd full (by omega)⟩
    · rw [stores]
      intro store member
      cases List.mem_singleton.mp member
      exact ⟨by dsimp only; omega,by dsimp only; omega⟩
    · rw [writes]
      exact ⟨by dsimp only; omega,by dsimp only; omega⟩
  · rw [if_neg room] at stores writes
    refine ⟨?_,?_,fun _ => writes⟩
    · rw [stores]
      exact nofun
    · rw [writes]
      exact ⟨by omega,high⟩

-- writeString and writeData: the test is made with the length in 16 bits.
theorem long_contained_iff {len : UInt16} {n : Nat} (sized : Sized p) (call : WriteCall) (bytes : List UInt8) (size : call.size = 2+n)
    (short : bytes.length ≤ n) (stores : p.stores call = p.storedLong len bytes)
    (writes : p.writes call = if p.cursor ≤ p.maxDataSize-2-len.toNat then
      {p.write16 len with
        data := Block.patch (p.write16 len).data (p.write16 len).cursor.toNat bytes
        cursor := (p.write16 len).cursor+len.toNat}
      else p) :
    Contained p call ↔ (p.cursor+2+len.toNat ≤ p.maxDataSize → p.cursor+2+n ≤ p.maxDataSize) := by
  obtain ⟨block,low,high⟩ := sized
  have eight : packetContentPos = 8 := rfl
  unfold storedLong at stores
  by_cases room : p.cursor ≤ p.maxDataSize-2-len.toNat
  · have front : p.cursor ≤ p.maxDataSize-2 := by omega
    have first : p.stored (htons len) = [(p.cursor,htons len)] := if_pos front
    have moved : (p.write16 len).cursor = p.cursor+2 := congrArg NetPacket.cursor (write16_taken front len)
    rw [if_pos room,first,moved] at stores
    rw [if_pos room,moved] at writes
    constructor
    · intro contained _
      by_contra full
      have same := congrArg NetPacket.cursor (contained.dropped (by omega))
      rw [writes] at same
      dsimp only at same
      omega
    · intro fits
      have within := fits (by omega)
      refine ⟨?_,?_,fun full => absurd full (by omega)⟩
      · rw [stores]
        intro store member
        rcases List.mem_cons.mp member with rfl | last
        · exact ⟨by dsimp only; omega,by dsimp only [htons,List.length_cons,List.length_nil]; omega⟩
        · cases List.mem_singleton.mp last
          exact ⟨by dsimp only; omega,by dsimp only; omega⟩
      · rw [writes]
        exact ⟨by dsimp only; omega,by dsimp only; omega⟩
  · rw [if_neg room] at stores writes
    refine ⟨fun _ passes => absurd passes (by omega),fun _ => ⟨?_,?_,fun _ => writes⟩⟩
    · rw [stores]
      exact nofun
    · rw [writes]
      exact ⟨by omega,high⟩

theorem contained_iff (sized : Sized p) (call : WriteCall) : Contained p call ↔ Counted p call := by
  cases call with
  | write8 b => exact ⟨fun _ => trivial,fun _ => put_contained sized [b] rfl rfl rfl⟩
  | write16 w => exact ⟨fun _ => trivial,fun _ => put_contained sized (htons w) rfl rfl rfl⟩
  | write32 dw => exact ⟨fun _ => trivial,fun _ => put_contained sized (htonl dw) rfl rfl rfl⟩
  | writeString str =>
    have count : (UInt16.ofNat (str.length+1)).toNat = (str.length+1) % 2^16 := UInt16.toNat_ofNat'
    have exactly := long_contained_iff (n := str.length+1) sized (.writeString str) (str ++ [0]) rfl
      (by rw [List.length_append]; exact Nat.le_refl _) rfl rfl
    rw [count] at exactly
    exact exactly
  | writeData pData len =>
    have exactly := long_contained_iff (n := len.toNat) sized (.writeData pData len) (pData.take len.toNat) rfl
      (List.length_take_le _ _) rfl rfl
    exact ⟨fun _ => trivial,fun _ => exactly.mpr id⟩

theorem applied_length {data : List UInt8} {stores : List (Int × List UInt8)}
    (inside : ∀ store ∈ stores, 0 ≤ store.1 ∧ store.1+store.2.length ≤ data.length) : (applied data stores).length = data.length := by
  induction stores generalizing data with
  | nil => rfl
  | cons store rest ih =>
    obtain ⟨low,high⟩ := inside store List.mem_cons_self
    have same : (Block.patch data store.1.toNat store.2).length = data.length := Block.length_patch (by omega)
    have later : ∀ other ∈ rest, 0 ≤ other.1 ∧ other.1+other.2.length ≤ (Block.patch data store.1.toNat store.2).length := by
      intro other member
      rw [same]
      exact inside other (List.mem_cons_of_mem _ member)
    exact (ih later).trans same

theorem writes_onward (p : NetPacket) (call : WriteCall) :
    (p.writes call).maxDataSize = p.maxDataSize ∧ p.cursor ≤ (p.writes call).cursor := by
  have short (w : UInt16) : (p.write16 w).maxDataSize = p.maxDataSize ∧ p.cursor ≤ (p.write16 w).cursor := by
    unfold write16
    split
    · exact ⟨rfl,by dsimp only; omega⟩
    · exact ⟨rfl,Int.le_refl _⟩
  cases call with
  | write8 b =>
    unfold writes write8
    dsimp only
    split
    · exact ⟨rfl,by dsimp only; omega⟩
    · exact ⟨rfl,Int.le_refl _⟩
  | write16 w => exact short w
  | write32 dw =>
    unfold writes write32
    dsimp only
    split
    · exact ⟨rfl,by dsimp only; omega⟩
    · exact ⟨rfl,Int.le_refl _⟩
  | writeString str =>
    obtain ⟨max,moved⟩ := short (UInt16.ofNat (str.length+1))
    unfold writes writeString
    dsimp only
    split
    · exact ⟨max,by dsimp only; omega⟩
    · exact ⟨rfl,Int.le_refl _⟩
  | writeData pData len =>
    obtain ⟨max,moved⟩ := short len
    unfold writes writeData
    dsimp only
    split
    · exact ⟨max,by dsimp only; omega⟩
    · exact ⟨rfl,Int.le_refl _⟩

theorem Contained.sized {call : WriteCall} (contained : Contained p call) (sized : Sized p) : Sized (p.writes call) := by
  obtain ⟨block,low,_⟩ := sized
  obtain ⟨max,onward⟩ := writes_onward p call
  refine ⟨?_,by omega,by rw [max]; exact contained.cursor.2⟩
  rw [writes_applied,applied_length fun store member => block ▸ contained.inside store member,max]
  exact block

inductive WriteStep : NetPacket → WriteCall → NetPacket → Prop where
  | call (p : NetPacket) (call : WriteCall) : WriteStep p call (p.writes call)

-- Any packet from begin() on.
theorem writes_contained_iff {p last : NetPacket} (room : 8 ≤ p.maxDataSize) (block : (p.data.length : Int) = p.maxDataSize)
    (path : Path WriteStep p.begin taken last) :
    (∀ t ∈ taken, Contained t.before t.event) ↔ ∀ t ∈ taken, Counted t.before t.event := by
  refine path.exactly_from Sized (fun before call _ => Contained before call) Counted ⟨block,Int.le_refl _,room⟩ ?_ ?_
  · rintro before call after sized ⟨⟩ contained
    exact contained.sized sized
  · intro before call after sized _
    exact contained_iff sized call

-- A string in a packet of sixteen bytes.
theorem writes_contained_short : Contained (ofSize 16).begin (.writeString [104,105]) :=
  (writes_contained_iff (p := ofSize 16) (by decide) (by decide) (.step .nil (.call _ (.writeString [104,105])))).mpr
    (List.forall_mem_singleton.mpr fun _ => by decide) _ (List.mem_singleton_self _)

-- A string of 65535 characters: its length and the zero make 0 in 16 bits.
theorem writes_uncontained :
    ¬ ∀ (p last : NetPacket) (taken : List (Transition NetPacket WriteCall)), 8 ≤ p.maxDataSize → (p.data.length : Int) = p.maxDataSize →
      Path WriteStep p.begin taken last → ∀ t ∈ taken, Contained t.before t.event := by
  intro claim
  have block : (new.data.length : Int) = new.maxDataSize := congrArg Int.ofNat (List.length_replicate : (List.replicate 2000 (0 : UInt8)).length = 2000)
  have long := claim new _ _ (by decide) block (.step .nil (.call _ (.writeString (List.replicate 65535 1)))) _ (List.mem_singleton_self _)
  have counted := (contained_iff (p := new.begin) ⟨block,by decide,by decide⟩ _).mp long
  have length : (List.replicate 65535 (1 : UInt8)).length = 65535 := List.length_replicate
  unfold Counted at counted
  dsimp only at counted
  rw [length] at counted
  exact absurd (counted (by decide)) (by decide)

end NetPacket
end PcNetwork.Netlib
