import PcNetwork.Session.Fields

namespace PcNetwork
namespace CmdPacket

-- The offsets from m_pReadData that ReadData copies.
def loads (p : CmdPacket) (len : Int) : List Int :=
  if int32 (p.readOffset+len) > p.len then [] else (List.range len.toNat).map fun i : Nat => p.readOffset+i

-- Every offset that a Read call reads or sets. ReadBinary copies the length only, and
-- ReadString sets the last byte besides.
def touches (p : CmdPacket) : ReadOp → List Int
  | .byte => p.loads byteSize
  | .short => p.loads shortSize
  | .long => p.loads longSize
  | .float => p.loads floatSize
  | .binary => p.loads shortSize
  | .string =>
    p.loads shortSize ++
    match p.readBlock with
    | (none,_) => []
    | (some (str,len),_) => [str+len-1]

-- A packet attached to `payload` bytes that are there, read up to some place within them.
-- They are no more than a frame can have.
structure Inside (payload : Int) (p : CmdPacket) : Prop where
  len : p.len = payload
  low : 0 ≤ p.readOffset
  high : p.readOffset ≤ p.len
  memory : payload ≤ p.readData.length
  small : payload < 2^16

-- What is read next and a length that a short can have are still an int.
theorem Inside.sum {n : Int} (inside : Inside payload p) (nonneg : 0 ≤ n) (short : n < 2^15) : int32 (p.readOffset+n) = p.readOffset+n := by
  obtain ⟨len,low,high,_,small⟩ := inside
  exact int32_small (by omega) (by omega)

theorem loads_inside (inside : Inside payload p) {n : Int} (nonneg : 0 ≤ n) (short : n < 2^15) (place : Int) (loaded : place ∈ p.loads n) :
    0 ≤ place ∧ place < payload := by
  have sum := inside.sum nonneg short
  obtain ⟨len,low,high,memory,_⟩ := inside
  unfold loads at loaded
  rw [sum] at loaded
  split at loaded
  · cases loaded
  · obtain ⟨i,member,rfl⟩ := List.mem_map.mp loaded
    have bound := List.mem_range.mp member
    omega

theorem readBytes_inside {n : Int} (inside : Inside payload p) (nonneg : 0 ≤ n) (short : n < 2^15) : Inside payload (p.readBytes n).2 := by
  have sum := inside.sum nonneg short
  obtain ⟨len,low,high,memory,small⟩ := inside
  unfold readBytes
  rw [sum]
  split
  · exact ⟨len,low,high,memory,small⟩
  · exact ⟨len,by dsimp only; omega,by dsimp only; omega,memory,small⟩

theorem readShort_inside (inside : Inside payload p) : Inside payload p.readShort.2 :=
  readBytes_inside inside (by decide) (by decide)

-- What ReadBinary and ReadString check.
theorem readBlock_inside (inside : Inside payload p) :
    Inside payload p.readBlock.2 ∧
    ∀ start len, p.readBlock.1 = some (start,len) → 0 ≤ start ∧ 1 ≤ len ∧ start+len ≤ payload := by
  have after := readShort_inside inside
  unfold readBlock
  generalize p.readShort = r at after
  obtain ⟨_ | n,q⟩ := r
  · exact ⟨after,nofun⟩
  · dsimp only at after ⊢
    split
    · exact ⟨after,nofun⟩
    · rename_i some
      rw [after.sum (by omega) n.toInt_lt]
      obtain ⟨len,low,high,memory,small⟩ := after
      split
      · exact ⟨⟨len,low,high,memory,small⟩,nofun⟩
      · refine ⟨⟨len,by dsimp only; omega,by dsimp only; omega,memory,small⟩,?_⟩
        intro start count found
        cases found
        omega

theorem readString_inside (inside : Inside payload p) :
    Inside payload p.readString.2 ∧
    ∀ str, p.readString.1 = some str →
      ∃ i : Nat, 0 ≤ str ∧ str ≤ i ∧ i < payload ∧ p.readString.2.readData[i]? = some 0 := by
  obtain ⟨after,bounds⟩ := readBlock_inside inside
  unfold readString
  generalize p.readBlock = r at after bounds
  obtain ⟨_ | ⟨start,count⟩,q⟩ := r
  · exact ⟨after,nofun⟩
  · obtain ⟨len,low,high,memory,small⟩ := after
    obtain ⟨first,some,last⟩ := bounds start count rfl
    dsimp only at len low high memory ⊢
    refine ⟨⟨len,low,high,by simpa using memory,small⟩,?_⟩
    intro str found
    cases found
    refine ⟨(start+count-1).toNat,first,by omega,by omega,?_⟩
    exact List.getElem?_set_self (by omega)

theorem read_inside (inside : Inside payload p) (op : ReadOp) : Inside payload (p.read op).2 := by
  cases op with
  | byte => exact readBytes_inside inside (by decide) (by decide)
  | short => exact readBytes_inside inside (by decide) (by decide)
  | long => exact readBytes_inside inside (by decide) (by decide)
  | float => exact readBytes_inside inside (by decide) (by decide)
  | binary => exact (readBlock_inside inside).1
  | string => exact (readString_inside inside).1

theorem readAll_inside (inside : Inside payload p) (ops : List ReadOp) : Inside payload (readAll ops p).2 := by
  induction ops generalizing p with
  | nil => exact inside
  | cons op rest ih => exact ih (read_inside inside op)

theorem touches_inside (inside : Inside payload p) (op : ReadOp) (place : Int) (touched : place ∈ p.touches op) :
    0 ≤ place ∧ place < payload := by
  cases op with
  | byte | short | long | float | binary => exact loads_inside inside (by decide) (by decide) place touched
  | string =>
    rcases List.mem_append.mp touched with loaded | ended
    · exact loads_inside inside (by decide) (by decide) place loaded
    · have bounds := (readBlock_inside inside).2
      generalize p.readBlock = r at ended bounds
      obtain ⟨_ | ⟨start,count⟩,q⟩ := r
      · cases ended
      · obtain ⟨first,some,last⟩ := bounds start count rfl
        cases List.mem_singleton.mp ended
        omega

-- Nothing but zeros is set, so a string that was returned stays terminated.
theorem readBlock_readData (p : CmdPacket) : p.readBlock.2.readData = p.readData := by
  have same : p.readShort.2.readData = p.readData := by
    show (p.readBytes shortSize).2.readData = _
    unfold readBytes
    split <;> rfl
  unfold readBlock
  generalize p.readShort = r at same
  obtain ⟨_ | n,q⟩ := r
  · exact same
  · dsimp only
    split
    · exact same
    · split <;> exact same

theorem read_zero {p : CmdPacket} {i : Nat} (zero : p.readData[i]? = some 0) (op : ReadOp) :
    (p.read op).2.readData[i]? = some 0 := by
  have plain : ∀ n, (p.readBytes n).2.readData[i]? = some 0 := by
    intro n
    unfold readBytes
    split <;> exact zero
  cases op with
  | byte | short | long | float => exact plain _
  | binary =>
    show p.readBlock.2.readData[i]? = some 0
    rw [readBlock_readData]
    exact zero
  | string =>
    have same := readBlock_readData p
    show p.readString.2.readData[i]? = some 0
    unfold readString
    generalize p.readBlock = r at same
    obtain ⟨_ | ⟨start,count⟩,q⟩ := r
    · dsimp only at same ⊢
      rw [same]
      exact zero
    · dsimp only at same ⊢
      have inside : i < p.readData.length := by
        by_contra beyond
        rw [List.getElem?_eq_none (by omega)] at zero
        cases zero
      by_cases ended : (start+count-1).toNat = i
      · rw [same,ended]
        exact List.getElem?_set_self inside
      · rw [same,List.getElem?_set_ne ended]
        exact zero

theorem readAll_zero {p : CmdPacket} {i : Nat} (zero : p.readData[i]? = some 0) (ops : List ReadOp) :
    (readAll ops p).2.readData[i]? = some 0 := by
  induction ops generalizing p with
  | nil => exact zero
  | cons op rest ih => exact ih (read_zero zero op)

end CmdPacket

namespace NetPacket

-- A frame that BeginRead took is whole in the buffer, and decrypting it leaves it so.
theorem beginRead_whole {receiver : NetPacket} {bytes : List UInt8} {len : Int} (given : len ≤ bytes.length)
    (found : (receiver.beginRead bytes len).1 > 0) :
    (receiver.beginRead bytes len).1 = (receiver.beginRead bytes len).2.totalSize ∧
    (receiver.beginRead bytes len).1 ≤ len ∧
    (receiver.beginRead bytes len).2.pktDataSize.toNat ≤ (receiver.beginRead bytes len).2.body.length := by
  revert found
  unfold beginRead netPacketHeadSize
  split
  · intro found
    simp at found
  · split
    · dsimp only
      simp only [List.length_cons] at given
      split
      · intro found
        simp at found
      · split
        · intro found
          simp at found
        · split
          · intro found
            simp at found
          · intro _
            refine ⟨by simp only [totalSize,netPacketHeadSize]; omega,by omega,?_⟩
            simp only [Block.patch,List.length_append,List.length_take]
            omega
    · intro found
      simp at found

theorem attachCmdPacket_inside {p : NetPacket} (whole : p.pktDataSize.toNat ≤ p.body.length) (packet : CmdPacket) :
    CmdPacket.Inside p.pktDataSize.toNat (p.attachCmdPacket packet) :=
  ⟨rfl,Int.le_refl 0,Int.natCast_nonneg _,Int.ofNat_le.mpr whole,Int.ofNat_lt.mpr p.pktDataSize.toNat_lt⟩

end NetPacket

theorem Keys.opened_size (k : Keys) (raw : NetPacket) :
    (k.opened raw).pktDataSize = raw.pktDataSize ∧ (k.opened raw).body.length = raw.body.length := by
  have crypted := NetPacket.length_cryptLoop raw k.seed k.behindSeed k.seedLen raw.pktDataSize.toNat
    netPacketHeadSize.toNat 0 raw.body
  unfold opened NetPacket.decrypt NetPacket.crypt NetPacket.uncompress
  dsimp only
  split <;> split <;> exact ⟨rfl,by first | exact crypted | rfl⟩

namespace NetPacket

-- A packet that was received, as it came or after RecvPacket decrypted it, and any Read
-- calls on it: the next one stays in the payload of the frame.
theorem hostile_reads_inside {receiver : NetPacket} {bytes : List UInt8} {len : Int} (given : len ≤ bytes.length)
    (found : (receiver.beginRead bytes len).1 > 0) (received : NetPacket)
    (comes : received = (receiver.beginRead bytes len).2 ∨ ∃ k : Keys, received = k.opened (receiver.beginRead bytes len).2)
    (packet : CmdPacket) (done : List CmdPacket.ReadOp) (op : CmdPacket.ReadOp) (later : List CmdPacket.ReadOp) :
    let payload := (receiver.beginRead bytes len).1-netPacketHeadSize
    let p := (CmdPacket.readAll done (received.attachCmdPacket packet)).2
    payload = received.pktDataSize.toNat ∧ payload+netPacketHeadSize ≤ len ∧
    p.len = payload ∧ 0 ≤ p.readOffset ∧ p.readOffset ≤ p.len ∧
    (∀ place ∈ p.touches op, 0 ≤ place ∧ place < payload) ∧
    (∀ str, p.readString.1 = some str → ∃ i : Nat, 0 ≤ str ∧ str ≤ i ∧ i < payload ∧
      (CmdPacket.readAll later p.readString.2).2.readData[i]? = some 0) ∧
    (∀ start n, p.readBinary.1 = some (start,n) → 0 ≤ start ∧ 1 ≤ n ∧ start+n ≤ payload) := by
  obtain ⟨total,within,whole⟩ := beginRead_whole given found
  generalize receiver.beginRead bytes len = answer at comes total within whole
  obtain ⟨ret,raw⟩ := answer
  dsimp only [totalSize] at comes total within whole ⊢
  have same : received.pktDataSize = raw.pktDataSize ∧ received.body.length = raw.body.length := by
    rcases comes with rfl | ⟨k,rfl⟩
    · exact ⟨rfl,rfl⟩
    · exact k.opened_size raw
  have payload : ret-netPacketHeadSize = received.pktDataSize.toNat := by
    rw [same.1]
    omega
  rw [payload]
  have start : CmdPacket.Inside received.pktDataSize.toNat (received.attachCmdPacket packet) :=
    attachCmdPacket_inside (by rw [same.1,same.2]; exact whole) packet
  have inside := CmdPacket.readAll_inside start done
  refine ⟨rfl,by omega,inside.len,inside.low,inside.high,CmdPacket.touches_inside inside op,?_,?_⟩
  · intro str read
    obtain ⟨i,low,first,last,zero⟩ := (CmdPacket.readString_inside inside).2 str read
    exact ⟨i,low,first,last,CmdPacket.readAll_zero zero later⟩
  · exact (CmdPacket.readBlock_inside inside).2

-- Three bytes that claim a string of 32767.
theorem hostile_reads_inside_long :
    let bytes : List UInt8 := [80,0,0,3,0,255,127,65]
    let payload := (new.beginRead bytes 8).1-netPacketHeadSize
    let p := (CmdPacket.readAll [.string] ((new.beginRead bytes 8).2.attachCmdPacket CmdPacket.new)).2
    payload = (new.beginRead bytes 8).2.pktDataSize.toNat ∧ payload+netPacketHeadSize ≤ 8 ∧
    p.len = payload ∧ 0 ≤ p.readOffset ∧ p.readOffset ≤ p.len ∧
    (∀ place ∈ p.touches .byte, 0 ≤ place ∧ place < payload) ∧
    (∀ str, p.readString.1 = some str → ∃ i : Nat, 0 ≤ str ∧ str ≤ i ∧ i < payload ∧
      (CmdPacket.readAll [.byte] p.readString.2).2.readData[i]? = some 0) ∧
    (∀ start n, p.readBinary.1 = some (start,n) → 0 ≤ start ∧ 1 ≤ n ∧ start+n ≤ payload) := by
  have found : (new.beginRead [80,0,0,3,0,255,127,65] 8).1 > 0 := by decide
  exact hostile_reads_inside (by decide) found _ (.inl rfl) CmdPacket.new [.string] .byte [.byte]

end NetPacket
end PcNetwork
