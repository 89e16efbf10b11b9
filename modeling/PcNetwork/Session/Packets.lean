import PcNetwork.Session.Effects
import PcNetwork.Session.Frames
import PcNetwork.Session.Crypt

namespace PcNetwork
namespace CmdPacket

-- A packet with the block SetSize gave it, between BeginWrite and SendPacket.
structure Writing (p : CmdPacket) : Prop where
  len_nonneg : 0 ≤ p.len
  offset : p.writeOffset = p.len
  len_le : p.len ≤ p.maxSize
  size_le : p.maxSize ≤ maxCmdPacketSize
  block : (p.data.length : Int) = p.maxSize

-- A packet that has its block, whatever was written to it before.
structure Sized (p : CmdPacket) : Prop where
  nonneg : 0 ≤ p.maxSize
  size_le : p.maxSize ≤ maxCmdPacketSize
  block : (p.data.length : Int) = p.maxSize

theorem new_sized : Sized new :=
  ⟨by decide,by decide,congrArg Int.ofNat (List.length_replicate : (List.replicate 1024 (0 : UInt8)).length = 1024)⟩

theorem setSize_sized {n : Int} (p : CmdPacket) (nonneg : 0 ≤ n) (fits : n ≤ maxCmdPacketSize) : Sized (p.setSize n).2 := by
  unfold setSize
  rw [if_neg (Int.not_lt.mpr fits)]
  exact ⟨nonneg,fits,by simp [nonneg]⟩

theorem Sized.writing (sized : Sized p) : Writing p.beginWrite :=
  ⟨Int.le_refl 0,rfl,sized.nonneg,sized.size_le,sized.block⟩

theorem setSize_writing {n : Int} (p : CmdPacket) (nonneg : 0 ≤ n) (fits : n ≤ maxCmdPacketSize) :
    Writing (p.setSize n).2.beginWrite := (setSize_sized p nonneg fits).writing

theorem Writing.length_content (writing : Writing p) : (p.content.length : Int) = p.getDataSize := by
  obtain ⟨nonneg,_,len,_,block⟩ := writing
  unfold content getData getDataSize
  rw [List.length_take,Nat.min_eq_left (by omega)]
  exact Int.toNat_of_nonneg nonneg

-- Its size is one that the frame's header can hold.
theorem Writing.dataSize (writing : Writing p) : 0 ≤ p.getDataSize ∧ p.getDataSize ≤ maxCmdPacketSize ∧
    (UInt16.ofInt p.getDataSize).toNat = p.getDataSize.toNat := by
  have low : 0 ≤ p.getDataSize := writing.len_nonneg
  have most : p.getDataSize ≤ maxCmdPacketSize := Int.le_trans writing.len_le writing.size_le
  have bound : maxCmdPacketSize = 16384 := rfl
  refine ⟨low,most,?_⟩
  rw [UInt16.ofInt,UInt16.toNat_ofNat']
  omega

-- What a packet holds and n more are still an int.
theorem Writing.sum {n : Int} (writing : Writing p) (nonneg : 0 ≤ n) (small : maxCmdPacketSize+n < 2^31) :
    int32 (p.len+n) = p.len+n := by
  have low := writing.len_nonneg
  have most := Int.le_trans writing.len_le writing.size_le
  exact int32_small (by omega) (by omega)

theorem writeData_writing {data : List UInt8} (writing : Writing p) (count : (data.length : Int) = n)
    (small : maxCmdPacketSize+n < 2^31) :
    Writing (p.writeData data n).2 ∧
    (p.len+n ≤ p.maxSize → (p.writeData data n).1 = true ∧ (p.writeData data n).2.content = p.content ++ data ∧
      (p.writeData data n).2.maxSize = p.maxSize ∧ (p.writeData data n).2.len = p.len+n) := by
  have sum := writing.sum (by omega) small
  obtain ⟨nonneg,offset,len,size,block⟩ := writing
  have whole : data.take n.toNat = data := List.take_of_length_le (by omega)
  unfold writeData
  rw [offset,sum]
  by_cases room : p.len+n > p.maxSize
  · rw [if_pos room]
    exact ⟨⟨nonneg,offset,len,size,block⟩,fun fits => absurd fits (by omega)⟩
  · rw [if_neg room,whole]
    have fits : p.len.toNat+data.length ≤ p.data.length := by omega
    refine ⟨⟨?_,rfl,?_,size,?_⟩,fun _ => ⟨rfl,?_,rfl,rfl⟩⟩
    · simp only; omega
    · simp only; omega
    · simp only [Block.length_patch fits]; exact block
    · have within : 0+p.len.toNat+data.length ≤ p.data.length := by omega
      have grown := Block.slice_patch_extend within
      simp only [content,getData,getDataSize]
      rw [show (p.len+n).toNat = p.len.toNat+data.length by omega]
      rwa [Nat.zero_add] at grown

theorem writeShort_writing (writing : Writing p) (value : Int16) : Writing (p.writeShort value).2 :=
  (writeData_writing writing (by simp [shortSize]) (by decide)).1

-- The Write calls of the application.
inductive WriteOp where
  | byte (c : UInt8)
  | short (s : Int16)
  | long (l : Int32)
  | float (f : UInt32)
  | binary (data : List UInt8)
  | string (str : List UInt8)

-- No count that memcpy gets is negative, and every sum of WriteData is an int: WriteString
-- counts in a short, and WriteBinary gets a count of its caller's.
def WriteOp.copies : WriteOp → Prop
  | .string str => 0 ≤ (Int16.ofInt (str.length+1)).toInt
  | .binary data => maxCmdPacketSize+data.length < 2^31
  | .byte _ | .short _ | .long _ | .float _ => True

def write (p : CmdPacket) : WriteOp → CmdPacket
  | .byte c => (p.writeByte c).2
  | .short s => (p.writeShort s).2
  | .long l => (p.writeLong l).2
  | .float f => (p.writeFloat f).2
  | .binary data => (p.writeBinary data data.length).2
  | .string str => (p.writeString str).2

theorem writeData_take (p : CmdPacket) (data : List UInt8) (n : Int) :
    p.writeData data n = p.writeData (data.take n.toNat) n := by
  unfold writeData
  rw [List.take_take,Nat.min_self]

theorem write_writing (writing : Writing p) {op : WriteOp} (copies : op.copies) : Writing (p.write op) := by
  cases op with
  | byte c => exact (writeData_writing writing rfl (by simp [maxCmdPacketSize])).1
  | short s => exact writeShort_writing writing s
  | long l => exact (writeData_writing writing (by simp [longSize]) (by decide)).1
  | float f => exact (writeData_writing writing (by simp [floatSize]) (by decide)).1
  | binary data =>
    have first := writeShort_writing writing (Int16.ofInt data.length)
    unfold write writeBinary
    dsimp only
    split
    · exact first
    · exact (writeData_writing first rfl copies).1
  | string str =>
    have first := writeShort_writing writing (Int16.ofInt (str.length+1))
    have most : (Int16.ofInt (str.length+1)).toInt ≤ str.length+1 := by
      rw [Int16.toInt_ofInt,Int.bmod_def]
      unfold Int16.size
      split <;> omega
    have low : 0 ≤ (Int16.ofInt (str.length+1)).toInt := copies
    have high := (Int16.ofInt (str.length+1)).toInt_lt
    have count : ((str ++ [0]).take (Int16.ofInt (str.length+1)).toInt.toNat).length = (Int16.ofInt (str.length+1)).toInt := by
      rw [List.length_take,List.length_append,List.length_singleton]
      omega
    unfold write writeString
    dsimp only
    split
    · exact first
    · rw [writeData_take]
      exact (writeData_writing first count (by unfold maxCmdPacketSize; omega)).1

-- BeginWrite and Write calls, some of which may have been refused.
def Written (p : CmdPacket) : Prop :=
  ∃ (blank : CmdPacket) (ops : List WriteOp), Sized blank ∧ (∀ op ∈ ops, op.copies) ∧ p = ops.foldl write blank.beginWrite

theorem Written.writing (written : Written p) : Writing p := by
  obtain ⟨blank,ops,sized,copies,rfl⟩ := written
  have start := sized.writing
  generalize blank.beginWrite = first at start
  induction ops generalizing first with
  | nil => exact start
  | cons op rest ih =>
    exact ih (fun o member => copies o (List.mem_cons_of_mem _ member)) _ (write_writing start (copies op List.mem_cons_self))

-- A user packet: what was written, and something in it.
structure Built (p : CmdPacket) : Prop where
  written : Written p
  some : 1 ≤ p.getDataSize

theorem Built.writing (built : Built p) : Writing p := built.written.writing

end CmdPacket

namespace NetPacket

-- A packet as it is on the wire: the payload at the front of a zeroed buffer.
structure Framed (p : NetPacket) (payload : List UInt8) : Prop where
  flag : p.pktFlag.toInt8.toInt >>> 4 = protocolFlag.toNat
  size : p.pktDataSize.toNat = payload.length
  some : 1 ≤ payload.length
  fits : payload.length ≤ maxCmdPacketSize
  body : p.body = Block.patch new.body 0 payload

theorem Framed.take_body (framed : Framed p payload) : p.body.take p.pktDataSize.toNat = payload := by
  have fits : 0+payload.length ≤ new.body.length := by
    have := framed.fits
    simp only [new,List.length_replicate]
    omega
  rw [framed.size,framed.body]
  exact Block.slice_patch_same fits

-- What BeginRead finds in the bytes of a packet is the packet.
theorem next_bytes (framed : Framed p payload) (later : List UInt8) :
    frames.next (p.bytes ++ later) = .frame p later := by
  obtain ⟨s0,s1,seq⟩ : ∃ s0 s1, Endian.ofUInt16 p.pktSeq = [s0,s1] := ⟨_,_,rfl⟩
  obtain ⟨d0,d1,size⟩ : ∃ d0 d1, Endian.ofUInt16 p.pktDataSize = [d0,d1] := ⟨_,_,rfl⟩
  have seqBack : Endian.toUInt16 [s0,s1] = p.pktSeq := by rw [← seq,Endian.uint16_roundtrip]
  have sizeBack : Endian.toUInt16 [d0,d1] = p.pktDataSize := by rw [← size,Endian.uint16_roundtrip]
  have some := framed.some
  have fits := framed.fits
  have content : p.bytes ++ later = p.pktFlag :: s0 :: s1 :: d0 :: d1 :: (payload ++ later) := by
    rw [bytes,seq,size,framed.take_body]
    rfl
  have found : new.beginRead (p.bytes ++ later) (p.bytes ++ later).length = ((payload.length : Int)+5,p) := by
    rw [content]
    unfold beginRead
    simp only [netPacketHeadSize,List.length_cons,List.length_append,sizeBack,seqBack,framed.size]
    rw [if_neg (by omega),if_neg (not_not.mpr framed.flag),if_neg (by omega),if_neg (by omega),
      List.take_left' rfl,← framed.body]
  show nextFrame (p.bytes ++ later) = .frame p later
  unfold nextFrame
  rw [found]
  dsimp only
  rw [if_pos (by omega),show ((payload.length : Int)+5).toNat = payload.length+5 by omega,content]
  simp only [List.drop_succ_cons,List.drop_left' rfl]

theorem Framed.length_bytes (framed : Framed p payload) : p.bytes.length = payload.length+5 := by
  unfold bytes
  rw [framed.take_body]
  simp only [List.length_cons,List.length_append,Endian.length_ofUInt16]
  omega

theorem framed_readable (framed : Framed p payload) (packet : CmdPacket) :
    (p.attachCmdPacket packet).readable = payload := framed.take_body

theorem crypted_append (seed : List UInt8) {size : Nat} {front : List UInt8} (behind : List UInt8)
    (within : size ≤ front.length) : crypted seed size (front ++ behind) 0 = crypted seed size front 0 ++ behind := by
  unfold crypted
  rw [List.mapIdx_append]
  congr 1
  apply List.ext_getElem?
  intro j
  have outside : ∀ b : UInt8, (if 0 ≤ j+front.length ∧ j+front.length+5 < size then
      b ^^^ seed.getD ((j+front.length) % 16) 0 else b) = b := fun b => if_neg (by omega)
  simp only [List.getElem?_mapIdx,outside,Option.map_id']

-- The key covers the payload only.
theorem Framed.crypted (framed : Framed p payload) (seed : List UInt8) :
    Framed {p with body := NetPacket.crypted seed p.pktDataSize.toNat p.body 0}
      (NetPacket.crypted seed p.pktDataSize.toNat payload 0) := by
  have length : (NetPacket.crypted seed p.pktDataSize.toNat payload 0).length = payload.length := List.length_mapIdx
  refine ⟨framed.flag,framed.size.trans length.symm,by rw [length]; exact framed.some,by rw [length]; exact framed.fits,?_⟩
  dsimp only
  rw [framed.body]
  unfold Block.patch
  rw [List.take_zero,List.nil_append,List.nil_append,crypted_append _ _ (Nat.le_of_eq framed.size),length]

end NetPacket

-- The keys both sides hold after SetSeed(seed), whatever else they held before.
structure Keys.Agreed (k : Keys) (seed : Int32) : Prop where
  bEncrypt : k.bEncrypt = decide (seed ≠ 0)
  seedLen : seed ≠ 0 → k.seedLen = 16
  bytes : seed ≠ 0 → k.seed = Keys.setSeedLoop maxNetSeedSize seed

theorem Keys.setSeed_agreed (k : Keys) (seed : Int32) : (k.setSeed seed).Agreed seed := by
  unfold Keys.setSeed
  by_cases zero : seed = 0
  · rw [if_pos zero]
    exact ⟨by simp [zero],fun some => absurd zero some,fun some => absurd zero some⟩
  · rw [if_neg zero]
    exact ⟨by simp [zero],fun _ => rfl,fun _ => rfl⟩

namespace TcpSession

-- The packet before it is encrypted and marked as compressed.
def plain (s : TcpSession) (packet : CmdPacket) : NetPacket := (NetPacket.new.addCmdPacket packet).setSeq s.seq

theorem plain_framed {packet : CmdPacket} (s : TcpSession) (writing : packet.Writing) (some : 1 ≤ packet.getDataSize) :
    (s.plain packet).Framed packet.content := by
  have count := writing.length_content
  obtain ⟨_,most,held⟩ := writing.dataSize
  have size : (UInt16.ofInt packet.getDataSize).toNat = packet.content.length := by omega
  refine ⟨(by decide : (80 : UInt8).toInt8.toInt >>> 4 = protocolFlag.toNat),size,by omega,by omega,?_⟩
  simp only [plain,NetPacket.addCmdPacket,NetPacket.setSeq,size]
  unfold CmdPacket.content
  congr 1
  exact List.take_eq_take_iff.mpr (by rw [List.length_take]; omega)

-- A user packet on the wire: a frame that is no system packet, and that gives the
-- payload back to whoever holds the keys.
structure UserItem (seed : Int32) (item : NetPacket × List UInt8) : Prop where
  framed : ∃ bytes, item.1.Framed bytes
  user : item.1.isSysPacket = false
  opened : ∀ k : Keys, k.Agreed seed → ((k.opened item.1).attachCmdPacket recvCmdPkt).readable = item.2

-- The four headers a user packet can have, and what opening does to each.
theorem opened_clear (k : Keys) (seq size : UInt16) (body : List UInt8) :
    k.opened ⟨80,seq,size,body⟩ = ⟨80,seq,size,body⟩ ∧ k.opened ⟨82,seq,size,body⟩ = ⟨80,seq,size,body⟩ := by
  have e80 : ((80 : UInt8) &&& flagEncrypt != 0) = false := by decide
  have e82 : ((82 : UInt8) &&& flagEncrypt != 0) = false := by decide
  have c80 : ((80 : UInt8) &&& flagCompress != 0) = false := by decide
  have c82 : ((82 : UInt8) &&& flagCompress != 0) = true := by decide
  have back : (82 : UInt8) &&& ~~~flagCompress = 80 := by decide
  constructor
  · simp [Keys.opened,NetPacket.isEncrypt,NetPacket.isCompress,e80,c80]
  · simp [Keys.opened,NetPacket.isEncrypt,NetPacket.isCompress,NetPacket.uncompress,e82,c82,back]

theorem opened_crypted {k : Keys} (full : k.seedLen = 16) (seq size : UInt16) (body : List UInt8) :
    k.opened ⟨81,seq,size,NetPacket.crypted k.seed size.toNat body 0⟩ = ⟨80,seq,size,body⟩ ∧
    k.opened ⟨83,seq,size,NetPacket.crypted k.seed size.toNat body 0⟩ = ⟨80,seq,size,body⟩ := by
  have e81 : ((81 : UInt8) &&& flagEncrypt != 0) = true := by decide
  have e83 : ((83 : UInt8) &&& flagEncrypt != 0) = true := by decide
  have c80 : ((80 : UInt8) &&& flagCompress != 0) = false := by decide
  have c82 : ((82 : UInt8) &&& flagCompress != 0) = true := by decide
  have d81 : (81 : UInt8) &&& ~~~flagEncrypt = 80 := by decide
  have d83 : (83 : UInt8) &&& ~~~flagEncrypt = 82 := by decide
  have back : (82 : UInt8) &&& ~~~flagCompress = 80 := by decide
  constructor
  · simp [Keys.opened,NetPacket.isEncrypt,NetPacket.isCompress,NetPacket.decrypt,NetPacket.crypt_full full,
      NetPacket.crypted_twice,e81,c80,d81]
  · simp [Keys.opened,NetPacket.isEncrypt,NetPacket.isCompress,NetPacket.decrypt,NetPacket.crypt_full full,
      NetPacket.crypted_twice,NetPacket.uncompress,e83,c82,d83,back]

theorem wire_user {s : TcpSession} {packet : CmdPacket} (agreed : s.toKeys.Agreed seed) (built : packet.Built) :
    UserItem seed (s.wire packet false,packet.content) := by
  have framed := plain_framed s built.writing built.some
  obtain ⟨seq,size,body,form⟩ : ∃ seq size body, s.plain packet = ⟨80,seq,size,body⟩ := ⟨_,_,_,rfl⟩
  rw [form] at framed
  have readable : (NetPacket.attachCmdPacket ⟨80,seq,size,body⟩ recvCmdPkt).readable = packet.content :=
    NetPacket.framed_readable framed _
  have item : ∀ (flag : UInt8) (payload body' : List UInt8), NetPacket.Framed ⟨80,seq,size,body'⟩ payload →
      flag.toInt8.toInt >>> 4 = (protocolFlag.toNat : Int) → (flag &&& flagSystem != 0) = false →
      (∀ k : Keys, k.Agreed seed → k.opened ⟨flag,seq,size,body'⟩ = ⟨80,seq,size,body⟩) →
      UserItem seed (⟨flag,seq,size,body'⟩,packet.content) := by
    intro flag payload body' framed nibble user opens
    refine ⟨⟨payload,nibble,framed.size,framed.some,framed.fits,framed.body⟩,user,fun k agreed => ?_⟩
    rw [opens k agreed]
    exact readable
  have begin : s.wire packet false =
      let pkt := if s.bEncrypt then (s.plain packet).encrypt s.seed s.behindSeed s.seedLen else s.plain packet
      if s.bCompress then pkt.compress.2 else pkt := rfl
  have e80 : (80 : UInt8) ||| flagEncrypt = 81 := by decide
  have c80 : (80 : UInt8) ||| flagCompress = 82 := by decide
  have c81 : (81 : UInt8) ||| flagCompress = 83 := by decide
  by_cases zero : seed = 0
  · have clear : s.bEncrypt = false := agreed.bEncrypt.trans (by simp [zero])
    cases compress : s.bCompress with
    | false =>
      have wire : s.wire packet false = ⟨80,seq,size,body⟩ := by rw [begin,form]; simp [clear,compress]
      rw [wire]
      exact item 80 _ _ framed (by decide) (by decide) fun k _ => (opened_clear k seq size body).1
    | true =>
      have wire : s.wire packet false = ⟨82,seq,size,body⟩ := by
        rw [begin,form]; simp [clear,compress,NetPacket.compress,c80]
      rw [wire]
      exact item 82 _ _ framed (by decide) (by decide) fun k _ => (opened_clear k seq size body).2
  · have secret : s.bEncrypt = true := agreed.bEncrypt.trans (by simp [zero])
    have full := agreed.seedLen zero
    have same : ∀ k : Keys, k.Agreed seed → k.seed = s.seed := fun k other =>
      (other.bytes zero).trans (agreed.bytes zero).symm
    have covered := framed.crypted s.seed
    cases compress : s.bCompress with
    | false =>
      have wire : s.wire packet false = ⟨81,seq,size,NetPacket.crypted s.seed size.toNat body 0⟩ := by
        rw [begin,form]; simp [secret,compress,NetPacket.encrypt,NetPacket.crypt_full full,e80]
      rw [wire]
      refine item 81 _ _ covered (by decide) (by decide) fun k other => ?_
      rw [← same k other]
      exact (opened_crypted (other.seedLen zero) seq size body).1
    | true =>
      have wire : s.wire packet false = ⟨83,seq,size,NetPacket.crypted s.seed size.toNat body 0⟩ := by
        rw [begin,form]; simp [secret,compress,NetPacket.encrypt,NetPacket.compress,NetPacket.crypt_full full,e80,c81]
      rw [wire]
      refine item 83 _ _ covered (by decide) (by decide) fun k other => ?_
      rw [← same k other]
      exact (opened_crypted (other.seedLen zero) seq size body).2

theorem sysPacket_parts (type : Int16) (param : Int32) :
    (sysPacket type param).Writing ∧ (sysPacket type param).getDataSize = 6 ∧
    (sysPacket type param).content = Endian.ofInt16 type ++ Endian.ofInt32 param := by
  have start := CmdPacket.setSize_writing CmdPacket.new (by decide : (0 : Int) ≤ maxCmdPacketSize) (Int.le_refl _)
  obtain ⟨first,room⟩ := CmdPacket.writeData_writing start (by simp [shortSize] : ((Endian.ofInt16 type).length : Int) = shortSize)
    (by decide)
  obtain ⟨_,content,size,len⟩ := room (by decide)
  obtain ⟨second,room⟩ := CmdPacket.writeData_writing first (by simp [longSize] : ((Endian.ofInt32 param).length : Int) = longSize)
    (by decide)
  obtain ⟨_,content',_,len'⟩ := room (by rw [size,len]; decide)
  refine ⟨second,?_,?_⟩
  · refine len'.trans ?_
    rw [len]
    rfl
  · refine content'.trans ?_
    rw [content]
    rfl

-- The seed packet on the wire: a frame in clear that HandleSysPacket reads the seed from.
structure SeedItem (seed : Int32) (p : NetPacket) : Prop where
  framed : p.Framed (Endian.ofInt16 sysPacketSetSeed ++ Endian.ofInt32 seed)
  sys : p.isSysPacket = true
  opened : ∀ k : Keys, seedParam ((k.opened p).attachCmdPacket recvCmdPkt) = some seed

theorem seedParam_content {packet : CmdPacket} (first : packet.readOffset = 0) (len : packet.len = 6)
    (content : packet.readData.take 6 = Endian.ofInt16 sysPacketSetSeed ++ Endian.ofInt32 seed) :
    seedParam packet = some seed := by
  have short : Block.slice packet.readData 0 2 = Endian.ofInt16 sysPacketSetSeed := by
    rw [← Block.take_slice packet.readData 0 6 2 (by decide)]
    exact (congrArg (List.take 2) content).trans (List.take_left' (Endian.length_ofInt16 _))
  have long : Block.slice packet.readData 2 4 = Endian.ofInt32 seed := by
    rw [show (2 : Nat) = 0+2 from rfl,← Block.drop_slice packet.readData 0 6 2]
    exact (congrArg (List.drop 2) content).trans (List.drop_left' (Endian.length_ofInt16 _))
  have readsShort : packet.readShort = (some sysPacketSetSeed,{packet with readOffset := 2}) := by
    unfold CmdPacket.readShort CmdPacket.readBytes
    rw [first,len,if_neg (by decide)]
    simp only [Int.toNat_zero,shortSize,show (2 : Int).toNat = 2 from rfl,short,Option.map_some,Endian.int16_roundtrip]
    rfl
  unfold seedParam
  rw [readsShort]
  dsimp only
  rw [if_pos rfl]
  unfold CmdPacket.readLong CmdPacket.readBytes
  dsimp only
  rw [len,if_neg (by decide)]
  simp only [longSize,show (2 : Int).toNat = 2 from rfl,show (4 : Int).toNat = 4 from rfl,long,Option.map_some,
    Endian.int32_roundtrip]

theorem wire_seed (s : TcpSession) (seed : Int32) : SeedItem seed (s.wire (sysPacket sysPacketSetSeed seed) true) := by
  obtain ⟨writing,size,content⟩ := sysPacket_parts sysPacketSetSeed seed
  have framed := plain_framed s writing (by omega)
  obtain ⟨seq,count,body,form⟩ : ∃ seq count body, s.plain (sysPacket sysPacketSetSeed seed) = ⟨80,seq,count,body⟩ :=
    ⟨_,_,_,rfl⟩
  rw [form,content] at framed
  have wire : s.wire (sysPacket sysPacketSetSeed seed) true = ⟨84,seq,count,body⟩ := by
    have marked : (80 : UInt8) ||| flagSystem = 84 := by decide
    have begin : s.wire (sysPacket sysPacketSetSeed seed) true = (s.plain (sysPacket sysPacketSetSeed seed)).setSysPacket := rfl
    rw [begin,form,NetPacket.setSysPacket,marked]
  have e84 : ((84 : UInt8) &&& flagEncrypt != 0) = false := by decide
  have c84 : ((84 : UInt8) &&& flagCompress != 0) = false := by decide
  have opened : ∀ k : Keys, k.opened ⟨84,seq,count,body⟩ = ⟨84,seq,count,body⟩ := fun k => by
    simp [Keys.opened,NetPacket.isEncrypt,NetPacket.isCompress,e84,c84]
  have six : count.toNat = 6 := framed.size
  have nibble : (84 : UInt8).toInt8.toInt >>> 4 = (protocolFlag.toNat : Int) := by decide
  have sys : ((84 : UInt8) &&& flagSystem != 0) = true := by decide
  rw [wire]
  refine ⟨⟨nibble,framed.size,framed.some,framed.fits,framed.body⟩,sys,fun k => ?_⟩
  rw [opened]
  refine seedParam_content rfl (congrArg Int.ofNat six) ?_
  have payload := framed.take_body
  simp only [six] at payload
  exact payload

end TcpSession
end PcNetwork
