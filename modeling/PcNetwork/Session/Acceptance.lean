import PcNetwork.Session.Packets
import PcNetwork.Session.Ticks

namespace PcNetwork
namespace NetPacket

theorem length_cryptLoop (p : NetPacket) (seed : List UInt8) (behind : Nat → UInt8) (len : Int) (fuel i k : Nat)
    (body : List UInt8) : (cryptLoop p seed behind len fuel i k body).length = body.length := by
  induction fuel generalizing i k body with
  | zero => rfl
  | succ fuel ih =>
    unfold cryptLoop
    split
    · exact (ih _ _ _).trans List.length_set
    · rfl

-- A packet as SendPacket makes it: the protocol's flag, and a payload in the buffer.
structure Headed (p : NetPacket) (size : Nat) : Prop where
  flag : p.pktFlag.toInt8.toInt >>> 4 = protocolFlag.toNat
  dataSize : p.pktDataSize.toNat = size
  body : size ≤ p.body.length

theorem Headed.length_bytes (headed : Headed p size) : p.bytes.length = size+5 := by
  have taken : (p.body.take size).length = size := List.length_take_of_le headed.body
  simp only [bytes,headed.dataSize,List.length_cons,List.length_append,Endian.length_ofUInt16,taken]
  omega

-- BeginRead takes such a frame whole, but for the size 0.
theorem beginRead_headed (headed : Headed p size) (most : (size : Int) ≤ maxCmdPacketSize) :
    (new.beginRead p.bytes p.bytes.length).1 = if size = 0 then -1 else (p.bytes.length : Int) := by
  obtain ⟨s0,s1,seq⟩ : ∃ s0 s1, Endian.ofUInt16 p.pktSeq = [s0,s1] := ⟨_,_,rfl⟩
  obtain ⟨d0,d1,count⟩ : ∃ d0 d1, Endian.ofUInt16 p.pktDataSize = [d0,d1] := ⟨_,_,rfl⟩
  have back : Endian.toUInt16 [d0,d1] = p.pktDataSize := by rw [← count,Endian.uint16_roundtrip]
  rw [headed.length_bytes]
  have form : p.bytes = p.pktFlag :: s0 :: s1 :: d0 :: d1 :: p.body.take p.pktDataSize.toNat := by
    rw [bytes,seq,count]
    rfl
  rw [form]
  unfold beginRead netPacketHeadSize
  dsimp only
  rw [if_neg (by omega),if_neg (not_not.mpr headed.flag),back,headed.dataSize]
  by_cases empty : size = 0
  · rw [if_pos (.inl empty),if_pos empty]
  · rw [if_neg (by omega),if_neg empty,if_neg (by omega)]
    rfl

end NetPacket

namespace TcpSession

theorem wire_headed {packet : CmdPacket} (s : TcpSession) (sys : Bool) (writing : packet.Writing) :
    (s.wire packet sys).Headed packet.getDataSize.toNat := by
  obtain ⟨low,most,size⟩ := writing.dataSize
  have bound : maxCmdPacketSize = 16384 := rfl
  obtain ⟨seq,count,body,form⟩ : ∃ seq count body, s.plain packet = ⟨80,seq,count,body⟩ := ⟨_,_,_,rfl⟩
  have count_eq : count = UInt16.ofInt packet.getDataSize := (congrArg NetPacket.pktDataSize form).symm
  have room : packet.getDataSize.toNat ≤ body.length := by
    have patched : body = Block.patch NetPacket.new.body 0 (packet.getData.take (UInt16.ofInt packet.getDataSize).toNat) :=
      (congrArg NetPacket.body form).symm
    have block : NetPacket.new.body.length = 16384 := List.length_replicate
    have short := List.length_take_le (UInt16.ofInt packet.getDataSize).toNat packet.getData
    rw [patched,Block.length_patch (by omega)]
    omega
  have headed : ∀ (flag : UInt8) (later : List UInt8), flag.toInt8.toInt >>> 4 = (protocolFlag.toNat : Int) →
      later.length = body.length → NetPacket.Headed ⟨flag,seq,count,later⟩ packet.getDataSize.toNat :=
    fun flag later nibble same => ⟨nibble,by rw [count_eq]; exact size,by rw [same]; exact room⟩
  have begin : s.wire packet sys =
      if sys then (s.plain packet).setSysPacket
      else
        let pkt := if s.bEncrypt then (s.plain packet).encrypt s.seed s.behindSeed s.seedLen else s.plain packet
        if s.bCompress then pkt.compress.2 else pkt := rfl
  have crypted := NetPacket.length_cryptLoop ⟨80,seq,count,body⟩ s.seed s.behindSeed s.seedLen count.toNat 5 0 body
  have sys80 : (80 : UInt8) ||| flagSystem = 84 := by decide
  have crypt80 : (80 : UInt8) ||| flagEncrypt = 81 := by decide
  have compress80 : (80 : UInt8) ||| flagCompress = 82 := by decide
  have compress81 : (81 : UInt8) ||| flagCompress = 83 := by decide
  rw [begin,form]
  cases sys with
  | true =>
    simp only [if_true,NetPacket.setSysPacket,sys80]
    exact headed 84 body (by decide) rfl
  | false =>
    cases s.bEncrypt with
    | false =>
      cases s.bCompress with
      | false => exact headed 80 body (by decide) rfl
      | true =>
        simp only [Bool.false_eq_true,if_false,if_true,NetPacket.compress,compress80]
        exact headed 82 body (by decide) rfl
    | true =>
      cases s.bCompress with
      | false =>
        simp only [Bool.false_eq_true,if_false,if_true,NetPacket.encrypt,NetPacket.crypt,crypt80]
        exact headed 81 _ (by decide) crypted
      | true =>
        simp only [Bool.false_eq_true,if_false,if_true,NetPacket.encrypt,NetPacket.crypt,NetPacket.compress,crypt80,compress81]
        exact headed 83 _ (by decide) crypted

-- The bytes that SendPacket pushes.
def frame (s : TcpSession) (packet : CmdPacket) (sys : Bool) : List UInt8 := (s.numbered.wire packet sys).bytes

theorem frame_most {packet : CmdPacket} (s : TcpSession) (sys : Bool) (writing : packet.Writing) :
    ((s.frame packet sys).length : Int) ≤ maxNetPacketSize := by
  have length := (wire_headed s.numbered sys writing).length_bytes
  obtain ⟨low,most,_⟩ := writing.dataSize
  unfold frame maxNetPacketSize netPacketHeadSize
  omega

theorem sendPacket_pushes {packet : CmdPacket} (ok : RingOk s) (writing : packet.Writing) (flush sys : Bool)
    (sent : (s.sendPacket packet flush sys).1 = true) :
    (s.sendPacket packet flush sys).2.pushed = s.pushed ++ s.frame packet sys := by
  have live : s.state = .connected := by
    by_contra idle
    rw [sendPacket_idle idle] at sent
    cases sent
  rw [sendPacket_unfold live] at sent ⊢
  rcases pushData_parts (RingOk.same (t := s.numbered) ok rfl).1 (frame_most s sys writing) with
    refused | ⟨w,taken,ring,joined⟩
  · have refused : s.numbered.pushData (s.numbered.wire packet sys).bytes = _ := refused
    rw [refused] at sent
    cases sent
  · have taken : s.numbered.pushData (s.numbered.wire packet sys).bytes = _ := taken
    rw [taken]
    dsimp only
    rw [if_neg nofun]
    have noted : (({s.numbered with toWriteSide := w} : TcpSession).noted packet sys).pushed = s.pushed ++ s.frame packet sys := by
      rw [TcpSession.pushed,TcpSession.pushed,List.append_assoc]
      cases sys <;> exact congrArg (s.socket.accepted ++ ·) joined
    cases flush with
    | false => exact noted
    | true =>
      have same : (({s.numbered with toWriteSide := w} : TcpSession).noted packet sys).toWriteSide = w := by cases sys <;> rfl
      exact (flushData_parts (RingOk.same ring same).1).2.trans noted

-- The receiver takes such a frame: BeginRead reads it whole, and RecvPacket leaves a
-- session alive that finds it.
def Accepted (frame : List UInt8) : Prop :=
  (NetPacket.new.beginRead frame frame.length).1 = frame.length ∧
  ∀ (r : TcpSession) (later : List UInt8), ReadOk r → r.state ≠ .dead → r.unread = frame ++ later →
    r.recvPacket.2.state ≠ .dead

theorem accepted_whole {frame : List UInt8} (whole : (NetPacket.new.beginRead frame frame.length).1 = frame.length)
    (some : frame ≠ []) : Accepted frame := by
  refine ⟨whole,?_⟩
  intro r later ok alive unread
  have positive := List.length_pos_of_ne_nil some
  rcases recvPacket_parts ok with ⟨_,none⟩ | ⟨bad,_⟩ | ⟨raw,n,_,_,_,took⟩
  · rw [none]
    exact alive
  · have refused : (NetPacket.new.beginRead r.unread r.unread.length).1 < 0 := nextFrame_bad bad
    rw [unread,NetPacket.beginRead_final later (by rw [whole]; omega),whole] at refused
    omega
  · rw [took]
    exact alive

-- A packet that SendPacket took goes into the ring as one frame, and the receiver takes
-- the frame exactly if there is something in the packet.
theorem sendPacket_accepted {packet : CmdPacket} (written : packet.Written) (flush sys : Bool)
    (sent : (s.sendPacket packet flush sys).1 = true) :
    (RingOk s → (s.sendPacket packet flush sys).2.pushed = s.pushed ++ s.frame packet sys) ∧
    (Accepted (s.frame packet sys) ↔ packet.getDataSize ≠ 0) := by
  have writing := written.writing
  obtain ⟨low,most,_⟩ := writing.dataSize
  have headed := wire_headed s.numbered sys writing
  have answer : (NetPacket.new.beginRead (s.frame packet sys) (s.frame packet sys).length).1 =
    if packet.getDataSize.toNat = 0 then -1 else ((s.frame packet sys).length : Int) :=
    NetPacket.beginRead_headed headed (by omega)
  refine ⟨fun ok => sendPacket_pushes ok writing flush sys sent,?_⟩
  constructor
  · intro accepted empty
    rw [if_pos (by omega),accepted.1] at answer
    omega
  · intro some
    rw [if_neg (by omega)] at answer
    refine accepted_whole answer fun empty => ?_
    have length : (s.frame packet sys).length = _ := headed.length_bytes
    rw [empty] at length
    cases length

theorem sendPacket_accepted_byte :
    Accepted (new.attach.frame (CmdPacket.new.beginWrite.write (.byte 7)) false) := by
  have written : (CmdPacket.new.beginWrite.write (.byte 7)).Written := by
    refine ⟨CmdPacket.new,[.byte 7],CmdPacket.new_sized,?_,rfl⟩
    intro op member
    cases List.mem_singleton.mp member
    trivial
  exact ((sendPacket_accepted (s := new.attach) written false false rfl).2).mpr nofun

-- A packet into which nothing was written.
theorem sendPacket_unacceptable :
    ¬ ∀ (s : TcpSession) (packet : CmdPacket) (flush sys : Bool), packet.Written →
      (s.sendPacket packet flush sys).1 = true → Accepted (s.frame packet sys) := by
  intro accepted
  have written : CmdPacket.new.beginWrite.Written := ⟨CmdPacket.new,[],CmdPacket.new_sized,nofun,rfl⟩
  have whole := (accepted new.attach _ false false written rfl).1
  exact absurd whole (by decide)

end TcpSession
end PcNetwork
