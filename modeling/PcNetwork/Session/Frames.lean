import PcNetwork.Session.TcpSession
import PcNetwork.Library.Framing
import Mathlib.Tactic.Common

namespace PcNetwork
namespace NetPacket

-- Nothing behind the first len bytes is looked at.
theorem beginRead_take {p : List UInt8} {len : Int} (packet : NetPacket) (nonneg : 0 ≤ len) :
    packet.beginRead p len = packet.beginRead (p.take len.toNat) len := by
  unfold beginRead netPacketHeadSize
  by_cases short : len < 5
  · rw [if_pos short,if_pos short]
  · rw [if_neg short,if_neg short]
    obtain ⟨n,rfl⟩ : ∃ n : Nat, len = n+5 := ⟨(len-5).toNat,by omega⟩
    rw [show ((n : Int)+5).toNat = n+5 by omega]
    rcases p with _ | ⟨flag,_ | ⟨s0,_ | ⟨s1,_ | ⟨d0,_ | ⟨d1,rest⟩⟩⟩⟩⟩
    all_goals try rfl
    simp only [List.take_succ_cons]
    split
    · rfl
    · split
      · rfl
      · split
        · rfl
        · rename_i whole
          rw [List.take_take,Nat.min_eq_left (by omega)]

-- A frame that was found is as long as its header says and lies within the bytes.
theorem beginRead_found {packet : NetPacket} {bytes : List UInt8} (found : (packet.beginRead bytes bytes.length).1 > 0) :
    (packet.beginRead bytes bytes.length).1 = (packet.beginRead bytes bytes.length).2.totalSize ∧
    (packet.beginRead bytes bytes.length).1 ≤ bytes.length := by
  revert found
  unfold beginRead netPacketHeadSize
  split
  · intro found; simp at found
  · split
    · dsimp only
      split
      · intro found; simp at found
      · split
        · intro found; simp at found
        · split
          · intro found; simp at found
          · rename_i whole
            intro _
            exact ⟨by simp only [totalSize,netPacketHeadSize]; omega,by omega⟩
    · intro found; simp at found

-- A verdict other than 0 stands, whatever arrives behind the bytes.
theorem beginRead_final {packet : NetPacket} {bytes : List UInt8} (later : List UInt8)
    (answered : (packet.beginRead bytes bytes.length).1 ≠ 0) :
    packet.beginRead (bytes ++ later) (bytes ++ later).length = packet.beginRead bytes bytes.length := by
  revert answered
  unfold beginRead netPacketHeadSize
  by_cases short : (bytes.length : Int) < 5
  · rw [if_pos short]
    intro answered
    exact absurd rfl answered
  · have long : ¬ ((bytes ++ later).length : Int) < 5 := by simp only [List.length_append]; omega
    rw [if_neg short,if_neg long]
    rcases bytes with _ | ⟨flag,_ | ⟨s0,_ | ⟨s1,_ | ⟨d0,_ | ⟨d1,rest⟩⟩⟩⟩⟩
    all_goals try (simp only [List.length_cons,List.length_nil] at short; omega)
    simp only [List.cons_append]
    split
    · simp
    · split
      · simp
      · split
        · simp
        · rename_i whole
          intro _
          have inside : (Endian.toUInt16 [d0,d1]).toNat ≤ rest.length := by
            simp only [List.length_cons] at whole; omega
          rw [if_neg (by simp only [List.length_cons,List.length_append] at whole ⊢; omega),
            List.take_append_of_le_length inside]

end NetPacket

-- BeginRead as a framing of the byte stream.
def nextFrame (bytes : List UInt8) : Verdict UInt8 NetPacket :=
  let (ret,packet) := NetPacket.new.beginRead bytes bytes.length
  if ret > 0 then .frame packet (bytes.drop ret.toNat)
  else if ret = 0 then .more
  else .bad

theorem nextFrame_frame (found : nextFrame bytes = .frame raw rest) :
    ∃ n : Nat, 0 < n ∧ n ≤ bytes.length ∧ rest = bytes.drop n ∧
      NetPacket.new.beginRead bytes bytes.length = ((n : Int),raw) := by
  unfold nextFrame at found
  dsimp only at found
  by_cases positive : (NetPacket.new.beginRead bytes bytes.length).1 > 0
  · have bound := (NetPacket.beginRead_found positive).2
    simp only [if_pos positive,Verdict.frame.injEq] at found
    exact ⟨_,by omega,by omega,found.2.symm,Prod.ext (Int.toNat_of_nonneg (by omega)).symm found.1⟩
  · simp only [if_neg positive] at found
    split at found <;> cases found

theorem nextFrame_bad (found : nextFrame bytes = .bad) : (NetPacket.new.beginRead bytes bytes.length).1 < 0 := by
  unfold nextFrame at found
  by_cases positive : (NetPacket.new.beginRead bytes bytes.length).1 > 0
  · simp [if_pos positive] at found
  · simp only [if_neg positive] at found
    split at found
    · cases found
    · omega

def frames : Framing UInt8 NetPacket where
  next := nextFrame
  next_nil := rfl
  consumes found := by
    obtain ⟨n,positive,bound,rfl,_⟩ := nextFrame_frame found
    rw [List.length_drop]; omega
  frame_final later found := by
    obtain ⟨n,positive,bound,rfl,answer⟩ := nextFrame_frame found
    have same := NetPacket.beginRead_final later (by rw [answer]; dsimp only; omega)
    unfold nextFrame
    rw [same,answer]
    simp only [if_pos (by omega : (n : Int) > 0),Int.toNat_natCast,List.drop_append_of_le_length bound]
  bad_final later found := by
    have answer := nextFrame_bad found
    unfold nextFrame
    rw [NetPacket.beginRead_final later (by omega)]
    dsimp only
    rw [if_neg (by omega),if_neg (by omega)]

theorem frames_suffix (found : frames.next bytes = .frame raw rest) : rest <:+ bytes := by
  obtain ⟨n,_,_,rfl,_⟩ := nextFrame_frame found
  exact List.drop_suffix _ _

-- What RecvPacket does to a frame with the keys at hand.
def Keys.opened (k : Keys) (raw : NetPacket) : NetPacket :=
  let pkt := if raw.isEncrypt then raw.decrypt k.seed k.behindSeed k.seedLen else raw
  if pkt.isCompress then pkt.uncompress.2 else pkt

namespace TcpSession

structure ReadOk (s : TcpSession) : Prop where
  size_eq : s.readBufSize = maxBufferSize
  buf_eq : (s.readBuf.length : Int) = s.readBufSize
  pos_nonneg : 0 ≤ s.readPos
  len_nonneg : 0 ≤ s.readLen
  inside : s.readPos+s.readLen ≤ s.readBufSize

theorem ReadOk.length_unread (ok : ReadOk s) : (s.unread.length : Int) = s.readLen := by
  obtain ⟨_,buf,pos,len,inside⟩ := ok
  rw [unread,Block.length_slice (by omega)]
  omega

theorem unread_empty {s : TcpSession} (empty : s.readLen = 0) : s.unread = [] := by
  simp [unread,empty]

theorem ReadOk.congr (ok : ReadOk s) (same : t.toReadSide = s.toReadSide) : ReadOk t ∧ t.unread = s.unread := by
  obtain ⟨size,buf,pos,len,inside⟩ := ok
  unfold unread
  refine ⟨⟨?_,?_,?_,?_,?_⟩,?_⟩ <;> rw [same] <;> assumption

theorem reset_read (s : TcpSession) : ReadOk s.reset where
  size_eq := rfl
  buf_eq := by
    have length : (List.replicate maxBufferSize.toNat (0 : UInt8)).length = maxBufferSize.toNat :=
      List.length_replicate
    exact (congrArg Int.ofNat length).trans (Int.toNat_of_nonneg (by decide))
  pos_nonneg := Int.le_refl 0
  len_nonneg := Int.le_refl 0
  inside := (by decide : (0 : Int)+0 ≤ maxBufferSize)

theorem ReadOk.same (ok : ReadOk s) (same : t.toReadSide = s.toReadSide) : ReadOk t := (ok.congr same).1

def skip (s : TcpSession) (n : Nat) : TcpSession := {s with readLen := s.readLen-n,readPos := s.readPos+n}

theorem ReadOk.skip {n : Nat} (ok : ReadOk s) (bound : (n : Int) ≤ s.readLen) :
    ReadOk (s.skip n) ∧ (s.skip n).unread = s.unread.drop n := by
  obtain ⟨size,buf,pos,len,inside⟩ := ok
  refine ⟨⟨size,buf,?_,?_,?_⟩,?_⟩
  · simp only [TcpSession.skip]; omega
  · simp only [TcpSession.skip]; omega
  · simp only [TcpSession.skip]; omega
  · simp only [unread,TcpSession.skip,Block.drop_slice]
    congr 1 <;> omega

-- RecvPacket asks the framing about the unread bytes.
theorem recvPacket_parts (ok : ReadOk s) :
    (frames.next s.unread = .more ∧ s.recvPacket = (none,s)) ∨
    (frames.next s.unread = .bad ∧ s.recvPacket = (none,{s with state := .dead})) ∨
    ∃ raw, ∃ n : Nat, frames.next s.unread = .frame raw (s.unread.drop n) ∧ 0 < n ∧ (n : Int) ≤ s.readLen ∧
      s.recvPacket = (some (s.opened raw),s.skip n) := by
  have asked : NetPacket.new.beginRead (s.readBuf.drop s.readPos.toNat) s.readLen =
      NetPacket.new.beginRead s.unread s.unread.length := by
    rw [NetPacket.beginRead_take _ ok.len_nonneg,ok.length_unread]
    rfl
  unfold recvPacket
  rw [asked]
  cases verdict : frames.next s.unread with
  | more =>
    have zero : (NetPacket.new.beginRead s.unread s.unread.length).1 = 0 := by
      have answer : nextFrame s.unread = .more := verdict
      unfold nextFrame at answer
      dsimp only at answer
      split at answer
      · cases answer
      · split at answer
        · assumption
        · cases answer
    refine .inl ⟨rfl,?_⟩
    simp [zero]
  | bad =>
    have negative := nextFrame_bad verdict
    refine .inr (.inl ⟨rfl,?_⟩)
    dsimp only
    rw [if_neg (by omega),if_neg (by omega)]
  | frame raw rest =>
    obtain ⟨n,positive,bound,rfl,answer⟩ := nextFrame_frame verdict
    refine .inr (.inr ⟨raw,n,rfl,positive,by have := ok.length_unread; omega,?_⟩)
    rw [answer]
    simp only [if_pos (by omega : (n : Int) > 0),Keys.opened,skip,NetPacket.uncompress]
    split <;> split <;> rfl

-- What is known when it has taken a packet, and when it has not.
theorem recvPacket_some (ok : ReadOk s) (took : s.recvPacket = (some pkt,m)) :
    ∃ raw, ∃ n : Nat, frames.next s.unread = .frame raw (s.unread.drop n) ∧ 0 < n ∧ (n : Int) ≤ s.readLen ∧
      pkt = s.opened raw ∧ m = s.skip n := by
  rcases recvPacket_parts ok with ⟨_,none⟩ | ⟨_,none⟩ | ⟨raw,n,found,positive,bound,some⟩
  · cases none.symm.trans took
  · cases none.symm.trans took
  · cases some.symm.trans took
    exact ⟨raw,n,found,positive,bound,rfl,rfl⟩

theorem recvPacket_none (ok : ReadOk s) (took : s.recvPacket = (none,t)) :
    (frames.next s.unread = .more ∧ t = s) ∨ (frames.next s.unread = .bad ∧ t = {s with state := .dead}) := by
  rcases recvPacket_parts ok with ⟨more,none⟩ | ⟨bad,none⟩ | ⟨_,_,_,_,_,some⟩
  · cases none.symm.trans took
    exact .inl ⟨more,rfl⟩
  · cases none.symm.trans took
    exact .inr ⟨bad,rfl⟩
  · cases some.symm.trans took

end TcpSession
end PcNetwork
