import PcNetwork.Session.Effects
import PcNetwork.Session.Frames

namespace PcNetwork

-- What the keys do, whatever the memory behind m_seed holds.
def Keys.known (k : Keys) : Keys := {k with behindSeed := fun _ => 0}

namespace TcpSession

-- What decides the meaning of a frame, and the callbacks the frames led to.
structure View where
  keys : Keys
  calls : List Callback

def view (s : TcpSession) : View := ⟨s.toKeys,s.calls⟩

def View.known (v : View) : View := ⟨v.keys.known,v.calls⟩

def View.take (v : View) (raw : NetPacket) : View :=
  let pkt := v.keys.opened raw
  let packet := pkt.attachCmdPacket recvCmdPkt
  if pkt.isSysPacket then
    match seedParam packet with
    | some seed => ⟨v.keys.setSeed seed,v.calls ++ [.handleSysPacket packet.readable,.onConnect true]⟩
    | none => ⟨v.keys,v.calls ++ [.handleSysPacket packet.readable]⟩
  else ⟨v.keys,v.calls ++ [.onReceive packet.readable]⟩

theorem View.take_user {v : View} (user : (v.keys.opened raw).isSysPacket = false) :
    v.take raw = ⟨v.keys,v.calls ++ [.onReceive ((v.keys.opened raw).attachCmdPacket recvCmdPkt).readable]⟩ := by
  simp [take,user]

theorem View.take_seed {v : View} (sys : (v.keys.opened raw).isSysPacket)
    (found : seedParam ((v.keys.opened raw).attachCmdPacket recvCmdPkt) = some seed) :
    v.take raw = ⟨v.keys.setSeed seed,v.calls ++
      [.handleSysPacket ((v.keys.opened raw).attachCmdPacket recvCmdPkt).readable,.onConnect true]⟩ := by
  simp [take,sys,found]

theorem View.take_sys {v : View} (sys : (v.keys.opened raw).isSysPacket)
    (found : seedParam ((v.keys.opened raw).attachCmdPacket recvCmdPkt) = none) :
    v.take raw = ⟨v.keys,v.calls ++
      [.handleSysPacket ((v.keys.opened raw).attachCmdPacket recvCmdPkt).readable]⟩ := by
  simp [take,sys,found]

-- One packet on its way out of GetPacket or through HandleSysPacket.
def handle (s : TcpSession) (pkt : NetPacket) : TcpSession :=
  if pkt.isSysPacket then s.handleSysPacket (pkt.attachCmdPacket recvCmdPkt)
  else s.onReceive (pkt.attachCmdPacket recvCmdPkt)

theorem handle_parts (s : TcpSession) (raw : NetPacket) :
    (s.handle (s.opened raw)).view = s.view.take raw ∧
    (s.handle (s.opened raw)).toReadSide = s.toReadSide ∧
    (s.handle (s.opened raw)).socket.toSocketIn = s.socket.toSocketIn := by
  unfold handle
  by_cases sys : (s.opened raw).isSysPacket
  · rw [if_pos sys]
    cases found : seedParam ((s.opened raw).attachCmdPacket recvCmdPkt) with
    | none =>
      obtain ⟨times,rtt,same⟩ := handleSysPacket_noSeed s _ found
      rw [View.take_sys (v := s.view) sys found,view,same.toReceiver]
      exact ⟨rfl,rfl,same.toSocketIn⟩
    | some seed =>
      have same := callback_outgoing {setSeed {s with
        calls := s.calls ++ [Callback.handleSysPacket ((s.opened raw).attachCmdPacket recvCmdPkt).readable]} seed with
        state := .connected} (.onConnect true)
      rw [View.take_seed (v := s.view) sys found,handleSysPacket_seed s _ found,onConnect,view,same.toReceiver]
      refine ⟨?_,rfl,same.toSocketIn⟩
      simp only [view,setSeed,List.append_assoc,List.cons_append,List.nil_append]
  · have same := callback_outgoing s (.onReceive ((s.opened raw).attachCmdPacket recvCmdPkt).readable)
    rw [if_neg sys,View.take_user (v := s.view) (Bool.eq_false_iff.mpr sys),onReceive,view,same.toReceiver]
    exact ⟨rfl,rfl,same.toSocketIn⟩

-- The two loops of a CONNECTED tick, as one: take a packet, handle it, go on.
inductive Pump : TcpSession → TcpSession → Prop where
  | stop {s t : TcpSession} : s.recvPacket = (none,t) → Pump s t
  | next {s m t : TcpSession} : s.recvPacket = (some pkt,m) → Pump (m.handle pkt) t → Pump s t

theorem handle_read (ok : ReadOk s) (took : s.recvPacket = (some pkt,m)) :
    ReadOk (m.handle pkt) ∧ (m.handle pkt).readLen < s.readLen ∧ ReadOk m ∧ m.readLen < s.readLen := by
  obtain ⟨raw,n,_,positive,bound,rfl,rfl⟩ := recvPacket_some ok took
  have side : ((s.skip n).handle (s.opened raw)).toReadSide = (s.skip n).toReadSide := (handle_parts (s.skip n) raw).2.1
  have skipped := (ok.skip bound).1
  refine ⟨(skipped.congr side).1,?_,skipped,?_⟩
  · rw [side]; simp only [skip]; omega
  · simp only [skip]; omega

theorem getPacketLoop_pump {s : TcpSession} (fuel : Nat) (ok : ReadOk s) (enough : s.readLen < fuel) :
    (∃ t, s.getPacketLoop fuel = (none,t) ∧ Pump s t) ∨
    ∃ packet t, s.getPacketLoop fuel = (some packet,t) ∧ ReadOk (t.onReceive packet) ∧
      (t.onReceive packet).readLen < s.readLen ∧ ∀ u, Pump (t.onReceive packet) u → Pump s u := by
  induction fuel generalizing s with
  | zero => have := ok.len_nonneg; omega
  | succ fuel ih =>
    simp only [getPacketLoop]
    rcases took : s.recvPacket with ⟨_ | pkt,m⟩
    · exact .inl ⟨m,rfl,.stop took⟩
    · obtain ⟨kept,less,_,_⟩ := handle_read ok took
      by_cases sys : pkt.isSysPacket
      · have step : m.handle pkt = m.handleSysPacket (pkt.attachCmdPacket recvCmdPkt) := by rw [handle,if_pos sys]
        rw [step] at kept less
        simp only [if_pos sys]
        rcases ih kept (by omega) with ⟨t,found,pumped⟩ | ⟨packet,t,found,rest,shorter,onward⟩
        · exact .inl ⟨t,found,.next took (step ▸ pumped)⟩
        · exact .inr ⟨packet,t,found,rest,by omega,fun u pumped => .next took (step ▸ onward u pumped)⟩
      · have step : m.handle pkt = m.onReceive (pkt.attachCmdPacket recvCmdPkt) := by rw [handle,if_neg sys]
        rw [step] at kept less
        simp only [if_neg sys]
        exact .inr ⟨_,m,rfl,kept,less,fun u pumped => .next took (step ▸ pumped)⟩

theorem receiveLoop_pump {s : TcpSession} (fuel : Nat) (ok : ReadOk s) (enough : s.readLen < fuel) : Pump s (receiveLoop fuel s) := by
  induction fuel generalizing s with
  | zero => have := ok.len_nonneg; omega
  | succ fuel ih =>
    simp only [receiveLoop,getPacket]
    rcases getPacketLoop_pump (s.readLen.toNat+1) ok (by omega) with
      ⟨t,found,pumped⟩ | ⟨packet,t,found,kept,less,onward⟩
    · simp only [found]; exact pumped
    · simp only [found]; exact onward _ (ih kept (by omega))

-- The loops deal with all complete frames, in order, and leave the rest unread.
theorem pump_frames (ok : ReadOk s) (pumped : Pump s t) :
    ReadOk t ∧ t.socket.toSocketIn = s.socket.toSocketIn ∧
    t.view = (frames.split s.unread).1.foldl View.take s.view ∧
    frames.split t.unread = ([],(frames.split s.unread).2) ∧
    ((∃ rest, (frames.split s.unread).2 = .waiting rest ∧ t.unread = rest) ∨
      ((frames.split s.unread).2 = .broken ∧ t.state = .dead)) := by
  induction pumped with
  | @stop s t took =>
    rcases recvPacket_none ok took with ⟨more,rfl⟩ | ⟨bad,rfl⟩
    · rw [frames.split_more more]
      exact ⟨ok,rfl,rfl,rfl,.inl ⟨_,rfl,rfl⟩⟩
    · rw [frames.split_bad bad]
      exact ⟨ok.same rfl,rfl,rfl,frames.split_bad bad,.inr ⟨rfl,rfl⟩⟩
  | @next pkt s m t took _ ih =>
    obtain ⟨raw,n,found,_,bound,rfl,rfl⟩ := recvPacket_some ok took
    obtain ⟨skipped,left⟩ := ok.skip bound
    obtain ⟨seen,side,kept⟩ := handle_parts (s.skip n) raw
    obtain ⟨ready,same⟩ := skipped.congr side
    have result := ih ready
    rw [show s.opened raw = (s.skip n).opened raw from rfl,same,left,seen] at result
    rw [frames.split_frame found]
    obtain ⟨fine,socket,seen,tail⟩ := result
    exact ⟨fine,socket.trans kept,seen,tail⟩

theorem handle_going (going : Going s) (pkt : NetPacket) : Going (s.handle pkt) := by
  unfold handle
  split
  · exact handleSysPacket_going going _
  · exact callback_going going _

theorem pump_going (ok : ReadOk s) (going : Going s) (pumped : Pump s t) :
    Going t ∨ ((frames.split s.unread).2 = .broken ∧ t.state = .dead) := by
  induction pumped with
  | @stop s t took =>
    rcases recvPacket_none ok took with ⟨_,rfl⟩ | ⟨bad,rfl⟩
    · exact .inl going
    · exact .inr ⟨by rw [frames.split_bad bad],rfl⟩
  | @next pkt s m t took _ ih =>
    have kept := (handle_read ok took).1
    obtain ⟨raw,n,found,_,bound,rfl,rfl⟩ := recvPacket_some ok took
    obtain ⟨skipped,left⟩ := ok.skip bound
    have same := (skipped.congr (handle_parts (s.skip n) raw).2.1).2
    have moved : Going (s.skip n) := ⟨going.live,going.flows⟩
    have onward := ih kept (handle_going moved _)
    rw [show s.opened raw = (s.skip n).opened raw from rfl,same,left] at onward
    rw [frames.split_frame found]
    exact onward

-- What Recv can return: a count and as many bytes, or SOCKET_ERROR and none.
theorem recv_parts (k : NetSocket) (len : Int) :
    (k.recv len).2.2.received = k.received ++ (k.recv len).2.1 ∧ (k.recv len).2.2.sends = k.sends ∧
    (k.recv len).2.2.accepted = k.accepted ∧
    (((k.recv len).1 = (k.recv len).2.1.length ∧ (k.recv len).2.1.length ≤ len.toNat) ∨
      ((k.recv len).1 = -1 ∧ (k.recv len).2.1 = [])) := by
  unfold NetSocket.recv
  split
  · exact ⟨by simp,rfl,rfl,.inl ⟨rfl,Nat.zero_le _⟩⟩
  · exact ⟨by simp,rfl,rfl,.inl ⟨rfl,Nat.zero_le _⟩⟩
  · exact ⟨by simp,rfl,rfl,.inr ⟨rfl,rfl⟩⟩
  · exact ⟨by simp,rfl,rfl,.inr ⟨rfl,rfl⟩⟩
  · dsimp only
    split
    · rename_i nothing; exact ⟨by simp [nothing],rfl,rfl,.inr ⟨rfl,rfl⟩⟩
    · exact ⟨rfl,rfl,rfl,.inl ⟨rfl,List.length_take_le _ _⟩⟩

-- The memmove at the start of ReadData.
def compact (s : TcpSession) : TcpSession :=
  if s.readLen = 0 then {s with readPos := 0}
  else if s.readLen > 0 ∧ s.readPos ≠ 0 then
    {s with
      readBuf := Block.patch s.readBuf 0 (Block.slice s.readBuf s.readPos.toNat s.readLen.toNat)
      readPos := 0}
  else s

theorem compact_parts (ok : ReadOk s) :
    ∃ buf, s.compact = {s with readBuf := buf,readPos := 0} ∧ (buf.length : Int) = s.readBufSize ∧
      Block.slice buf 0 s.readLen.toNat = s.unread := by
  obtain ⟨_,size,pos,len,inside⟩ := ok
  unfold compact
  split
  · rename_i empty
    exact ⟨s.readBuf,rfl,size,by simp [unread,empty]⟩
  · split
    · have count : (Block.slice s.readBuf s.readPos.toNat s.readLen.toNat).length = s.readLen.toNat :=
        Block.length_slice (by omega)
      have fits : 0+(Block.slice s.readBuf s.readPos.toNat s.readLen.toNat).length ≤ s.readBuf.length := by omega
      refine ⟨_,rfl,by rw [Block.length_patch fits]; exact size,?_⟩
      have moved := Block.slice_patch_same fits
      rw [count] at moved
      exact moved
    · have start : s.readPos = 0 := by omega
      exact ⟨s.readBuf,by rw [← start],size,by rw [unread,start]; rfl⟩

theorem readData_parts (ok : ReadOk s) :
    ∃ side times last, s.readData = {s with
        toReadSide := side
        times
        lastRecvTime := last
        socket := (s.socket.recv (s.readBufSize-s.readLen)).2.2
        state := if (s.socket.recv (s.readBufSize-s.readLen)).1 < 0 then .dead else s.state} ∧
      ReadOk s.readData ∧
      s.readData.unread = s.unread ++ (s.socket.recv (s.readBufSize-s.readLen)).2.1 := by
  obtain ⟨buf,moved,length,content⟩ := compact_parts ok
  obtain ⟨limit,size,pos,len,inside⟩ := id ok
  have begin : s.readData =
      let s := s.compact
      let got := s.socket.recv (s.readBufSize-s.readLen)
      let s := {s with socket := got.2.2}
      if got.1 > 0 then
        let s := {s with readBuf := Block.patch s.readBuf s.readLen.toNat got.2.1,readLen := s.readLen+got.1}
        {s.getTime.2 with lastRecvTime := s.getTime.1}
      else if got.1 = 0 then s
      else {s with state := .dead} := rfl
  rw [begin,moved]
  dsimp only
  rcases (recv_parts s.socket (s.readBufSize-s.readLen)).2.2.2 with ⟨ret,fits⟩ | ⟨ret,none⟩
  · rw [ret]
    generalize (s.socket.recv (s.readBufSize-s.readLen)).2.1 = bytes at fits ⊢
    by_cases some : (bytes.length : Int) > 0
    · have room : 0+s.readLen.toNat+bytes.length ≤ buf.length := by omega
      rw [if_pos some,if_neg (by omega)]
      refine ⟨_,_,_,rfl,⟨limit,?_,Int.le_refl 0,?_,?_⟩,?_⟩
      · simp only [getTime]; rw [Block.length_patch (by omega)]; exact length
      · simp only [getTime]; omega
      · simp only [getTime]; omega
      · have joined := Block.slice_patch_extend room
        rw [content,Nat.zero_add] at joined
        simp only [unread,getTime]
        rw [show (s.readLen+(bytes.length : Int)).toNat = s.readLen.toNat+bytes.length by omega]
        exact joined
    · have zero : bytes = [] := List.eq_nil_of_length_eq_zero (by omega)
      subst zero
      refine ⟨_,_,_,rfl,⟨limit,length,Int.le_refl 0,len,?_⟩,?_⟩
      · simp; omega
      · rw [List.append_nil]; exact content
  · rw [ret,none]
    refine ⟨_,_,_,rfl,⟨limit,length,Int.le_refl 0,len,?_⟩,?_⟩
    · simp; omega
    · rw [List.append_nil]; exact content

end TcpSession
end PcNetwork
