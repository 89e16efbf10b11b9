import PcNetwork.Netlib.Acknowledge

namespace PcNetwork.Netlib
namespace NetPacket

-- What Ping pushes, and what the branch of NLIBP_PING makes of it.
def pingRequest (now delay : UInt32) : NetPacket := (((new.setCmd nlibpPing).begin.write32 now).write32 delay).end_
def pingAnswer (p : NetPacket) (time : UInt32) : NetPacket :=
  ((p.read32.2.read32.2.setCmd nlibpPingRet).begin.write32 time).end_

theorem pingRequest_parts (now delay : UInt32) : Placed (pingRequest now delay) ∧
    (pingRequest now delay).getIC = icNull ∧ (pingRequest now delay).getCmd = nlibpPing.toNat := by
  have command := setCmd_header new_placed nlibpPing
  have placed := begin_placed (setCmd_onward new_placed nlibpPing).placed
  have first := write32_onward placed now
  have second := write32_onward first.placed delay
  have ends := end_header second.placed
  have wrote := write32_header first.placed delay
  have times := write32_header placed now
  have zero : new.getIC = icNull := rfl
  refine ⟨(end_parts second.placed).1,?_,?_⟩
  · exact ends.1.trans (wrote.1.trans (times.1.trans (command.1.trans zero)))
  · exact ends.2.trans (wrote.2.trans (times.2.trans command.2))

theorem read32_parts (placed : Placed p) : Placed p.read32.2 ∧ p.read32.2.getIC = p.getIC := by
  refine ⟨(read32_onward placed).placed,?_⟩
  unfold read32
  split <;> rfl

-- A long that is written at the beginning of the content.
theorem write32_parts (placed : Placed p) (start : p.cursor = packetContentPos) (dw : UInt32) :
    Placed (p.write32 dw) ∧ ntohl (p.write32 dw).data 8 = dw.toNat ∧ (p.write32 dw).cursor = 12 := by
  have max := placed.max
  have block := placed.block
  have limit : maxPacketSize = 2000 := rfl
  have eight : packetContentPos = 8 := rfl
  have place : p.cursor.toNat = 8 := by omega
  refine ⟨(write32_onward placed dw).placed,?_⟩
  unfold write32
  rw [if_pos (by omega)]
  dsimp only
  rw [place,ntohl_patch_at (by omega)]
  exact ⟨rfl,by omega⟩

-- The answer is written over the first field of the request.
theorem pingAnswer_parts (placed : Placed p) (time : UInt32) : Placed (pingAnswer p time) ∧
    (pingAnswer p time).getIC = p.getIC ∧ (pingAnswer p time).getCmd = nlibpPingRet.toNat ∧
    ntohl (pingAnswer p time).data 8 = time.toNat ∧ (pingAnswer p time).cursor = 12 := by
  obtain ⟨once,first⟩ := read32_parts placed
  obtain ⟨twice,second⟩ := read32_parts once
  have command := setCmd_header twice nlibpPingRet
  have ready := begin_placed (setCmd_onward twice nlibpPingRet).placed
  have header := write32_header ready time
  obtain ⟨written,body,cursor⟩ := write32_parts ready rfl time
  have ends := end_header written
  obtain ⟨last,same,_⟩ := end_parts written
  refine ⟨last,?_,?_,?_,same.trans cursor⟩
  · exact ends.1.trans (header.1.trans (command.1.trans (second.trans first)))
  · exact ends.2.trans (header.2.trans command.2)
  · unfold ntohl at body
    unfold pingAnswer ntohl
    rw [end_ntohs written (.inr (by omega)),end_ntohs written (.inr (by omega)),body]

-- The first field of a packet that arrives.
theorem Carries.first (carries : Carries q p.sendTo.1) (placed : Placed p) (long : 12 ≤ p.cursor) :
    q.read32.1 = UInt32.ofNat (ntohl p.data 8) := by
  have length := length_sendTo placed
  have there : q.cursor ≤ q.datalen-4 := by
    have start : q.cursor = 8 := carries.cursor
    have some := carries.datalen (by omega)
    omega
  unfold read32
  rw [if_pos there]
  dsimp only
  rw [carries.cursor]
  show UInt32.ofNat (ntohl q.data 8) = _
  rw [carries.long placed (by omega) (by omega)]

end NetPacket

namespace TcpSession
open NetPacket

variable {s : TcpSession}

-- The bytes that are sent when the packet that was pushed last is popped.
def queued (s : TcpSession) : Option (List UInt8) := s.lstSendPacket.getLast?.map fun a => (s.packets a).sendTo.1

theorem push_queued {p : NetPacket} (there : s.packets a = p) : (s.pushSendPacket a).queued = some p.sendTo.1 := by
  simp [queued,pushSendPacket,there]

theorem ping_queued (clock : s.clock.head? = some now) : s.ping.queued = some (pingRequest now s.netDelay).sendTo.1 := by
  have time : s.clock.headD 0 = now := by simp [List.headD_eq_head?_getD,clock]
  have queued := push_queued (s := (s.getTime.2.alloc (pingRequest (s.clock.headD 0) s.netDelay)).2) (a := s.ledger.count)
    (Function.update_self _ _ _)
  rw [time] at queued
  unfold ping
  show (pushNew _ (pingRequest (s.clock.headD 0) s.netDelay)).queued = _
  rw [time]
  exact queued

theorem command_ping (ping : (s.packets a).getCmd = nlibpPing.toNat) (time : UInt32) :
    (s.command a time).2.2.queued = some (pingAnswer (s.packets a) time).sendTo.1 := by
  unfold command
  dsimp only
  rw [if_pos ping]
  exact push_queued (Function.update_self _ _ _)

theorem command_pingRet (answer : (s.packets a).getCmd = nlibpPingRet.toNat) (time : UInt32) :
    (s.command a time).2.2.netDelay = time-(s.packets a).read32.1 := by
  unfold command
  simp [answer,nlibpPing,nlibpPingRet]

-- Ping at t0, its answer by a peer whose clock is at c, and the answer's handling at t1.
inductive RoundTrip (t0 c t1 : UInt32) : UInt32 → Prop where
  | handled {initiator peer handler : TcpSession} (clock : initiator.clock.head? = some t0)
      (sends : initiator.ping.queued = some request) (asked : Carries p request)
      (answers : (peer.pushRecvPacket p c).2.queued = some answer) (answered : Carries q answer) :
      RoundTrip t0 c t1 (handler.pushRecvPacket q t1).2.netDelay

theorem answer_queued (peer : TcpSession) (null : p.getIC = icNull) (ping : p.getCmd = nlibpPing.toNat) (c : UInt32) :
    (peer.pushRecvPacket p c).2.queued = some (pingAnswer p c).sendTo.1 := by
  obtain ⟨u,there,_,_,commands⟩ := handed_command peer null c
  obtain ⟨ledger,frame⟩ := pushRecvPacket_frame peer p c
  have queued := command_ping (there ▸ ping) c
  rw [there] at queued
  rw [frame,commands]
  exact queued

theorem answer_delay (handler : TcpSession) (null : p.getIC = icNull) (answer : p.getCmd = nlibpPingRet.toNat) (t1 : UInt32) :
    (handler.pushRecvPacket p t1).2.netDelay = t1-p.read32.1 := by
  obtain ⟨u,there,_,_,commands⟩ := handed_command handler null t1
  obtain ⟨ledger,frame⟩ := pushRecvPacket_frame handler p t1
  rw [frame,commands,command_pingRet (there ▸ answer),there]

-- The only time in the answer is the peer's.
theorem RoundTrip.measures {delay : UInt32} (trip : RoundTrip t0 c t1 delay) : delay = t1-c := by
  cases trip with
  | handled clock sends asked answers answered =>
    rename_i request p answer q initiator peer handler
    obtain ⟨placed,null,ping⟩ := pingRequest_parts t0 initiator.netDelay
    rw [ping_queued clock] at sends
    cases sends
    have none := (asked.getIC placed).trans null
    obtain ⟨made,index,command,time,cursor⟩ := pingAnswer_parts asked.placed c
    rw [answer_queued peer none ((asked.getCmd placed).trans ping)] at answers
    cases answers
    rw [answer_delay handler ((answered.getIC made).trans (index.trans none)) ((answered.getCmd made).trans command),
      answered.first made (by omega),time,UInt32.ofNat_toNat]

theorem arriving_carries (placed : Placed p) : Carries (NetPacket.new.recv (some p.sendTo.1)).2 p.sendTo.1 := by
  have length := length_sendTo placed
  have low := placed.low
  have high := placed.high
  have eight : packetContentPos = 8 := rfl
  exact recv_carries (by omega)

-- Any three times have such a round trip.
theorem RoundTrip.happens (t0 c t1 : UInt32) : RoundTrip t0 c t1 (t1-c) := by
  let initiator : TcpSession := {new with clock := [t0]}
  obtain ⟨placed,null,ping⟩ := pingRequest_parts t0 initiator.netDelay
  have asked := arriving_carries placed
  have made := (pingAnswer_parts asked.placed c).1
  have answers := answer_queued new ((asked.getIC placed).trans null) ((asked.getCmd placed).trans ping) c
  have clock : initiator.clock.head? = some t0 := rfl
  have trip := @RoundTrip.handled t0 c t1 _ _ _ _ initiator new new clock (ping_queued clock) asked answers (arriving_carries made)
  rw [trip.measures] at trip
  exact trip

-- The delay is the time between the two events when the peer's clock reads the time at
-- which Ping was sent, and two peers give the same delay when their clocks agree.
theorem delay_exact {delay delay' : UInt32} (trip : RoundTrip t0 c t1 delay) (other : RoundTrip t0 c' t1 delay') :
    (delay = t1-t0 ↔ c = t0) ∧ (delay = delay' ↔ c = c') := by
  have here := trip.measures
  have there := other.measures
  subst here there
  constructor
  · exact UInt32.sub_right_inj _
  · exact UInt32.sub_right_inj _

theorem delay_exact_agreeing : ((1010 : UInt32)-1000 = 1010-1000 ↔ (1000 : UInt32) = 1000) ∧
    ((1010 : UInt32)-1000 = 1010-5000 ↔ (1000 : UInt32) = 5000) :=
  delay_exact (.happens 1000 1000 1010) (.happens 1000 5000 1010)

-- A peer whose clock reads 5000.
theorem delay_foreign : ¬ ∀ t0 c t1 delay : UInt32, RoundTrip t0 c t1 delay → delay = t1-t0 := by
  intro claim
  exact absurd (claim 1000 5000 1010 _ (.happens 1000 5000 1010)) (by decide)

end TcpSession
end PcNetwork.Netlib
