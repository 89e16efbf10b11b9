import PcNetwork.Netlib.Arrivals
import PcNetwork.Netlib.SessionFrames

namespace PcNetwork.Netlib

namespace NetPacket

theorem indexed_placed (cmd ic : UInt16) : Placed (indexed cmd ic) :=
  (write16_onward (setCmd_onward new_placed cmd).placed ic).placed

theorem indexed_parts (cmd ic : UInt16) : (indexed cmd ic).getIC = icNull ∧ (indexed cmd ic).getCmd = cmd.toNat ∧
    ntohs (indexed cmd ic).data 8 = ic.toNat ∧ (indexed cmd ic).cursor = 10 := by
  have placed := (setCmd_onward new_placed cmd).placed
  have block := placed.block
  have limit : maxPacketSize = 2000 := rfl
  have command := setCmd_header new_placed cmd
  have index := write16_header placed ic
  have zero : new.getIC = icNull := rfl
  refine ⟨index.1.trans (command.1.trans zero),index.2.trans command.2,?_,rfl⟩
  show ntohs (Block.patch (new.setCmd cmd).data 8 (htons ic)) 8 = ic.toNat
  rw [ntohs_patch_at (by omega)]

-- It is where NET_Socket::PushRecvPacket reads it.
theorem indexed_body (carries : Carries q (indexed cmd ic).sendTo.1) : q.read16.1 = ic := by
  have placed := indexed_placed cmd ic
  obtain ⟨_,_,body,cursor⟩ := indexed_parts cmd ic
  have long := length_sendTo placed
  have there : q.cursor ≤ q.datalen-2 := by
    have start : q.cursor = 8 := carries.cursor
    have some := carries.datalen (by omega)
    omega
  unfold read16
  rw [if_pos there]
  dsimp only
  rw [carries.cursor]
  show UInt16.ofNat (ntohs q.data 8) = ic
  rw [carries.field placed (by omega) (by omega),body,UInt16.ofNat_toNat]

end NetPacket

namespace TcpSession
open NetPacket

variable {s : TcpSession}

theorem queryIC_sent (s : TcpSession) : s.queryIC.sent = s.sent ∨
    s.queryIC.sent = s.sent ++ [(indexed nlibpIcQuery s.indexRecvCheck).sendTo.1] := by
  unfold queryIC
  dsimp only
  split
  · exact .inr (sendNew_sent _ _)
  · exact .inl rfl

theorem checkIndex_sent (s : TcpSession) (a : Nat) : (s.checkIndex a).2.sent = s.sent ∨
    (s.checkIndex a).2.sent = s.sent ++ [(indexed nlibpIcOk (s.indexRecvCheck+1)).sendTo.1] := by
  obtain ⟨t,index,state,rfl | rfl⟩ := checkIndex_state s a
  · rw [state]
    exact .inl rfl
  · rw [state]
    exact .inr (sendNew_sent _ _)

theorem resend_calls (s : TcpSession) (ic : UInt16) : (s.resend ic).calls = s.calls ++ [.resend ic] := by
  unfold resend
  dsimp only
  split
  · rw [send_frame]
  · rw [sendNew_frame]

theorem updateIcImage_calls (s : TcpSession) (lastIc : UInt16) : (s.updateIcImage lastIc).calls = s.calls ++ [.updateIcImage lastIc] := by
  unfold updateIcImage
  dsimp only
  rw [updateLoop_frame]

-- A packet without an index passes the check.
theorem checkIndex_null (null : (s.packets a).getIC = icNull) : s.checkIndex a = (true,s.touch a) := by
  unfold checkIndex
  exact if_pos null

theorem receive_null (null : (s.packets a).getIC = icNull) (time : UInt32) :
    s.receive a time = ((s.timeSet time).touch a).command a time := by
  have passes := checkIndex_null (s := s.timeSet time) null
  unfold receive
  dsimp only
  rw [passes]

theorem command_query (query : (s.packets a).getCmd = nlibpIcQuery.toNat) (time : UInt32) :
    s.command a time = (false,false,(s.touch a).resend (s.packets a).getIC) := by
  unfold command
  simp [query,nlibpPing,nlibpPingRet,nlibpCheckConnect,nlibpDisconnect,nlibpIcQuery]

theorem command_ok (acknowledges : (s.packets a).getCmd = nlibpIcOk.toNat) (time : UInt32) :
    s.command a time = (false,false,(s.touch a).updateIcImage (s.packets a).getIC) := by
  unfold command
  simp [acknowledges,nlibpPing,nlibpPingRet,nlibpCheckConnect,nlibpDisconnect,nlibpIcQuery,nlibpIcOk]

-- A packet without an index, as the switch meets it.
theorem handed_command (s : TcpSession) (null : p.getIC = icNull) (time : UInt32) :
    ∃ u : TcpSession, u.packets s.ledger.count = p ∧ u.calls = s.calls ∧ u.mapPacketImage = s.mapPacketImage ∧
      (s.handed p).receive s.ledger.count time = u.command s.ledger.count time := by
  have there : (s.handed p).packets s.ledger.count = p := Function.update_self _ _ _
  exact ⟨((s.handed p).timeSet time).touch s.ledger.count,there,rfl,rfl,receive_null (by rw [there]; exact null) time⟩

theorem query_resends_null (s : TcpSession) (null : p.getIC = icNull) (query : p.getCmd = nlibpIcQuery.toNat) (time : UInt32) :
    (s.pushRecvPacket p time).2.calls = s.calls ++ [.resend icNull] := by
  obtain ⟨u,there,same,_,commands⟩ := handed_command s null time
  obtain ⟨ledger,frame⟩ := pushRecvPacket_frame s p time
  rw [frame,commands,command_query (there ▸ query),there,null,← same]
  exact resend_calls _ _

theorem ok_updates_null (s : TcpSession) (null : p.getIC = icNull) (acknowledges : p.getCmd = nlibpIcOk.toNat) (time : UInt32) :
    (s.pushRecvPacket p time).2.calls = s.calls ++ [.updateIcImage icNull] := by
  obtain ⟨u,there,same,_,commands⟩ := handed_command s null time
  obtain ⟨ledger,frame⟩ := pushRecvPacket_frame s p time
  rw [frame,commands,command_ok (there ▸ acknowledges),there,null,← same]
  exact updateIcImage_calls _ _

-- No image has an index below icNull, so none is released.
theorem updateLoop_null (kept rest : List (UInt16 × Nat)) (shape : s.mapPacketImage = kept ++ rest) :
    (updateLoop icNull kept rest s).mapPacketImage = s.mapPacketImage := by
  induction rest generalizing kept s with
  | nil => rfl
  | cons image rest ih =>
    have zero : icNull.toNat = 0 := rfl
    unfold updateLoop
    dsimp only
    rw [if_neg (by omega)]
    apply ih (kept ++ [image]) (s := s.touch image.2)
    show s.mapPacketImage = kept ++ [image] ++ rest
    rw [shape,List.append_assoc,List.singleton_append]

theorem ok_releases_nothing (s : TcpSession) (null : p.getIC = icNull) (acknowledges : p.getCmd = nlibpIcOk.toNat) (time : UInt32) :
    (s.pushRecvPacket p time).2.mapPacketImage = s.mapPacketImage := by
  obtain ⟨u,there,_,images,commands⟩ := handed_command s null time
  obtain ⟨ledger,frame⟩ := pushRecvPacket_frame s p time
  rw [frame,commands,command_ok (there ▸ acknowledges),there,null,← images]
  exact updateLoop_null [] _ (s := {u.touch s.ledger.count with calls := _}) rfl

theorem indexOf_bounds (n : Nat) : 0 < NetSession.indexOf n ∧ NetSession.indexOf n < 65535 := by
  have remainder := Nat.mod_lt n (show 0 < NetSession.period by decide)
  have period : NetSession.period = 60015 := rfl
  unfold NetSession.indexOf
  omega

-- The index that a session expects, and the one behind it, are indices.
theorem Numbered.marks (numbered : Numbered s) : s.indexRecvCheck ≠ icNull ∧ s.indexRecvCheck+1 ≠ icNull := by
  obtain ⟨n,here⟩ := numbered
  have bounds := indexOf_bounds n
  have above : (s.indexRecvCheck+1).toNat = s.indexRecvCheck.toNat+1 := by
    rw [UInt16.toNat_add,UInt16.toNat_one]
    omega
  constructor
  · intro null
    have zero : s.indexRecvCheck.toNat = 0 := congrArg UInt16.toNat null
    omega
  · intro null
    have zero : (s.indexRecvCheck+1).toNat = 0 := congrArg UInt16.toNat null
    omega

-- The handlers read the index from the header, where no sender of these packets has
-- written it: whatever index is asked for or acknowledged, the peer acts on icNull.
theorem index_unread (path : Path NetStep TcpSocket.created taken last) (member : e ∈ last.sessions ++ last.gone)
    (expected : s.indexRecvCheck = e.session.indexRecvCheck) (carries : Carries p bytes) (peer : TcpSession) (time : UInt32) :
    (s.queryIC.sent = s.sent ++ [bytes] →
      (peer.pushRecvPacket p time).2.calls ≠ peer.calls ++ [.resend s.indexRecvCheck]) ∧
    ∀ a, (s.checkIndex a).2.sent = s.sent ++ [bytes] →
      (peer.pushRecvPacket p time).2.calls ≠ peer.calls ++ [.updateIcImage (s.indexRecvCheck+1)] := by
  have marks := (sessions_numbered path e member).marks
  rw [← expected] at marks
  constructor
  · intro sent called
    rcases queryIC_sent s with silent | message
    · cases List.self_eq_append_right.mp (silent.symm.trans sent)
    · rw [message] at sent
      obtain rfl := List.singleton_inj.mp (List.append_cancel_left sent)
      have parts := indexed_parts nlibpIcQuery s.indexRecvCheck
      have placed := indexed_placed nlibpIcQuery s.indexRecvCheck
      rw [query_resends_null peer ((carries.getIC placed).trans parts.1) ((carries.getCmd placed).trans parts.2.1)] at called
      have call := List.singleton_inj.mp (List.append_cancel_left called)
      exact marks.1 (IcCall.resend.inj call).symm
  · intro a sent called
    rcases checkIndex_sent s a with silent | message
    · cases List.self_eq_append_right.mp (silent.symm.trans sent)
    · rw [message] at sent
      obtain rfl := List.singleton_inj.mp (List.append_cancel_left sent)
      have parts := indexed_parts nlibpIcOk (s.indexRecvCheck+1)
      have placed := indexed_placed nlibpIcOk (s.indexRecvCheck+1)
      rw [ok_updates_null peer ((carries.getIC placed).trans parts.1) ((carries.getCmd placed).trans parts.2.1)] at called
      have call := List.singleton_inj.mp (List.append_cancel_left called)
      exact marks.2 (IcCall.updateIcImage.inj call).symm

-- A session that has accepted nothing yet asks for the packet 1.
def asking : TcpSession := {new with clock := [1000]}
def question : List UInt8 := [0,0,0,0,0,10,2,1,0,1]

theorem asking_sent : asking.queryIC.sent = asking.sent ++ [question] := by
  rfl

theorem index_unread_asking : (new.pushRecvPacket (NetPacket.new.recv (some question)).2 7).2.calls ≠ new.calls ++ [.resend 1] :=
  (index_unread (s := asking) accepted_path (List.mem_singleton_self _) rfl (recv_carries (by decide)) new 7).1 asking_sent

theorem other_resent :
    ¬ ∀ (taken : List (Transition (TcpSocket TcpSession) NetEvent)) (last : TcpSocket TcpSession) (e : Entry TcpSession)
      (s peer : TcpSession) (p : NetPacket) (bytes : List UInt8) (time : UInt32),
      Path NetStep TcpSocket.created taken last → e ∈ last.sessions ++ last.gone → s.indexRecvCheck = e.session.indexRecvCheck →
      Carries p bytes →
      (s.queryIC.sent = s.sent ++ [bytes] →
        (peer.pushRecvPacket p time).2.calls = peer.calls ++ [.resend s.indexRecvCheck]) ∧
      ∀ a, (s.checkIndex a).2.sent = s.sent ++ [bytes] →
        (peer.pushRecvPacket p time).2.calls = peer.calls ++ [.updateIcImage (s.indexRecvCheck+1)] := by
  intro claim
  have carries : Carries (NetPacket.new.recv (some question)).2 question := recv_carries (by decide)
  have resent := (claim _ _ _ asking new _ _ 7 accepted_path (List.mem_singleton_self _) rfl carries).1 asking_sent
  have called : (new.pushRecvPacket (NetPacket.new.recv (some question)).2 7).2.calls = [.resend 0] := by rfl
  rw [called] at resent
  cases resent

end TcpSession
end PcNetwork.Netlib
