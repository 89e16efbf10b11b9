import PcNetwork.Netlib.Sessions

namespace PcNetwork.Netlib

-- The packets that Query_IC and check_index send: the index is in the body.
def NetPacket.indexed (cmd ic : UInt16) : NetPacket := (new.setCmd cmd).write16 ic

namespace TcpSession
open NetPacket

variable {s : TcpSession}

-- What a packet that is sent leaves alone: all but the packets and the sent bytes.
theorem send_frame (s : TcpSession) (a : Nat) :
    s.send a false = {s with toPacketStore := (s.send a false).toPacketStore,sent := (s.send a false).sent} := by
  unfold send
  rw [if_neg Bool.false_ne_true]
  dsimp only
  split <;> rfl

theorem sendNew_frame (s : TcpSession) (p : NetPacket) :
    s.sendNew p = {s with toPacketStore := (s.sendNew p).toPacketStore,sent := (s.sendNew p).sent} :=
  send_frame (s.alloc p).2 (s.alloc p).1

theorem sendNew_sent (s : TcpSession) (p : NetPacket) : (s.sendNew p).sent = s.sent ++ [p.sendTo.1] := by
  have there : (s.alloc p).2.packets (s.alloc p).1 = p := Function.update_self _ _ _
  have sent : ((s.alloc p).2.sendTo (s.alloc p).1).sent = s.sent ++ [p.sendTo.1] := by
    unfold TcpSession.sendTo
    dsimp only
    rw [there]
    rfl
  show ((s.alloc p).2.send (s.alloc p).1 false).sent = _
  unfold send
  rw [if_neg Bool.false_ne_true]
  dsimp only
  split <;> exact sent

theorem sendNew_packets (low : a < s.ledger.count) (p : NetPacket) : (s.sendNew p).packets a = s.packets a := by
  have other : a ≠ (s.alloc p).1 := Nat.ne_of_lt low
  have sent : ((s.alloc p).2.sendTo (s.alloc p).1).packets a = s.packets a :=
    (Function.update_of_ne other _ _).trans (Function.update_of_ne other _ _)
  show ((s.alloc p).2.send (s.alloc p).1 false).packets a = s.packets a
  unfold send
  rw [if_neg Bool.false_ne_true]
  dsimp only
  split <;> exact sent

-- What the check of the index can do.
theorem checkIndex_cases (s : TcpSession) (a : Nat) :
    ((s.packets a).getIC = icNull ∧ s.checkIndex a = (true,s.touch a)) ∨
    ((s.packets a).getIC ≠ icNull ∧ s.indexRecvCheck ≠ (s.packets a).getIC ∧ s.checkIndex a = (false,s.touch a)) ∨
    (s.indexRecvCheck = (s.packets a).getIC ∧ ∃ t : TcpSession,
      s.checkIndex a = (true,{t with indexRecvCheck := NetSession.next s.indexRecvCheck}) ∧
      (t = s.touch a ∨ t = ({s.touch a with indexRecvCheck := s.indexRecvCheck+1} : TcpSession).sendNew
        ((NetPacket.new.setCmd nlibpIcOk).write16 (s.indexRecvCheck+1)))) := by
  have field : (s.touch a).packets = s.packets ∧ (s.touch a).indexRecvCheck = s.indexRecvCheck := ⟨rfl,rfl⟩
  unfold checkIndex
  dsimp only
  rw [field.1,field.2]
  by_cases null : (s.packets a).getIC = icNull
  · exact .inl ⟨null,if_pos null⟩
  · rw [if_neg null]
    by_cases same : s.indexRecvCheck = (s.packets a).getIC
    · refine .inr (.inr ⟨same,?_⟩)
      rw [if_pos same]
      unfold NetSession.next
      by_cases block : (s.indexRecvCheck+1) % 16 = 0
      · have index := congrArg TcpSession.indexRecvCheck (sendNew_frame
          ({s.touch a with indexRecvCheck := s.indexRecvCheck+1} : TcpSession)
          ((NetPacket.new.setCmd nlibpIcOk).write16 (s.indexRecvCheck+1)))
        refine ⟨_,?_,.inr rfl⟩
        rw [if_pos block,if_pos block]
        generalize ({s.touch a with indexRecvCheck := s.indexRecvCheck+1} : TcpSession).sendNew _ = t at index
        dsimp only at index
        rw [index]
        split
        · rfl
        · rw [← index]
      · refine ⟨s.touch a,?_,.inl rfl⟩
        rw [if_neg block,if_neg block]
    · exact .inr (.inl ⟨null,same,if_neg same⟩)

theorem checkIndex_answer (s : TcpSession) (a : Nat) :
    (s.checkIndex a).1 = true ↔ (s.packets a).getIC = icNull ∨ s.indexRecvCheck = (s.packets a).getIC := by
  rcases checkIndex_cases s a with ⟨null,checked⟩ | ⟨marked,other,checked⟩ | ⟨same,t,checked,_⟩
  · simp [checked,null]
  · simp [checked,marked,other]
  · simp [checked,same]

-- Of the session it changes the index, and before that it may send NLIBP_IC_OK.
theorem checkIndex_state (s : TcpSession) (a : Nat) : ∃ (t : TcpSession) (index : UInt16),
    (s.checkIndex a).2 = {t with indexRecvCheck := index} ∧
    (t = s.touch a ∨ t = ({s.touch a with indexRecvCheck := s.indexRecvCheck+1} : TcpSession).sendNew
      (indexed nlibpIcOk (s.indexRecvCheck+1))) := by
  rcases checkIndex_cases s a with ⟨_,checked⟩ | ⟨_,_,checked⟩ | ⟨_,t,checked,either⟩
  · exact ⟨s.touch a,s.indexRecvCheck,congrArg Prod.snd checked,.inl rfl⟩
  · exact ⟨s.touch a,s.indexRecvCheck,congrArg Prod.snd checked,.inl rfl⟩
  · exact ⟨t,_,congrArg Prod.snd checked,either⟩

theorem checkIndex_packets (low : a < s.ledger.count) : (s.checkIndex a).2.packets a = s.packets a := by
  have below : a < (s.touch a).ledger.count := by
    unfold touch Ledger.touch
    dsimp only
    split <;> exact low
  obtain ⟨t,index,state,rfl | rfl⟩ := checkIndex_state s a
  · rw [state]
    rfl
  · rw [state]
    exact sendNew_packets (s := {s.touch a with indexRecvCheck := s.indexRecvCheck+1}) below
      (indexed nlibpIcOk (s.indexRecvCheck+1))

-- The state in which the loop calls PushRecvPacket.
def handed (s : TcpSession) (p : NetPacket) : TcpSession := (({s with given := s.given ++ [(s.indexRecvCheck,p)]} : TcpSession).alloc p).2

theorem pushRecvPacket_eq (s : TcpSession) (p : NetPacket) (time : UInt32) :
    (s.pushRecvPacket p time).2 = if ((s.handed p).receive s.ledger.count time).1 then ((s.handed p).receive s.ledger.count time).2.2
      else ((s.handed p).receive s.ledger.count time).2.2.delete s.ledger.count := rfl

-- Around PushRecvPacket the loop does no more than delete the packet.
theorem pushRecvPacket_frame (s : TcpSession) (p : NetPacket) (time : UInt32) : ∃ ledger : Ledger,
    (s.pushRecvPacket p time).2 = {((s.handed p).receive s.ledger.count time).2.2 with ledger} := by
  rw [pushRecvPacket_eq]
  generalize (s.handed p).receive s.ledger.count time = received
  split
  · exact ⟨received.2.2.ledger,rfl⟩
  · exact ⟨(received.2.2.delete s.ledger.count).ledger,rfl⟩

-- What a session has been given, and the index it expects next.
structure Kept (s t : TcpSession) : Prop where
  given : t.given = s.given
  index : t.indexRecvCheck = s.indexRecvCheck

theorem Kept.refl (s : TcpSession) : Kept s s := ⟨rfl,rfl⟩

theorem send_kept (s : TcpSession) (a : Nat) (bIC : Bool) : Kept s (s.send a bIC) := by
  cases bIC with
  | true => exact ⟨rfl,rfl⟩
  | false =>
    rw [send_frame]
    exact ⟨rfl,rfl⟩

theorem sendNew_kept (s : TcpSession) (p : NetPacket) : Kept s (s.sendNew p) :=
  ⟨(send_kept (s.alloc p).2 _ _).given,(send_kept (s.alloc p).2 _ _).index⟩

theorem checkConnect_kept (s : TcpSession) (tm : UInt32) : Kept s (s.checkConnect tm) := by
  unfold checkConnect
  split
  · exact ⟨rfl,rfl⟩
  · split
    · exact ⟨rfl,rfl⟩
    · exact .refl s

theorem queryIC_kept (s : TcpSession) : Kept s s.queryIC := by
  have sent := sendNew_kept {s.getTime.2 with ricSeq := s.getTime.1} (indexed nlibpIcQuery s.indexRecvCheck)
  unfold queryIC
  dsimp only
  split
  · exact ⟨sent.given,sent.index⟩
  · exact ⟨rfl,rfl⟩

theorem resend_kept (s : TcpSession) (ic : UInt16) : Kept s (s.resend ic) := by
  unfold resend
  dsimp only
  split
  · have sent := send_kept {s with calls := s.calls ++ [IcCall.resend ic]} (by assumption) false
    exact ⟨sent.given,sent.index⟩
  · have sent := sendNew_kept {s with calls := s.calls ++ [IcCall.resend ic]} ((NetPacket.new.setIC ic).setCmd nlibpIcLost)
    exact ⟨sent.given,sent.index⟩

-- The loop over the images touches the packets and nothing else.
theorem updateLoop_frame (lastIc : UInt16) (kept rest : List (UInt16 × Nat)) (s : TcpSession) :
    updateLoop lastIc kept rest s = {s with toPacketStore := (updateLoop lastIc kept rest s).toPacketStore} := by
  induction rest generalizing kept s with
  | nil => rfl
  | cons image rest ih =>
    unfold updateLoop
    dsimp only
    split
    · exact ih kept (({s.touch image.2 with mapPacketImage := kept ++ rest} : TcpSession).delete image.2)
    · exact ih (kept ++ [image]) (s.touch image.2)

theorem updateIcImage_kept (s : TcpSession) (lastIc : UInt16) : Kept s (s.updateIcImage lastIc) := by
  unfold updateIcImage
  dsimp only
  rw [updateLoop_frame]
  exact ⟨rfl,rfl⟩

theorem checkIndex_given (s : TcpSession) (a : Nat) : (s.checkIndex a).2.given = s.given := by
  obtain ⟨t,index,state,rfl | rfl⟩ := checkIndex_state s a
  · rw [state]
    rfl
  · rw [state]
    exact (sendNew_kept {s.touch a with indexRecvCheck := s.indexRecvCheck+1} (indexed nlibpIcOk (s.indexRecvCheck+1))).given

theorem checkIndex_index (s : TcpSession) (a : Nat) :
    (s.checkIndex a).2.indexRecvCheck = s.indexRecvCheck ∨ (s.checkIndex a).2.indexRecvCheck = NetSession.next s.indexRecvCheck := by
  rcases checkIndex_cases s a with ⟨_,checked⟩ | ⟨_,_,checked⟩ | ⟨_,t,checked,_⟩
  · rw [checked]
    exact .inl rfl
  · rw [checked]
    exact .inl rfl
  · rw [checked]
    exact .inr rfl

theorem command_kept (s : TcpSession) (a : Nat) (time : UInt32) : Kept s (s.command a time).2.2 := by
  unfold command
  dsimp only
  split
  · exact ⟨rfl,rfl⟩
  · split
    · exact ⟨rfl,rfl⟩
    · split
      · split
        · exact ⟨rfl,rfl⟩
        · exact ⟨rfl,rfl⟩
      · split
        · exact ⟨rfl,rfl⟩
        · split
          · exact ⟨(resend_kept (s.touch a) _).given,(resend_kept (s.touch a) _).index⟩
          · split
            · exact ⟨(updateIcImage_kept (s.touch a) _).given,(updateIcImage_kept (s.touch a) _).index⟩
            · exact ⟨rfl,rfl⟩

-- Behind the check of the index they stay.
theorem receive_kept (s : TcpSession) (a : Nat) (time : UInt32) : Kept ((s.timeSet time).checkIndex a).2 (s.receive a time).2.2 := by
  unfold receive
  dsimp only
  generalize (s.timeSet time).checkIndex a = r
  obtain ⟨ok,t⟩ := r
  cases ok with
  | false => exact queryIC_kept t
  | true => exact command_kept t a time

theorem pushRecvPacket_given (s : TcpSession) (p : NetPacket) (time : UInt32) :
    (s.pushRecvPacket p time).2.given = s.given ++ [(s.indexRecvCheck,p)] := by
  have checked : (((s.handed p).timeSet time).checkIndex s.ledger.count).2.given = s.given ++ [(s.indexRecvCheck,p)] :=
    checkIndex_given _ _
  obtain ⟨ledger,frame⟩ := pushRecvPacket_frame s p time
  rw [frame]
  exact (receive_kept (s.handed p) s.ledger.count time).given.trans checked

theorem pushRecvPacket_index (s : TcpSession) (p : NetPacket) (time : UInt32) :
    (s.pushRecvPacket p time).2.indexRecvCheck = s.indexRecvCheck ∨
    (s.pushRecvPacket p time).2.indexRecvCheck = NetSession.next s.indexRecvCheck := by
  have kept := (receive_kept (s.handed p) s.ledger.count time).index
  have checked := checkIndex_index ((s.handed p).timeSet time) s.ledger.count
  obtain ⟨ledger,frame⟩ := pushRecvPacket_frame s p time
  rw [frame]
  exact checked.imp kept.trans kept.trans

-- What ProcessServer pops is what it sends.
theorem sendNext_session (e : Entry TcpSession) : (TcpSocket.sendNext e).session =
    match e.session.lstSendPacket with
    | [] => e.session
    | a :: rest => ({e.session with lstSendPacket := rest,popped := none} : TcpSession).send a false := by
  obtain ⟨socket,s,received,delivered,dangling⟩ := e
  unfold TcpSocket.sendNext
  cases list : s.lstSendPacket with
  | nil =>
    have nothing : Session.popSendPacket s = (none,s) := by
      show popSendPacket s = _
      unfold popSendPacket
      rw [list]
    dsimp only
    rw [nothing]
  | cons a rest =>
    have first : Session.popSendPacket s = (some (s.packets a),{s with lstSendPacket := rest,popped := some a}) := by
      show popSendPacket s = _
      unfold popSendPacket
      rw [list]
    dsimp only
    rw [first]
    rfl

theorem sendNext_kept (e : Entry TcpSession) : Kept e.session (TcpSocket.sendNext e).session := by
  rw [sendNext_session]
  split
  · exact .refl _
  · rename_i a rest list
    have sent := send_kept {e.session with lstSendPacket := rest,popped := none} a false
    exact ⟨sent.given,sent.index⟩

theorem act_kept (s : TcpSession) (call : AppCall) : Kept s (s.act call) := by
  cases call with
  | pushSendPacket ops => exact ⟨rfl,rfl⟩
  | send ops bIC =>
    have sent := send_kept (s.alloc (ops.foldl NetPacket.apply NetPacket.new)).2 s.ledger.count bIC
    exact ⟨sent.given,sent.index⟩
  | ping => exact ⟨rfl,rfl⟩
  | setConnectCheckTime time => exact ⟨rfl,rfl⟩
  | clock times => exact ⟨rfl,rfl⟩

-- The index that is expected is one of those that are sent.
def Numbered (s : TcpSession) : Prop := ∃ n, s.indexRecvCheck.toNat = NetSession.indexOf n

theorem Numbered.kept {t : TcpSession} (numbered : Numbered s) (kept : Kept s t) : Numbered t := by
  unfold Numbered
  rw [kept.index]
  exact numbered

theorem preserved_numbered : Preserved Numbered where
  new := ⟨0,rfl⟩
  timeSet _ _ numbered := numbered
  sendNext e numbered := numbered.kept (sendNext_kept e)
  pushRecvPacket s p time numbered := by
    obtain ⟨n,here⟩ := numbered
    rcases pushRecvPacket_index s p time with same | next
    · exact ⟨n,(congrArg UInt16.toNat same).trans here⟩
    · exact ⟨n+1,(congrArg UInt16.toNat next).trans (NetSession.next_index here)⟩
  checkConnect s time numbered := numbered.kept (checkConnect_kept s time)
  act s call numbered := numbered.kept (act_kept s call)

theorem sessions_numbered (path : Path NetStep TcpSocket.created taken last) : ∀ e ∈ last.sessions ++ last.gone, Numbered e.session :=
  net_keeps preserved_numbered path

-- A server with its first session.
def accepted : TcpSocket TcpSession := ⟨[⟨5,new,[],[],false⟩],[],0,[]⟩

theorem accepted_path : Path NetStep TcpSocket.created [⟨TcpSocket.created,.processServer (TcpSocket.accepting 5),accepted⟩] accepted :=
  .step .nil (.processServer rfl)

end TcpSession
end PcNetwork.Netlib
