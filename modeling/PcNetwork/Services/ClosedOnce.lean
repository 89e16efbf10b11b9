import PcNetwork.Libnet.Contexts
import PcNetwork.Libnet.Closing
import PcNetwork.NetSelect.WritePath

namespace PcNetwork.Services
open Libnet (IocpService IocpInput)
open NetSelect (Machine MachineEvent)

-- A log in which each connection is reported closed once at most.
def ReportedOnce (log : List (Report Nat UInt64)) : Prop :=
  Paired log ∧ ∀ index serial, log.count (.down index serial) ≤ log.count (.up index serial)

theorem reported_once {log : List (Report Nat UInt64)} (paired : Paired log) : ReportedOnce log :=
  ⟨paired,fun index serial => Nat.le_trans (Nat.le_add_right _ _) (paired.settled index serial)⟩

theorem iocp_closePeer_dead {s : IocpService} {index : Nat} {serial : UInt64} (bound : index < Libnet.maxPeerNum)
    (dead : ¬ s.Live index serial) (sys : Libnet.System) : IocpService.run ⟨.closePeer index serial,sys⟩ s = .ok () s :=
  IocpService.closePeer_dead bound dead

theorem iocp_closePeer_live {s : IocpService} {index : Nat} {serial : UInt64} (bound : index < Libnet.maxPeerNum)
    (live : s.Live index serial) (sys : Libnet.System) : IocpService.run ⟨.closePeer index serial,sys⟩ s = .ok ()
      (s.called (.onDisCon index serial (s.peers index).remoteIp (s.peers index).remotePort) (.onDisCon index serial none)) := by
  show IocpService.closePeer index serial none s = _
  unfold IocpService.closePeer
  rw [bind_ok (IocpService.getPeer_ok bound s),if_neg fun dead => (IocpService.not_live s index serial).mp dead live]
  rfl

theorem select_getPeer {m : Machine} {index : Nat} (bound : index < NetSelect.maxPeerNum) :
    Machine.call (NetSelect.SelectService.getPeer index) m = .ok (m.service.peers index) m := by
  unfold Machine.call
  rw [NetSelect.SelectService.getPeer_inside (Nat.not_le.mpr bound)]

theorem select_closePeer_dead {m : Machine} {index : Nat} {serial : UInt64} (bound : index < NetSelect.maxPeerNum)
    (dead : ¬ m.Live index serial) : Machine.run (.closePeer index serial) m = .ok () m := by
  show Machine.closePeer index serial m = _
  unfold Machine.closePeer
  rw [bind_ok (select_getPeer bound),if_pos ((Machine.not_live m index serial).mpr dead)]
  rfl

theorem select_closePeer_live {m : Machine} {index : Nat} {serial : UInt64} (bound : index < NetSelect.maxPeerNum)
    (live : m.Live index serial) : Machine.run (.closePeer index serial) m = .ok ()
      (m.called (.onDisCon index serial (m.service.peers index).remoteIp (m.service.peers index).remotePort) (.onDisCon index)) := by
  show Machine.closePeer index serial m = _
  unfold Machine.closePeer
  rw [bind_ok (select_getPeer bound),if_neg fun dead => (Machine.not_live m index serial).mp dead live]
  rfl

-- Where the application does not call closePeer for a connection that is being closed,
-- onDisCon is called once at most for what onCon has reported, and closePeer calls it or
-- returns, is never more than maxPeerNum deep, and returns when onDisCon does: in libnet
-- and in net_select.
theorem closed_once (moves : List (Transition IocpService IocpInput)) (s : IocpService)
    (taken : List (Transition Machine MachineEvent)) (m : Machine) :
    (Path IocpService.IocpStep .new moves s → (∀ t ∈ moves, IocpService.Unentered t.before t.event) →
      ReportedOnce s.reports ∧ s.closingSlots.length ≤ Libnet.maxPeerNum ∧
      (∀ index < Libnet.maxPeerNum, ∀ serial sys, ∃ t, IocpService.run ⟨.closePeer index serial,sys⟩ s = .ok () t) ∧
      ∀ index serial context rest, s.stack = .onDisCon index serial context :: rest →
        ∀ ret sys, ∃ t, IocpService.run ⟨.resume ret,sys⟩ s = .ok () t) ∧
    (Path Machine.MachineStep .new taken m → (∀ t ∈ taken, Machine.Unentered t.before t.event) →
      ReportedOnce m.reports ∧ m.closingSlots.length ≤ NetSelect.maxPeerNum ∧
      (∀ index < NetSelect.maxPeerNum, ∀ serial, ∃ n, Machine.run (.closePeer index serial) m = .ok () n) ∧
      ∀ index rest, m.stack = .onDisCon index :: rest → ∀ ret, ∃ n, Machine.run (.resume ret) m = .ok () n) := by
  constructor
  · intro path unentered
    obtain ⟨sound,handles⟩ := IocpService.closed_path path unentered
    obtain ⟨inside,few⟩ := IocpService.closingSlots_few sound handles
    refine ⟨reported_once sound.paired,few,fun index bound serial sys => ?_,fun index serial context rest stack ret sys => ?_⟩
    · by_cases live : s.Live index serial
      · exact ⟨_,iocp_closePeer_live bound live sys⟩
      · exact ⟨_,iocp_closePeer_dead bound live sys⟩
    have member : index ∈ s.closingSlots := by
      unfold IocpService.closingSlots IocpService.cycle
      rw [stack]
      exact List.mem_cons_self
    exact IocpService.onDisCon_returns stack (inside index member) ret
  · intro path unentered
    obtain ⟨sound,bounded⟩ := Machine.closed_path path unentered
    refine ⟨reported_once sound.paired,Machine.closingSlots_few sound bounded,fun index bound serial => ?_,
      fun index rest stack ret => Machine.onDisCon_returns stack ret⟩
    by_cases live : m.Live index serial
    · exact ⟨_,select_closePeer_live bound live⟩
    · exact ⟨_,select_closePeer_dead bound live⟩

theorem iocp_visit : IocpService.IocpStep .new IocpService.visit (.after .new IocpService.visit) := .returns trivial rfl

theorem select_visit : Machine.MachineStep .new (Machine.connect 5) (.after .new (Machine.connect 5)) :=
  .returns ⟨nofun,fun valid => Machine.new_fresh valid⟩ rfl

-- onDisCon calls closePeer for the connection that it is told about, `depth` times.
theorem iocp_closed_again (depth : Nat) : ∃ taken last, Path IocpService.IocpStep .new taken last ∧
    last.Live 0 0 ∧ last.closingSlots = List.replicate depth 0 ∧ last.reports = .up 0 0 :: List.replicate depth (.down 0 0) := by
  induction depth with
  | zero => exact ⟨_,_,.step .nil iocp_visit,⟨rfl,by decide⟩,rfl,rfl⟩
  | succ depth ih =>
    obtain ⟨taken,last,path,live,deep,log⟩ := ih
    have step : IocpService.IocpStep last ⟨.closePeer 0 0,⟨true,0⟩⟩ _ :=
      .returns trivial (iocp_closePeer_live (by decide) live ⟨true,0⟩)
    refine ⟨_,_,.step path step,live,?_,?_⟩
    · rw [List.replicate_succ,← deep]
      rfl
    · rw [IocpService.reports_called last rfl,log,List.replicate_succ']
      rfl

theorem select_closed_again (depth : Nat) : ∃ taken last, Path Machine.MachineStep .new taken last ∧ last.Applies ∧
    last.Live 0 0 ∧ last.closingSlots = List.replicate depth 0 ∧ last.reports = .up 0 0 :: List.replicate depth (.down 0 0) := by
  induction depth with
  | zero => exact ⟨_,_,.step .nil select_visit,nofun,⟨rfl,by decide⟩,rfl,rfl⟩
  | succ depth ih =>
    obtain ⟨taken,last,path,applies,live,deep,log⟩ := ih
    have step : Machine.MachineStep last (.closePeer 0 0) _ := .returns applies (select_closePeer_live (by decide) live)
    refine ⟨_,_,.step path step,nofun,live,?_,?_⟩
    · rw [List.replicate_succ,← deep]
      rfl
    · rw [Machine.reports_called last rfl,log,List.replicate_succ']
      rfl

-- A connection is made, and closed from within onCon.
theorem closed_once_visit :
    (∃ taken last, Path IocpService.IocpStep .new taken last ∧ taken.length = 2 ∧ ReportedOnce last.reports) ∧
    ∃ taken last, Path Machine.MachineStep .new taken last ∧ taken.length = 2 ∧ ReportedOnce last.reports := by
  have iocp_leave : IocpService.IocpStep (.after .new IocpService.visit) IocpService.leave
      (.after (.after .new IocpService.visit) IocpService.leave) := .returns trivial rfl
  have select_leave : Machine.MachineStep (.after .new (Machine.connect 5)) (.closePeer 0 0) _ :=
    .returns nofun (select_closePeer_live (by decide) ⟨rfl,by decide⟩)
  have iocp := Path.step (.step .nil iocp_visit) iocp_leave
  have select := Path.step (.step .nil select_visit) select_leave
  obtain ⟨first,second⟩ := closed_once _ _ _ _
  refine ⟨⟨_,_,iocp,rfl,(first iocp fun t member => ?_).1⟩,_,_,select,rfl,(second select fun t member => ?_).1⟩
  · rcases List.mem_cons.mp member with rfl | member
    · exact nofun
    · cases List.mem_singleton.mp member
      exact fun _ _ _ _ => List.not_mem_nil
  · rcases List.mem_cons.mp member with rfl | member
    · exact nofun
    · cases List.mem_singleton.mp member
      exact fun _ _ _ _ => List.not_mem_nil

-- onDisCon calls closePeer for its own connection: it is called again, and again within
-- that.
theorem closed_twice :
    (∃ taken last, Path IocpService.IocpStep .new taken last ∧ last.reports = [.up 0 0,.down 0 0,.down 0 0]) ∧
    (∃ taken last, Path Machine.MachineStep .new taken last ∧ last.reports = [.up 0 0,.down 0 0,.down 0 0]) ∧
    (∀ depth, ∃ taken last, Path IocpService.IocpStep .new taken last ∧ last.closingSlots.length = depth) ∧
    ∀ depth, ∃ taken last, Path Machine.MachineStep .new taken last ∧ last.closingSlots.length = depth := by
  obtain ⟨first,s,iocp,_,_,iocp_log⟩ := iocp_closed_again 2
  obtain ⟨second,m,select,_,_,_,select_log⟩ := select_closed_again 2
  refine ⟨⟨first,s,iocp,iocp_log⟩,⟨second,m,select,select_log⟩,fun depth => ?_,fun depth => ?_⟩
  · obtain ⟨taken,last,path,_,deep,_⟩ := iocp_closed_again depth
    exact ⟨taken,last,path,by rw [deep,List.length_replicate]⟩
  · obtain ⟨taken,last,path,_,_,deep,_⟩ := select_closed_again depth
    exact ⟨taken,last,path,by rw [deep,List.length_replicate]⟩

end PcNetwork.Services
