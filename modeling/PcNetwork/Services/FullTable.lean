import PcNetwork.Services.ClosedOnce
import Mathlib.Data.Fintype.EquivFin

namespace PcNetwork.Services
open Libnet (IocpService IocpInput)
open NetSelect (Machine MachineEvent Fault)

-- All slots of the table have a socket.
def IocpFull (s : IocpService) : Prop := ∀ i < Libnet.maxPeerNum, (s.peers i).socket ≠ Libnet.invalidSocket

def SelectFull (m : Machine) : Prop := ∀ i < NetSelect.maxPeerNum, (m.service.peers i).socket ≠ NetSelect.invalidSocket

-- A socket too many is refused: the call returns, the socket is closed, and peers and
-- lists are as before.
def IocpRefused (s : IocpService) (socket : Int) (r : EStateM.Result String IocpService Unit) : Prop :=
  ∃ t, r = .ok () t ∧ socket ∈ t.closed ∧ t.peers = s.peers ∧ t.pending = s.pending

def SelectRefused (m : Machine) (socket : Int) (r : EStateM.Result Fault Machine Unit) : Prop :=
  ∃ n, r = .ok () n ∧ socket ∈ n.service.closed ∧ n.service.peers = m.service.peers ∧
    n.service.onlinePeerSet = m.service.onlinePeerSet

theorem iocp_newPeer_full {s : IocpService} (full : IocpFull s) : s.newPeer = (2^32-1,s) := by
  unfold IocpService.newPeer
  cases found : IocpService.freePeer s.peers Libnet.maxPeerNum 0 with
  | none => rfl
  | some i =>
    obtain ⟨bound,free⟩ := IocpService.freePeer_some found
    rw [Nat.zero_add] at bound
    exact absurd free (full i bound)

-- The index -1 is out of range: getPeer throws before anything else is done.
theorem iocp_register_full {s : IocpService} (full : IocpFull s) (sys : Libnet.System) (c : IocpService.Connection) :
    ∃ text, IocpService.registerSocket sys c s = .error text s := by
  have taken : (modifyGet IocpService.newPeer : Throwing IocpService Nat) s = .ok (2^32-1) s := by
    show EStateM.Result.ok s.newPeer.1 s.newPeer.2 = _
    rw [iocp_newPeer_full full]
  have outside : ∃ text, IocpService.getPeer (2^32-1) s = .error text s := ⟨_,if_pos (by decide)⟩
  obtain ⟨text,threw⟩ := outside
  unfold IocpService.registerSocket
  rw [bind_ok taken,bind_error threw]
  exact ⟨text,rfl⟩

theorem select_free_full {m : Machine} (full : SelectFull m) : m.service.getFreeIndex = (2^32-1,m.service) := by
  unfold NetSelect.SelectService.getFreeIndex
  cases found : NetSelect.SelectService.freeIndex m.service.peers NetSelect.maxPeerNum 0 with
  | none => rfl
  | some i =>
    obtain ⟨bound,free⟩ := NetSelect.SelectService.freeIndex_some found
    rw [Nat.zero_add] at bound
    exact absurd free (full i bound)

-- The peer of index -1 is NULL.
theorem select_register_full {m : Machine} (full : SelectFull m) (socket : Int) (ip : String) (port : UInt32) :
    Machine.registerSocket socket ip port m = .error .nullPointer m := by
  have taken : Machine.call (modifyGet fun s => s.getFreeIndex) m = .ok (2^32-1) m := by
    show EStateM.Result.ok m.service.getFreeIndex.1 {m with service := m.service.getFreeIndex.2} = _
    rw [select_free_full full]
  have outside : Machine.call (NetSelect.SelectService.getPeer (2^32-1)) m = .error .nullPointer m := by
    unfold Machine.call
    rw [NetSelect.SelectService.getPeer_outside (by decide)]
  unfold Machine.registerSocket
  rw [bind_ok taken,bind_error outside]

theorem iocp_connect_full {s : IocpService} (full : IocpFull s) (sys : Libnet.System) {c : IocpService.Connection}
    (valid : c.socket ≠ Libnet.invalidSocket) : ∃ text, IocpService.run ⟨.connectPeer (.ok c),sys⟩ s = .error text s := by
  obtain ⟨text,threw⟩ := iocp_register_full full sys c
  have start : IocpService.run ⟨.connectPeer (.ok c),sys⟩ s =
      ((IocpService.registerSocket sys c >>= fun _ => pure true) >>= fun _ => pure () : Throwing IocpService Unit) s := by
    show ((if c.socket = Libnet.invalidSocket then return false
      else do IocpService.registerSocket sys c; return true : Throwing IocpService Bool) >>= fun _ => pure ()) s = _
    rw [if_neg valid]
  rw [start,bind_assoc,bind_error threw]
  exact ⟨text,rfl⟩

theorem iocp_accept_full {s : IocpService} (full : IocpFull s) (sys : Libnet.System) (c : IocpService.Connection) :
    ∃ text, IocpService.run ⟨.acceptTick (.ok (some c)),sys⟩ s = .error text s := by
  obtain ⟨text,threw⟩ := iocp_register_full full sys c
  have start : IocpService.run ⟨.acceptTick (.ok (some c)),sys⟩ s =
      (if s.listenSd = Libnet.invalidSocket then throw "no socket is listen."
        else IocpService.registerSocket sys c : Throwing IocpService Unit) s := rfl
  rw [start]
  split
  · exact ⟨_,rfl⟩
  · exact ⟨text,threw⟩

theorem select_connect_full {m : Machine} (full : SelectFull m) {c : NetSelect.SelectService.Connection}
    (valid : c.socket ≠ NetSelect.invalidSocket) : Machine.run (.connectPeer (some c)) m = .error .nullPointer m := by
  have null := select_register_full full c.socket c.remoteIp c.remotePort
  have start : Machine.run (.connectPeer (some c)) m =
      ((Machine.registerSocket c.socket c.remoteIp c.remotePort >>= fun _ => pure true) >>= fun _ => pure () : NetSelect.Moves Unit) m := by
    show ((if c.socket = NetSelect.invalidSocket then return false
      else do Machine.registerSocket c.socket c.remoteIp c.remotePort; return true : NetSelect.Moves Bool) >>= fun _ => pure ()) m = _
    rw [if_neg valid]
  rw [start,bind_assoc,bind_error null]

-- eventLoop finds the listening socket ready and accept gives a socket.
def Accepts (m : Machine) (o : NetSelect.SelectService.Outside) : Prop :=
  m.service.listenSocket ≠ NetSelect.invalidSocket ∧ o.accepted.socket ≠ NetSelect.invalidSocket ∧
  ∃ reads writes, o.ready = some (reads,writes) ∧ m.service.listenSocket ∈ (m.service.polled reads writes).readUse

theorem select_accept_full {m : Machine} (full : SelectFull m) {o : NetSelect.SelectService.Outside} (accepts : Accepts m o) :
    ∃ n, Machine.run (.eventLoop o) m = .error .nullPointer n := by
  obtain ⟨listening,valid,reads,writes,ready,member⟩ := accepts
  let polled : Machine := {m with service := m.service.polled reads writes}
  let looping : Machine := {polled with stack := .loop o 0 :: m.stack}
  have null := select_register_full (m := looping) full o.accepted.socket o.accepted.remoteIp o.accepted.remotePort
  have some_ready : polled.service.readUse.length+polled.service.writeUse.length > 0 :=
    Nat.lt_of_lt_of_le (List.length_pos_of_mem member) (Nat.le_add_right _ _)
  have inits : Machine.call NetSelect.SelectService.initSets m = .ok () {m with service := {m.service with
      readBak := m.service.listed,readUse := m.service.listed,writeUse := m.service.writeBak}} := by
    unfold Machine.call
    rw [NetSelect.SelectService.initSets_ok]
  refine ⟨looping,?_⟩
  show Machine.eventLoop o m = _
  unfold Machine.eventLoop
  rw [bind_ok inits,ready]
  refine (bind_ok (t := polled) rfl _).trans ?_
  refine (bind_ok (p := (get : NetSelect.Moves Machine)) (a := polled) (t := polled) rfl _).trans ?_
  rw [if_pos some_ready]
  refine (bind_ok (t := looping) rfl _).trans ?_
  unfold Machine.acceptNew
  refine (bind_ok (p := (get : NetSelect.Moves Machine)) (a := looping) (t := looping) rfl _).trans ?_
  rw [if_pos ⟨listening,member⟩,if_pos valid]
  exact null

-- With a full table one more socket is fatal, wherever it comes from: libnet throws,
-- net_select reads through NULL, and neither closes the socket.
theorem full_table_fatal (s : IocpService) (m : Machine) :
    (IocpFull s → ∀ sys c, c.socket ≠ Libnet.invalidSocket →
      ¬ IocpRefused s c.socket (IocpService.run ⟨.connectPeer (.ok c),sys⟩ s) ∧
      ¬ IocpRefused s c.socket (IocpService.run ⟨.acceptTick (.ok (some c)),sys⟩ s)) ∧
    (SelectFull m → (∀ c, c.socket ≠ NetSelect.invalidSocket →
        ¬ SelectRefused m c.socket (Machine.run (.connectPeer (some c)) m)) ∧
      ∀ o, Accepts m o → ¬ SelectRefused m o.accepted.socket (Machine.run (.eventLoop o) m)) := by
  refine ⟨fun full sys c valid => ⟨?_,?_⟩,fun full => ⟨fun c valid => ?_,fun o accepts => ?_⟩⟩
  · obtain ⟨text,threw⟩ := iocp_connect_full full sys valid
    rintro ⟨t,returned,_⟩
    rw [threw] at returned
    cases returned
  · obtain ⟨text,threw⟩ := iocp_accept_full full sys c
    rintro ⟨t,returned,_⟩
    rw [threw] at returned
    cases returned
  · rintro ⟨n,returned,_⟩
    rw [select_connect_full full valid] at returned
    cases returned
  · obtain ⟨n,null⟩ := select_accept_full full accepts
    rintro ⟨n,returned,_⟩
    rw [null] at returned
    cases returned

theorem freePeer_none {peers : Nat → Libnet.Peer} {count start i : Nat} (missing : IocpService.freePeer peers count start = none)
    (low : start ≤ i) (high : i < start+count) : (peers i).socket ≠ Libnet.invalidSocket := by
  induction count generalizing start with
  | zero => exact absurd high (Nat.not_lt.mpr low)
  | succ count ih =>
    unfold IocpService.freePeer at missing
    split at missing
    · cases missing
    · rename_i taken
      rcases Nat.eq_or_lt_of_le low with rfl | less
      · exact taken
      · exact ih missing less (by omega)

theorem freeIndex_none {peers : Nat → NetSelect.Peer} {count start i : Nat}
    (missing : NetSelect.SelectService.freeIndex peers count start = none) (low : start ≤ i) (high : i < start+count) :
    (peers i).socket ≠ NetSelect.invalidSocket := by
  induction count generalizing start with
  | zero => exact absurd high (Nat.not_lt.mpr low)
  | succ count ih =>
    unfold NetSelect.SelectService.freeIndex at missing
    split at missing
    · cases missing
    · rename_i taken
      rcases Nat.eq_or_lt_of_le low with rfl | less
      · exact taken
      · exact ih missing less (by omega)

theorem iocp_register_returns {s : IocpService} {i : Nat} (bound : i < Libnet.maxPeerNum)
    (free : (s.peers i).socket = Libnet.invalidSocket) (c : IocpService.Connection) :
    ∃ t, IocpService.registerSocket ⟨true,0⟩ c s = .ok () t := by
  cases found : IocpService.freePeer s.peers Libnet.maxPeerNum 0 with
  | none => exact absurd free (freePeer_none found (Nat.zero_le _) (by omega))
  | some index =>
    obtain ⟨inside,_⟩ := IocpService.freePeer_some found
    rw [Nat.zero_add] at inside
    have got := IocpService.getPeer_ok inside
    have first : s.newPeer.1 = index := by
      unfold IocpService.newPeer
      rw [found]
    have taken : (modifyGet IocpService.newPeer : Throwing IocpService Nat) s = .ok index s.newPeer.2 := by
      show EStateM.Result.ok s.newPeer.1 s.newPeer.2 = _
      rw [first]
    unfold IocpService.registerSocket
    rw [bind_ok taken,bind_ok (got _),bind_ok (p := IocpService.updateCompletionPort ⟨true,0⟩) rfl]
    exact ⟨_,(bind_ok rfl _).trans (bind_ok (got _) _)⟩

theorem fewer_free {p q : Nat → Prop} [DecidablePred p] [DecidablePred q] {count k : Nat} (bound : k < count)
    (fewer : ∀ i, q i → p i) (free : p k) (taken : ¬ q k) :
    ((Finset.range count).filter q).card < ((Finset.range count).filter p).card := by
  refine Finset.card_lt_card ((Finset.ssubset_iff_of_subset fun i member => ?_).mpr ⟨k,?_,?_⟩)
  · obtain ⟨inside,holds⟩ := Finset.mem_filter.mp member
    exact Finset.mem_filter.mpr ⟨inside,fewer i holds⟩
  · exact Finset.mem_filter.mpr ⟨Finset.mem_range.mpr bound,free⟩
  · exact fun member => taken (Finset.mem_filter.mp member).2

def iocpFree (s : IocpService) : Finset Nat :=
  (Finset.range Libnet.maxPeerNum).filter fun i => (s.peers i).socket = Libnet.invalidSocket

theorem registered_fewer {s t : IocpService} {c : IocpService.Connection} (registered : IocpService.Registered s c t)
    (valid : c.socket ≠ Libnet.invalidSocket) : (iocpFree t).card < (iocpFree s).card := by
  cases registered with
  | given index bound free =>
    have at_index : ((s.setPeer index (s.joined index c)).peers index).socket = c.socket :=
      congrArg Libnet.Peer.socket (IocpService.setPeer_at s index _)
    refine fewer_free bound (fun i closed => ?_) free fun closed => valid (at_index.symm.trans closed)
    by_cases same : i = index
    · exact same ▸ free
    · have kept : (s.setPeer index (s.joined index c)).peers i = s.peers i := IocpService.setPeer_off s _ same
      exact (congrArg Libnet.Peer.socket kept).symm.trans closed

-- A table that is not full takes a connection, so it gets full.
theorem iocp_fills {s : IocpService} (path : Path IocpService.IocpStep .new taken s) :
    ∃ taken last, Path IocpService.IocpStep .new taken last ∧ IocpFull last := by
  induction left : (iocpFree s).card using Nat.strongRecOn generalizing s taken with
  | ind count ih =>
    by_cases full : IocpFull s
    · exact ⟨_,_,path,full⟩
    · obtain ⟨i,bound,free⟩ : ∃ i < Libnet.maxPeerNum, (s.peers i).socket = Libnet.invalidSocket := by
        unfold IocpFull at full
        simpa using full
      let c : IocpService.Connection := ⟨5,"127.0.0.1",80⟩
      obtain ⟨t,registers⟩ := iocp_register_returns bound free c
      have step : IocpService.IocpStep s ⟨.connectPeer (.ok c),⟨true,0⟩⟩ t := .returns trivial (by
        show ((IocpService.registerSocket ⟨true,0⟩ c >>= fun _ => pure true) >>= fun _ => pure () : Throwing IocpService Unit) s = _
        rw [bind_assoc,bind_ok registers]
        rfl)
      have fewer := registered_fewer (IocpService.registerSocket_registered registers) (by decide)
      exact ih _ (left ▸ fewer) (.step path step) rfl

theorem select_register_returns {m : Machine} {i : Nat} (bound : i < NetSelect.maxPeerNum)
    (free : (m.service.peers i).socket = NetSelect.invalidSocket) (socket : Int) (ip : String) (port : UInt32) :
    ∃ n, Machine.registerSocket socket ip port m = .ok () n := by
  cases found : NetSelect.SelectService.freeIndex m.service.peers NetSelect.maxPeerNum 0 with
  | none => exact absurd free (freeIndex_none found (Nat.zero_le _) (by omega))
  | some index =>
    obtain ⟨inside,_⟩ := NetSelect.SelectService.freeIndex_some found
    rw [Nat.zero_add] at inside
    have got (v : Machine) := select_getPeer (m := v) inside
    have first : m.service.getFreeIndex.1 = index := by
      unfold NetSelect.SelectService.getFreeIndex
      rw [found]
    have taken : Machine.call (modifyGet fun s => s.getFreeIndex) m = .ok index {m with service := m.service.getFreeIndex.2} := by
      show EStateM.Result.ok m.service.getFreeIndex.1 {m with service := m.service.getFreeIndex.2} = _
      rw [first]
    unfold Machine.registerSocket
    rw [bind_ok taken,bind_ok (got _)]
    exact ⟨_,(bind_ok rfl _).trans ((bind_ok rfl _).trans (bind_ok (got _) _))⟩

def selectFree (m : Machine) : Finset Nat :=
  (Finset.range NetSelect.maxPeerNum).filter fun i => (m.service.peers i).socket = NetSelect.invalidSocket

theorem joined_fewer {m n : Machine} {c : NetSelect.SelectService.Connection} (registered : Machine.Registered m c n)
    (valid : c.socket ≠ NetSelect.invalidSocket) : (selectFree n).card < (selectFree m).card := by
  cases registered with
  | given slot bound free =>
    have at_slot : ((Machine.joined m.service slot c).peers slot).socket = c.socket :=
      congrArg NetSelect.Peer.socket (Machine.setPeer_at m.service slot _)
    refine fewer_free bound (fun i closed => ?_) free fun closed => valid (at_slot.symm.trans closed)
    by_cases same : i = slot
    · exact same ▸ free
    · have kept : (Machine.joined m.service slot c).peers i = m.service.peers i := Machine.setPeer_off m.service _ same
      exact (congrArg NetSelect.Peer.socket kept).symm.trans closed

-- There is always a handle that is not in use.
theorem fresh_exists (m : Machine) : ∃ socket, socket ≠ NetSelect.invalidSocket ∧ m.service.Fresh socket := by
  let used := (m.service.onlinePeerSet.map fun i => (m.service.peers i).socket) ++ [m.service.listenSocket,NetSelect.invalidSocket]
  obtain ⟨socket,absent⟩ := Infinite.exists_notMem_finset used.toFinset
  rw [List.mem_toFinset,List.mem_append,not_or] at absent
  obtain ⟨unowned,others⟩ := absent
  refine ⟨socket,fun same => others ?_,fun ⟨i,member,same⟩ => unowned ?_,fun same => others ?_⟩
  · exact same ▸ List.mem_cons_of_mem _ (List.mem_singleton.mpr rfl)
  · exact List.mem_map.mpr ⟨i,member,same⟩
  · exact same ▸ List.mem_cons_self

theorem select_fills {m : Machine} (path : Path Machine.MachineStep .new taken m) (applies : m.Applies) :
    ∃ taken last, Path Machine.MachineStep .new taken last ∧ last.Applies ∧ SelectFull last := by
  induction left : (selectFree m).card using Nat.strongRecOn generalizing m taken with
  | ind count ih =>
    by_cases full : SelectFull m
    · exact ⟨_,_,path,applies,full⟩
    · obtain ⟨i,bound,free⟩ : ∃ i < NetSelect.maxPeerNum, (m.service.peers i).socket = NetSelect.invalidSocket := by
        unfold SelectFull at full
        simpa using full
      obtain ⟨socket,valid,fresh⟩ := fresh_exists m
      let c : NetSelect.SelectService.Connection := ⟨socket,"127.0.0.1",80⟩
      obtain ⟨n,registers⟩ := select_register_returns bound free c.socket c.remoteIp c.remotePort
      have step : Machine.MachineStep m (.connectPeer (some c)) n := .returns ⟨applies,fun _ => fresh⟩ (by
        show ((if c.socket = NetSelect.invalidSocket then return false
          else do Machine.registerSocket c.socket c.remoteIp c.remotePort; return true : NetSelect.Moves Bool) >>= fun _ => pure ()) m = _
        rw [if_neg valid,bind_assoc,bind_ok registers]
        rfl)
      have registered := Machine.registerSocket_registered registers
      have waits : n.Applies := by
        cases registered with
        | given slot bound free => exact nofun
      exact ih _ (left ▸ joined_fewer registered valid) (.step path step) waits rfl

-- The table of each service can be filled, and the next connection is the end.
theorem full_table_reached :
    (∃ taken s, Path IocpService.IocpStep .new taken s ∧ IocpFull s ∧ ∀ sys c, c.socket ≠ Libnet.invalidSocket →
      ¬ IocpRefused s c.socket (IocpService.run ⟨.connectPeer (.ok c),sys⟩ s)) ∧
    ∃ taken m, Path Machine.MachineStep .new taken m ∧ SelectFull m ∧ ∀ c, c.socket ≠ NetSelect.invalidSocket →
      ¬ SelectRefused m c.socket (Machine.run (.connectPeer (some c)) m) := by
  obtain ⟨first,s,iocp,iocp_full⟩ := iocp_fills .nil
  obtain ⟨second,m,select,_,select_full⟩ := select_fills .nil nofun
  exact ⟨⟨first,s,iocp,iocp_full,fun sys c valid => ((full_table_fatal s m).1 iocp_full sys c valid).1⟩,
    second,m,select,select_full,fun c valid => ((full_table_fatal s m).2 select_full).1 c valid⟩

-- Socket 5 comes to a full table of libnet: getPeer throws, nothing is closed.
theorem full_table_throws : ∃ taken s, Path IocpService.IocpStep .new taken s ∧ IocpFull s ∧
    ∃ text, IocpService.run ⟨.connectPeer (.ok ⟨5,"127.0.0.1",80⟩),⟨true,0⟩⟩ s = .error text s := by
  obtain ⟨taken,s,path,full⟩ := iocp_fills .nil
  exact ⟨taken,s,path,full,iocp_connect_full full ⟨true,0⟩ (by decide)⟩

end PcNetwork.Services
