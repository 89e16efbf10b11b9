import PcNetwork.NetSelect.Closing

namespace PcNetwork.NetSelect.Machine
open SelectService (Outside Connection Fresh)
variable {m n : Machine} {s : SelectService} {index i : Nat} {serial : UInt64} {o : Outside} {b c : SockBuf}

-- An int that is not negative.
theorem toInt32_pos {k : UInt32} (small : k.toNat < 2^31) (nothing : ¬ k.toInt32 > 0) : k.toNat = 0 := by
  have signed : k.toInt32.toInt = (k.toNat : Int).bmod (2^32) := BitVec.toInt_eq_toNat_bmod _
  rw [gt_iff_lt,Int32.lt_iff_toInt_lt,signed,Int.bmod_eq_of_le (by omega) (by omega)] at nothing
  have zero : (0 : Int32).toInt = 0 := rfl
  omega

-- What ::send has taken was the front of the readable bytes.
theorem Wrote.split {answer : Option Nat} (wrote : Wrote answer b c) (ok : b.Ok) :
    c.Ok ∧ b.readable = sendTakes answer b ++ c.readable := by
  obtain ⟨count,length⟩ := SockBuf.readableBytes_ok ok
  have small : b.writeIndex.toNat-b.readIndex.toNat < 2^31 := by
    have inside := ok.write_le
    have bound := ok.small
    omega
  cases wrote with
  | empty counted nothing =>
    rw [count] at counted
    cases counted
    have none_readable : b.readable.length = 0 := by
      rw [ok.length_readable,← length]
      exact toInt32_pos (length ▸ small) nothing
    have empty := List.eq_nil_of_length_eq_zero none_readable
    refine ⟨ok,?_⟩
    rw [empty]
    unfold sendTakes
    split
    · rfl
    · rw [empty,List.take_nil]
      rfl
  | @moved _ bytes _ counted something took moves =>
    rw [count] at counted
    cases counted
    have fits : (UInt32.ofNat (min bytes (b.writeIndex-b.readIndex).toNat)).toNat = min bytes b.readable.length := by
      rw [UInt32.toNat_ofNat',Nat.mod_eq_of_lt (by omega),ok.length_readable,length]
    obtain ⟨d,moved,kept,parts,_⟩ := SockBuf.readMove_ok ok (fits ▸ Nat.min_le_right _ _)
    rw [moved] at moves
    cases moves
    refine ⟨kept,?_⟩
    rw [fits,← List.take_eq_take_min] at parts
    rw [took]
    exact parts

-- The peers with a socket are those in the online set.
structure Listed (s : SelectService) : Prop where
  once : s.onlinePeerSet.Nodup
  online : ∀ i, i ∈ s.onlinePeerSet ↔ (s.peers i).socket ≠ invalidSocket
  bound : ∀ i ∈ s.onlinePeerSet, i < maxPeerNum

-- A byte that waits to be written has its socket in the write set, and what ::send has
-- taken and what waits is what was passed to send, as far as send takes the socket.
structure Wakes (m : Machine) (i : Nat) : Prop where
  wanted : (m.service.peers i).writeBuf.readable ≠ [] → (m.service.peers i).socket ∈ m.service.writeBak
  streams : 0 < (m.service.peers i).socket → m.accepted i ++ (m.service.peers i).writeBuf.readable = m.passed i

structure WritePath (m : Machine) : Prop where
  listed : Listed m.service
  apart : ∀ i j, (m.service.peers i).socket ≠ invalidSocket → (m.service.peers i).socket = (m.service.peers j).socket → i = j
  buffers : ∀ i, (m.service.peers i).writeBuf.Ok
  wakes : ∀ i, (m.service.peers i).socket ≠ invalidSocket → Wakes m i

-- Nothing of the write side has changed.
structure Unwritten (m n : Machine) : Prop where
  online : n.service.onlinePeerSet = m.service.onlinePeerSet
  socket : ∀ i, (n.service.peers i).socket = (m.service.peers i).socket
  writeBuf : ∀ i, (n.service.peers i).writeBuf = (m.service.peers i).writeBuf
  writeBak : n.service.writeBak = m.service.writeBak
  passed : n.passed = m.passed
  accepted : n.accepted = m.accepted

theorem WritePath.unwritten (path : WritePath m) (same : Unwritten m n) : WritePath n := by
  obtain ⟨⟨once,online,bound⟩,apart,buffers,wakes⟩ := path
  obtain ⟨online_same,socket,writeBuf,writeBak,passed,accepted⟩ := same
  refine ⟨⟨?_,fun i => ?_,fun i member => ?_⟩,fun i j valid equal => ?_,fun i => ?_,fun i valid => ?_⟩
  · rw [online_same]
    exact once
  · rw [online_same,socket]
    exact online i
  · exact bound i (online_same ▸ member)
  · rw [socket] at valid
    rw [socket,socket] at equal
    exact apart i j valid equal
  · rw [writeBuf]
    exact buffers i
  · rw [socket] at valid
    obtain ⟨wanted,streams⟩ := wakes i valid
    constructor
    · rw [writeBuf,socket,writeBak]
      exact wanted
    · rw [writeBuf,socket,passed,accepted]
      exact streams

theorem stack_unwritten (m : Machine) (stack : List Frame) : Unwritten m {m with stack} :=
  ⟨rfl,fun _ => rfl,fun _ => rfl,rfl,rfl,rfl⟩

theorem called_unwritten (m : Machine) (c : Callback) (frame : Frame) : Unwritten m (m.called c frame) :=
  ⟨rfl,fun _ => rfl,fun _ => rfl,rfl,rfl,rfl⟩

theorem setPeer_unwritten (m : Machine) (index : Nat) {p : Peer} (socket : p.socket = (m.service.peers index).socket)
    (writeBuf : p.writeBuf = (m.service.peers index).writeBuf) : Unwritten m (m.on (m.service.setPeer index p)) := by
  refine ⟨rfl,fun i => ?_,fun i => ?_,rfl,rfl,rfl⟩
  · by_cases equal : i = index
    · subst equal
      rw [on_service,setPeer_at]
      exact socket
    · rw [on_service,setPeer_off _ p equal]
  · by_cases equal : i = index
    · subst equal
      rw [on_service,setPeer_at]
      exact writeBuf
    · rw [on_service,setPeer_off _ p equal]

theorem Closing.unwritten (closing : Closing m index serial n) : Unwritten m n := by
  cases closing with
  | stale dead => exact ⟨rfl,fun _ => rfl,fun _ => rfl,rfl,rfl,rfl⟩
  | called live ip port => exact called_unwritten m _ _

theorem Wakes.kept (wakes : Wakes m i) (peers : n.service.peers i = m.service.peers i)
    (writeBak : (m.service.peers i).socket ∈ m.service.writeBak → (m.service.peers i).socket ∈ n.service.writeBak)
    (passed : n.passed i = m.passed i) (accepted : n.accepted i = m.accepted i) : Wakes n i := by
  obtain ⟨wanted,streams⟩ := wakes
  constructor
  · rw [peers]
    exact fun some_bytes => writeBak (wanted some_bytes)
  · rw [peers,passed,accepted]
    exact streams

-- Only the slot `index` is another than before, and its socket is the same.
structure Only (index : Nat) (m n : Machine) : Prop where
  online : n.service.onlinePeerSet = m.service.onlinePeerSet
  socket : (n.service.peers index).socket = (m.service.peers index).socket
  others : ∀ i, i ≠ index → n.service.peers i = m.service.peers i
  writeBak : ∀ i, i ≠ index → (m.service.peers i).socket ≠ invalidSocket → (m.service.peers i).socket ∈ m.service.writeBak →
    (m.service.peers i).socket ∈ n.service.writeBak
  passed : ∀ i, i ≠ index → n.passed i = m.passed i
  accepted : ∀ i, i ≠ index → n.accepted i = m.accepted i

theorem Only.sockets (only : Only index m n) (i : Nat) : (n.service.peers i).socket = (m.service.peers i).socket := by
  by_cases same : i = index
  · subst same
    exact only.socket
  · rw [only.others i same]

theorem WritePath.only (path : WritePath m) (only : Only index m n) (buffer : (n.service.peers index).writeBuf.Ok)
    (wakes : (m.service.peers index).socket ≠ invalidSocket → Wakes n index) : WritePath n := by
  obtain ⟨⟨once,online,bound⟩,apart,buffers,others⟩ := path
  refine ⟨⟨?_,fun i => ?_,fun i member => ?_⟩,fun i j valid equal => ?_,fun i => ?_,fun i valid => ?_⟩
  · rw [only.online]
    exact once
  · rw [only.online,only.sockets]
    exact online i
  · exact bound i (only.online ▸ member)
  · rw [only.sockets] at valid
    rw [only.sockets,only.sockets] at equal
    exact apart i j valid equal
  · by_cases same : i = index
    · exact same ▸ buffer
    · rw [only.others i same]
      exact buffers i
  · rw [only.sockets] at valid
    by_cases same : i = index
    · subst same
      exact wakes valid
    · exact (others i valid).kept (only.others i same) (only.writeBak i same valid) (only.passed i same) (only.accepted i same)

theorem fdSet_keeps {socket sd : Int} {set : List Int} (member : sd ∈ set) : sd ∈ fdSet socket set := by
  unfold fdSet
  split
  · exact member
  · split
    · exact List.mem_append_left _ member
    · exact member

theorem Sending.writePath {bytes : List UInt8} (sending : Sending m index serial bytes n) (path : WritePath m)
    (small : bytes.length < 2^31)
    (inserts : (m.service.peers index).socket ∈ fdSet (m.service.peers index).socket m.service.writeBak) : WritePath n := by
  cases sending with
  | stale dead => exact path
  | dropped live illegal =>
    have only : Only index m (pass index bytes m) :=
      ⟨rfl,rfl,fun _ _ => rfl,fun _ _ _ member => member,fun i apart => if_neg apart,fun _ _ => rfl⟩
    refine path.only only (path.buffers index) fun valid => ⟨(path.wakes index valid).wanted,fun legal => ?_⟩
    exact absurd legal (Int.not_lt.mpr illegal)
  | @pushed b live legal grown =>
    have at_index : (m.push index bytes b).service.peers index = {m.service.peers index with writeBuf := b} := setPeer_at _ _ _
    have only : Only index m (m.push index bytes b) := by
      refine ⟨rfl,?_,fun i apart => setPeer_off _ _ apart,fun i apart valid member => fdSet_keeps member,
        fun i apart => if_neg apart,fun _ _ => rfl⟩
      rw [at_index]
    rcases SockBuf.apendBuf_grown (path.buffers index) small with ⟨c,ran,result⟩ | ⟨_,text,threw⟩
    · have same : SockBuf.push bytes (m.service.peers index).writeBuf = .ok () c := ran
      rw [same] at grown
      cases grown
      refine path.only only (by rw [at_index]; exact result.ok) fun valid => ⟨fun _ => ?_,fun legal => ?_⟩
      · rw [at_index]
        exact inserts
      · rw [at_index] at legal
        have before := (path.wakes index valid).streams legal
        have passed : (m.push index bytes b).passed index = m.passed index ++ bytes := if_pos rfl
        rw [at_index,passed,result.readable,← before]
        exact (List.append_assoc _ _ _).symm
    · have same : SockBuf.push bytes (m.service.peers index).writeBuf = .error text _ := threw
      rw [same] at grown
      cases grown

theorem wrote_only (m : Machine) (o : Outside) (index : Nat) (b : SockBuf) : Only index m (m.wrote o index b) := by
  have socket := congrArg Peer.socket (setPeer_at m.service index {m.service.peers index with writeBuf := b})
  exact ⟨rfl,socket,fun i apart => setPeer_off _ _ apart,fun _ _ _ member => member,fun _ _ => rfl,fun i apart => if_neg apart⟩

theorem wrote_streams (path : WritePath m) (valid : (m.service.peers index).socket ≠ invalidSocket)
    (parts : (m.service.peers index).writeBuf.readable =
      sendTakes (o.sends (m.service.peers index).socket) (m.service.peers index).writeBuf ++ b.readable)
    (legal : 0 < (m.service.peers index).socket) :
    (m.wrote o index b).accepted index ++ b.readable = (m.wrote o index b).passed index := by
  have before := (path.wakes index valid).streams legal
  have accepted : (m.wrote o index b).accepted index =
      m.accepted index ++ sendTakes (o.sends (m.service.peers index).socket) (m.service.peers index).writeBuf := if_pos rfl
  rw [accepted,List.append_assoc,← parts]
  exact before

theorem Writing.writePath (writing : Writing m o index n) (path : WritePath m) : WritePath n := by
  cases writing with
  | unready => exact path
  | failed closing => exact path.unwritten closing.unwritten
  | @left b k wrote count some_left =>
    obtain ⟨ok,parts⟩ := wrote.split (path.buffers index)
    have at_index : (m.wrote o index b).service.peers index = {m.service.peers index with writeBuf := b} := setPeer_at _ _ _
    refine path.only (wrote_only m o index b) (by rw [at_index]; exact ok) fun valid => ⟨fun some_bytes => ?_,fun legal => ?_⟩
    · rw [at_index] at some_bytes ⊢
      refine (path.wakes index valid).wanted fun none_before => ?_
      rw [none_before] at parts
      exact some_bytes (List.append_eq_nil_iff.mp parts.symm).2
    · rw [at_index] at legal ⊢
      exact wrote_streams path valid parts legal
  | @drained b k wrote count none_left =>
    obtain ⟨ok,parts⟩ := wrote.split (path.buffers index)
    have at_index : ((m.wrote o index b).drained (m.service.peers index).socket).service.peers index =
        {m.service.peers index with writeBuf := b} := setPeer_at _ _ _
    have empty : b.readable = [] := by
      obtain ⟨counts,length⟩ := SockBuf.readableBytes_ok ok
      rw [counts] at count
      cases count
      apply List.eq_nil_of_length_eq_zero
      rw [ok.length_readable,← length,none_left]
      rfl
    have only : Only index m ((m.wrote o index b).drained (m.service.peers index).socket) := by
      have before := wrote_only m o index b
      refine ⟨before.online,before.socket,before.others,fun i apart valid member => ?_,before.passed,before.accepted⟩
      exact (List.mem_erase_of_ne fun same => apart (path.apart i index valid same)).mpr member
    refine path.only only (by rw [at_index]; exact ok) fun valid => ⟨fun some_bytes => ?_,fun legal => ?_⟩
    · rw [at_index] at some_bytes
      exact absurd empty some_bytes
    · rw [at_index] at legal ⊢
      exact wrote_streams path valid parts legal

theorem Reading.writePath (reading : Reading m o index n) (path : WritePath m) : WritePath n := by
  cases reading with
  | unready writing => exact writing.writePath path
  | failed b closing =>
    have same := setPeer_unwritten m index (p := {m.service.peers index with readBuf := b}) rfl rfl
    exact (path.unwritten same).unwritten closing.unwritten
  | read b =>
    have same := setPeer_unwritten m index (p := {m.service.peers index with readBuf := b}) rfl rfl
    exact (path.unwritten same).unwritten (called_unwritten _ _ _)

theorem Registered.writePath {c : Connection} (registered : Registered m c n) (path : WritePath m)
    (valid : c.socket ≠ invalidSocket) (fresh : Fresh m.service c.socket) : WritePath n := by
  obtain ⟨⟨once,online,bound⟩,apart,buffers,wakes⟩ := path
  cases registered with
  | given slot inside free =>
    have at_slot : (joined m.service slot c).peers slot = {m.service.peers slot with
        serial := m.service.serial
        socket := c.socket
        readBuf := final (SockBuf.reset (m.service.peers slot).readBuf)
        writeBuf := final (SockBuf.reset (m.service.peers slot).writeBuf)
        remoteIp := c.remoteIp
        remotePort := c.remotePort} := setPeer_at _ _ _
    have others (i : Nat) (other : i ≠ slot) : (joined m.service slot c).peers i = m.service.peers i := setPeer_off _ _ other
    have absent : slot ∉ m.service.onlinePeerSet := fun member => (online slot).mp member free
    have unused (i : Nat) (same : (m.service.peers i).socket = c.socket) : False :=
      fresh.unowned ⟨i,(online i).mpr (same ▸ valid),same⟩
    let t := (forget slot (m.on (joined m.service slot c))).called
      (.onCon slot m.service.serial c.remoteIp c.remotePort) (.onCon slot)
    have peers : t.service.peers = (joined m.service slot c).peers := rfl
    refine ⟨⟨?_,fun i => ?_,fun i member => ?_⟩,fun i j open_i equal => ?_,fun i => ?_,fun i open_i => ?_⟩
    · refine List.nodup_append.mpr ⟨once,List.pairwise_singleton _ _,fun i member j single => ?_⟩
      cases List.mem_singleton.mp single
      exact fun same => absent (same ▸ member)
    · show i ∈ m.service.onlinePeerSet ++ [slot] ↔ ((joined m.service slot c).peers i).socket ≠ invalidSocket
      rw [List.mem_append,List.mem_singleton]
      by_cases same : i = slot
      · subst same
        rw [at_slot]
        exact ⟨fun _ => valid,fun _ => .inr rfl⟩
      · rw [others i same]
        exact ⟨fun either => (online i).mp (either.resolve_right same),fun open_i => .inl ((online i).mpr open_i)⟩
    · rcases List.mem_append.mp (show i ∈ m.service.onlinePeerSet ++ [slot] from member) with old | new
      · exact bound i old
      · exact List.mem_singleton.mp new ▸ inside
    · rw [peers] at open_i equal
      by_cases first : i = slot <;> by_cases second : j = slot
      · rw [first,second]
      · rw [first,at_slot,others j second] at equal
        exact (unused j equal.symm).elim
      · rw [second,at_slot,others i first] at equal
        exact (unused i equal).elim
      · rw [others i first] at open_i
        rw [others i first,others j second] at equal
        exact apart i j open_i equal
    · rw [peers]
      by_cases same : i = slot
      · subst same
        rw [at_slot]
        have ok := buffers i
        exact ⟨Nat.le_refl _,Nat.zero_le _,ok.small,ok.block⟩
      · rw [others i same]
        exact buffers i
    · rw [peers] at open_i
      by_cases same : i = slot
      · subst same
        have empty : (final (SockBuf.reset (m.service.peers i).writeBuf)).readable = [] := Block.slice_zero _ _
        constructor
        · rw [peers,at_slot]
          exact fun some_bytes => absurd empty some_bytes
        · intro _
          have passed : t.passed i = [] := if_pos rfl
          have accepted : t.accepted i = [] := if_pos rfl
          rw [passed,accepted,peers,at_slot]
          exact empty
      · rw [others i same] at open_i
        exact (wakes i open_i).kept (others i same) (fun member => member) (if_neg same) (if_neg same)

theorem shut_writePath (path : WritePath m) (index : Nat) (rest : List Frame) :
    WritePath {m with service := shut m.service index,stack := rest} := by
  obtain ⟨⟨once,online,bound⟩,apart,buffers,wakes⟩ := path
  have at_index : (shut m.service index).peers index = {m.service.peers index with socket := invalidSocket} := setPeer_at _ _ _
  have others (i : Nat) (other : i ≠ index) : (shut m.service index).peers i = m.service.peers i := setPeer_off _ _ other
  have open_others (i : Nat) (valid : ((shut m.service index).peers i).socket ≠ invalidSocket) : i ≠ index := by
    rintro rfl
    rw [at_index] at valid
    exact valid rfl
  refine ⟨⟨once.erase index,fun i => ?_,fun i member => ?_⟩,fun i j valid equal => ?_,fun i => ?_,fun i valid => ?_⟩
  · show i ∈ m.service.onlinePeerSet.erase index ↔ ((shut m.service index).peers i).socket ≠ invalidSocket
    rw [once.mem_erase_iff]
    by_cases same : i = index
    · subst same
      rw [at_index]
      exact ⟨fun both => absurd rfl both.1,fun valid => absurd rfl valid⟩
    · rw [others i same]
      exact ⟨fun both => (online i).mp both.2,fun valid => ⟨same,(online i).mpr valid⟩⟩
  · exact bound i (List.mem_of_mem_erase member)
  · have other := open_others i valid
    have valid_j : ((shut m.service index).peers j).socket ≠ invalidSocket := fun closed => valid (equal.trans closed)
    have other_j := open_others j valid_j
    rw [show (Machine.service {m with service := shut m.service index,stack := rest}).peers = (shut m.service index).peers from rfl] at valid equal
    rw [others i other] at valid
    rw [others i other,others j other_j] at equal
    exact apart i j valid equal
  · show ((shut m.service index).peers i).writeBuf.Ok
    by_cases same : i = index
    · subst same
      rw [at_index]
      exact buffers i
    · rw [others i same]
      exact buffers i
  · have other := open_others i valid
    have before : (m.service.peers i).socket ≠ invalidSocket := by
      rw [← others i other]
      exact valid
    exact (wakes i before).kept (others i other) (fun member => member) rfl rfl

-- FD_SET inserts the socket of the peer that is sent to.
def Inserts (m : Machine) (event : MachineEvent) : Prop :=
  ∀ slot mark buf, event = .send slot mark buf →
    (m.service.peers slot).socket ∈ fdSet (m.service.peers slot).socket m.service.writeBak

theorem step_writePath {event : MachineEvent} (path : WritePath m) (inserts : Inserts m event) (step : MachineStep m event n) :
    WritePath n := by
  have genuine := step.genuine
  cases step_effect step with
  | refused | unasked | waiting | idle => exact path
  | listening | timeout | polled | ended | onConDone =>
    exact path.unwritten ⟨rfl,fun _ => rfl,fun _ => rfl,rfl,rfl,rfl⟩
  | connected valid registered => exact registered.writePath path valid (genuine.2 valid)
  | sent sending => exact sending.writePath path (Bytes.small _) (inserts _ _ _ rfl)
  | closing closing => exact path.unwritten closing.unwritten
  | @popped slot _ _ stack b len =>
    exact path.unwritten (setPeer_unwritten m slot (p := {m.service.peers slot with readBuf := b}) rfl rfl)
  | onConRefused stack negative closing => exact (path.unwritten (stack_unwritten m _)).unwritten closing.unwritten
  | onDisConDone stack ret => exact shut_writePath path _ _
  | onReadRefused stack negative closing => exact (path.unwritten (stack_unwritten m _)).unwritten closing.unwritten
  | onReadDone stack writing => exact writing.writePath (path.unwritten (stack_unwritten m _))
  | @accepted _ turn reads writes valid registered =>
    have same : Unwritten m {m with service := m.service.polled reads writes,stack := .loop turn 0 :: m.stack} :=
      ⟨rfl,fun _ => rfl,fun _ => rfl,rfl,rfl,rfl⟩
    obtain ⟨unowned,apart⟩ := genuine.2 valid
    exact registered.writePath (path.unwritten same) valid ⟨unowned,apart⟩
  | served stack member reading => exact reading.writePath (path.unwritten (stack_unwritten m _))

theorem new_writePath : WritePath new where
  listed := ⟨List.nodup_nil,fun _ => ⟨(nomatch ·),fun valid => absurd rfl valid⟩,nofun⟩
  apart _ _ valid := absurd rfl valid
  buffers _ := SockBuf.new_ok (by decide)
  wakes _ valid := absurd rfl valid

-- In every run in which FD_SET inserts what it is given, what a peer online has still to
-- be written keeps its socket in the write set, and no byte of it is lost.
theorem write_path (path : Path MachineStep new taken last) (inserts : ∀ t ∈ taken, Inserts t.before t.event) :
    ∀ i ∈ last.service.onlinePeerSet,
      ((last.service.peers i).writeBuf.readable ≠ [] → (last.service.peers i).socket ∈ last.service.writeBak) ∧
      (0 < (last.service.peers i).socket →
        last.accepted i ++ (last.service.peers i).writeBuf.readable = last.passed i) := by
  have kept := path.guarded WritePath Inserts new_writePath inserts fun _ _ _ path inserts step => step_writePath path inserts step
  intro i member
  obtain ⟨wanted,streams⟩ := kept.wakes i ((kept.listed.online i).mp member)
  exact ⟨wanted,streams⟩

def connect (socket : Int) : MachineEvent := .connectPeer (some ⟨socket,"127.0.0.1",80⟩)
def greet : MachineEvent := .send 0 0 ⟨[7],by decide⟩

-- The state that an event leads to.
def after (m : Machine) (event : MachineEvent) : Machine := final (run event m)

theorem new_fresh {socket : Int} (valid : socket ≠ invalidSocket) : new.service.Fresh socket :=
  ⟨fun ⟨_,member,_⟩ => (nomatch member),valid⟩

theorem greet_inserts {socket : Int} {middle last : Machine} (room : Inserts middle greet) :
    ∀ t ∈ ([] ++ [⟨new,connect socket,middle⟩] ++ [⟨middle,greet,last⟩] : List (Transition Machine MachineEvent)),
      Inserts t.before t.event := by
  intro t member
  rcases List.mem_cons.mp member with rfl | member
  · exact nofun
  · cases List.mem_singleton.mp member
    exact room

-- A connection is made, and in onCon a byte is passed to send.
theorem write_path_greet : ∃ taken last, Path MachineStep new taken last ∧ taken.length = 2 ∧ 5 ∈ last.service.writeBak ∧
    last.accepted 0 ++ (last.service.peers 0).writeBuf.readable = last.passed 0 := by
  have first : MachineStep new (connect 5) (new.after (connect 5)) := .returns ⟨nofun,fun valid => new_fresh valid⟩ rfl
  have second : MachineStep (new.after (connect 5)) greet ((new.after (connect 5)).after greet) := .returns nofun rfl
  have path := Path.step (.step .nil first) second
  have room : Inserts (new.after (connect 5)) greet := by
    intro slot mark buf same
    cases same
    decide
  obtain ⟨wanted,streams⟩ := write_path path (greet_inserts room) 0 (by decide)
  exact ⟨_,_,path,rfl,wanted (by decide),streams (by decide)⟩

-- A handle may be 0. send takes it for an illegal one and drops the byte.
theorem write_path_zero : ∃ taken last, Path MachineStep new taken last ∧ (∀ t ∈ taken, Inserts t.before t.event) ∧
    0 ∈ last.service.onlinePeerSet ∧ last.accepted 0 ++ (last.service.peers 0).writeBuf.readable ≠ last.passed 0 := by
  have first : MachineStep new (connect 0) (new.after (connect 0)) := .returns ⟨nofun,fun valid => new_fresh valid⟩ rfl
  have second : MachineStep (new.after (connect 0)) greet ((new.after (connect 0)).after greet) := .returns nofun rfl
  have room : Inserts (new.after (connect 0)) greet := by
    intro slot mark buf same
    cases same
    decide
  exact ⟨_,_,.step (.step .nil first) second,greet_inserts room,by decide,by decide⟩

end PcNetwork.NetSelect.Machine
