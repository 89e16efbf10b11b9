import PcNetwork.Session.Callbacks

namespace PcNetwork

theorem Keys.opened_isSysPacket (k : Keys) (raw : NetPacket) : (k.opened raw).isSysPacket = raw.isSysPacket := by
  have decrypt : ∀ f : UInt8, f &&& ~~~flagEncrypt &&& flagSystem = f &&& flagSystem := by
    intro f; rw [UInt8.and_assoc]; rfl
  have uncompress : ∀ f : UInt8, f &&& ~~~flagCompress &&& flagSystem = f &&& flagSystem := by
    intro f; rw [UInt8.and_assoc]; rfl
  unfold opened NetPacket.decrypt NetPacket.crypt NetPacket.uncompress NetPacket.isSysPacket
  dsimp only
  split <;> split <;> simp only [decrypt,uncompress]

namespace TcpSession

-- Frames taken one after the other; in between, the memory behind m_seed may change.
inductive Took (v : View) : List NetPacket → View → Prop where
  | start {w : View} : w.known = v.known → Took v [] w
  | frame {w u : View} : Took v raws w → u.known = (w.take raw).known → Took v (raws ++ [raw]) u

theorem Took.known (took : Took v raws w) (same : u.known = w.known) : Took v raws u := by
  cases took with
  | start first => exact .start (same.trans first)
  | frame earlier last => exact .frame earlier (same.trans last)

theorem Took.fold (took : Took v raws w) (more : List NetPacket) : Took v (raws ++ more) (more.foldl View.take w) := by
  induction more generalizing raws w with
  | nil => rw [List.append_nil]; exact took
  | cons raw rest ih =>
    have onward := ih (took.frame (u := w.take raw) rfl)
    rw [List.append_assoc] at onward
    exact onward

-- What a frame adds to the callbacks.
theorem take_calls (v : View) (raw : NetPacket) :
    ∃ added, (v.take raw).calls = v.calls ++ added ∧ .onDisconnect ∉ added ∧
      (receives added).length = if raw.isSysPacket then 0 else 1 := by
  by_cases sys : (v.keys.opened raw).isSysPacket
  · have plain := (v.keys.opened_isSysPacket raw).symm.trans sys
    cases found : seedParam ((v.keys.opened raw).attachCmdPacket recvCmdPkt) with
    | none =>
      rw [View.take_sys sys found,if_pos plain]
      exact ⟨_,rfl,by simp,rfl⟩
    | some seed =>
      rw [View.take_seed sys found,if_pos plain]
      exact ⟨_,rfl,by simp,rfl⟩
  · have user := Bool.eq_false_iff.mpr sys
    have plain := (v.keys.opened_isSysPacket raw).symm.trans user
    rw [View.take_user user,plain]
    exact ⟨_,rfl,by simp,rfl⟩

theorem receives_append (earlier later : List Callback) :
    receives (earlier ++ later) = receives earlier ++ receives later := List.filterMap_append

-- Each user frame is one OnReceive.
theorem took_receives (took : Took v raws w) :
    (receives w.calls).length = (receives v.calls).length+(raws.filter fun raw => !raw.isSysPacket).length := by
  induction took with
  | @start w same =>
    have calls : w.known.calls = v.known.calls := congrArg View.calls same
    rw [show w.calls = v.calls from calls]
    rfl
  | @frame raws raw w u _ last ih =>
    obtain ⟨added,grown,_,count⟩ := take_calls w raw
    have calls : u.calls = w.calls ++ added := (congrArg View.calls last).trans grown
    rw [calls,receives_append,List.length_append,ih,count,List.filter_append,List.length_append,Nat.add_assoc]
    cases sys : raw.isSysPacket with
    | true => simp [sys]
    | false => simp [sys]

-- No complete user packet is among the bytes.
def NoUsers (bytes : List UInt8) : Prop := ∀ raw ∈ (frames.split bytes).1, raw.isSysPacket = true

theorem fold_noUsers {raws : List NetPacket} (sys : ∀ raw ∈ raws, raw.isSysPacket = true) (v : View) :
    receives (raws.foldl View.take v).calls = receives v.calls := by
  induction raws generalizing v with
  | nil => rfl
  | cons raw rest ih =>
    obtain ⟨added,grown,_,count⟩ := take_calls v raw
    rw [if_pos (sys raw List.mem_cons_self)] at count
    rw [List.foldl_cons,ih (fun r member => sys r (List.mem_cons_of_mem _ member)),grown,receives_append,
      List.eq_nil_of_length_eq_zero count,List.append_nil]

theorem fold_disconnect {v : View} (raws : List NetPacket) (none : .onDisconnect ∉ v.calls) :
    .onDisconnect ∉ (raws.foldl View.take v).calls := by
  induction raws generalizing v with
  | nil => exact none
  | cons raw rest ih =>
    obtain ⟨added,grown,clean,_⟩ := take_calls v raw
    refine ih ?_
    rw [grown]
    exact fun member => (List.mem_append.mp member).elim none clean

-- Once OnDisconnect was called, every complete user packet that Recv ever returned
-- has been passed to OnReceive: the callbacks are those of all frames of the stream.
def Handed (v : View) (s : TcpSession) : Prop :=
  .onDisconnect ∈ s.calls →
    ∃ w, Took v (frames.split s.socket.received).1 w ∧ receives s.calls = receives w.calls

-- The ticks that lose nothing. A session that dies, or has died, holds no complete
-- user packet that it has not passed on, and the first packet a session in
-- WAITING_SEED takes is a system packet.
def Lossless (s : TcpSession) : SessionEvent → Prop
  | .tick o =>
    (s.state = .dead → NoUsers s.unread) ∧
    (s.state = .connected → (s.meet o).procFails → NoUsers (s.unread ++ (s.meet o).read)) ∧
    (s.state = .waitingSeed →
      ((s.meet o).recvFails → NoUsers (s.unread ++ (s.meet o).arriving)) ∧
      ∀ raw rest, frames.next (s.unread ++ (s.meet o).arriving) = .frame raw rest → raw.isSysPacket = true)
  | .send _ _ => True

-- The stream so far is the frames taken and then the unread bytes.
structure Streaming (v : View) (s : TcpSession) : Prop where
  quiet : .onDisconnect ∉ s.calls
  stream : ∃ raws, frames.split s.socket.received =
    (raws ++ (frames.split s.unread).1,(frames.split s.unread).2) ∧ Took v raws s.view

structure Kept (v : View) (s : TcpSession) : Prop where
  read : ReadOk s
  streaming : s.state ≠ .zero → Streaming v s
  handed : s.state = .zero → Handed v s

theorem streaming_loaded {got : List UInt8} (streaming : Streaming v s) (loaded : Loaded s u got) : Streaming v u := by
  obtain ⟨quiet,raws,split,took⟩ := streaming
  have calls : u.calls = s.calls := congrArg View.calls loaded.view
  refine ⟨calls ▸ quiet,raws,?_,loaded.view ▸ took⟩
  rw [loaded.received,loaded.unread]
  exact frames.split_extend split got

-- Only this moment can lose a packet.
theorem handed_disconnect {u : TcpSession} (streaming : Streaming v u) (dead : u.state = .dead)
    (none : NoUsers u.unread) : Kept v u.onDisconnect.close := by
  obtain ⟨zero,said,received,fine⟩ := onDisconnect_close dead
  obtain ⟨_,raws,split,took⟩ := streaming
  refine ⟨fine,fun alive => absurd zero alive,fun _ _ => ⟨(frames.split u.unread).1.foldl View.take u.view,?_,?_⟩⟩
  · rw [received,split]
    exact took.fold _
  · rw [said,receives_append,fold_noUsers none]
    exact List.append_nil _

theorem streaming_frames (streaming : Streaming v u) (found : frames.next u.unread = .frame raw rest)
    (received : t.socket.received = u.socket.received) (left : t.unread = rest)
    (seen : t.view = u.view.take raw) : Streaming v t := by
  obtain ⟨quiet,raws,split,took⟩ := streaming
  rw [frames.split_frame found] at split
  refine ⟨?_,raws ++ [raw],?_,took.frame (by rw [seen])⟩
  · rw [show t.calls = (u.view.take raw).calls from congrArg View.calls seen]
    exact fold_disconnect [raw] quiet
  · rw [received,left,split,List.append_assoc]
    rfl

theorem kept_tick (kept : Kept v s) (safe : Lossless s (.tick o)) (alive : s.state ≠ .zero) :
    Kept v (s.meet o).process := by
  obtain ⟨dying,failing,waiting⟩ := safe
  have met : ReadOk (s.meet o) := kept.read.same rfl
  have streaming : Streaming v (s.meet o) := by
    obtain ⟨quiet,raws,split,took⟩ := kept.streaming alive
    exact ⟨quiet,raws,split,took.known rfl⟩
  cases state : s.state with
  | zero => exact absurd state alive
  | connecting =>
    rw [process_connecting (s := s.meet o) state]
    rcases connecting_parts met state with ⟨fine,zero,said⟩ | ⟨loaded,trying⟩
    · refine ⟨fine,fun alive => absurd zero alive,fun _ disconnected => ?_⟩
      rw [said] at disconnected
      exact ((List.mem_append.mp disconnected).elim streaming.quiet (by simp)).elim
    · refine ⟨loaded.read,fun _ => streaming_loaded streaming loaded,fun zero => ?_⟩
      rw [zero] at trying
      exact trying.elim nofun nofun
  | waitingSeed =>
    obtain ⟨closing,first⟩ := waiting state
    obtain ⟨loaded,outcome⟩ := process_waiting met state
    generalize (s.meet o).readData = u at loaded outcome
    rcases outcome with ⟨fails,dead,proc⟩ | ⟨_,still,proc⟩
    · rw [proc]
      exact handed_disconnect (streaming_loaded streaming loaded) dead (loaded.unread ▸ closing fails)
    · have read := streaming_loaded streaming loaded
      rw [proc]
      rcases waiting_parts loaded.read with ⟨_,same⟩ | ⟨bad,same⟩ | ⟨raw,n,found,bound,took⟩
      · rw [same]
        exact ⟨loaded.read,fun _ => read,fun zero => by rw [still] at zero; cases zero⟩
      · rw [same]
        exact ⟨loaded.read.same rfl,fun _ => ⟨read.quiet,read.stream⟩,nofun⟩
      · obtain ⟨skipped,left⟩ := loaded.read.skip bound
        have sys := (u.opened_isSysPacket raw).trans (first raw _ (loaded.unread ▸ found))
        obtain ⟨seen,side,socket⟩ := handle_parts (u.skip n) raw
        obtain ⟨fine,unread⟩ := skipped.congr side
        rw [took,if_pos sys]
        refine ⟨fine,fun _ => ?_,fun zero => ?_⟩
        · exact streaming_frames read found (congrArg SocketIn.received socket) (unread.trans left) seen
        · rcases handle_state (u.skip n) ((u.skip n).opened raw) with same | live | dead
          · rw [zero] at same; exact absurd (still.symm.trans same.symm) nofun
          · rw [zero] at live; cases live
          · rw [zero] at dead; cases dead
  | connected =>
    rcases process_connected met state with ⟨fails,u,loaded,dead,proc⟩ | ⟨_,loaded,live,pumped⟩
    · rw [proc]
      exact handed_disconnect (streaming_loaded streaming loaded) dead (loaded.unread ▸ failing state fails)
    · generalize (s.meet o).defProc = u at loaded live pumped
      obtain ⟨fine,socket,seen,left,_⟩ := pump_frames loaded.read pumped
      obtain ⟨quiet,raws,split,took⟩ := streaming_loaded streaming loaded
      have up := pump_state pumped loaded.read (.inl live)
      refine ⟨fine,fun _ => ⟨?_,raws ++ (frames.split u.unread).1,?_,?_⟩,fun zero => ?_⟩
      · rw [show (s.meet o).process.calls = _ from congrArg View.calls seen]
        exact fold_disconnect _ quiet
      · rw [show (s.meet o).process.socket.received = u.socket.received from congrArg SocketIn.received socket,split,left,
          List.append_nil]
      · rw [seen]
        exact took.fold _
      · rw [zero] at up
        exact up.elim nofun nofun
  | dead =>
    rw [process_dead (s := s.meet o) state]
    exact handed_disconnect streaming state (dying state)

theorem kept_step (kept : Kept v s) (safe : Lossless s event) (step : SessionStep s event t) : Kept v t := by
  cases step with
  | tick o alive => exact kept_tick kept safe alive
  | send o call alive =>
    obtain ⟨receiver,socket,state⟩ := sendPacket_outgoing (s.meet o) call.packet call.flush false
    obtain ⟨quiet,raws,split,took⟩ := kept.streaming alive
    have side : ((s.meet o).sendPacket call.packet call.flush false).2.toReadSide = s.toReadSide := by rw [receiver]; rfl
    obtain ⟨fine,unread⟩ := kept.read.congr side
    refine ⟨fine,fun _ => ⟨?_,raws,?_,took.known ?_⟩,fun zero => ?_⟩
    · rw [receiver]; exact quiet
    · have received := congrArg SocketIn.received socket
      rw [received,unread]
      exact split
    · rw [view,receiver]; rfl
    · rcases state with same | ⟨_,dead⟩
      · exact absurd (same.symm.trans zero) alive
      · rw [zero] at dead; cases dead

-- A connection at its start: a client after Connect, a session after Attach, or a
-- server session that has sent the seed, in whatever way that went.
def afterAttach (s : TcpSession) : TcpSession := attach {s.reset with calls := [],sent := []}

inductive Opened : TcpSession → Prop where
  | client (s : TcpSession) : Opened s.afterConnect
  | attached (s : TcpSession) : Opened s.afterAttach
  | seeded (s : TcpSession) (o : Outside) (seed : Int32) : Opened ((s.afterAttach.meet o).sendSeed seed)

theorem opened_parts (start : Opened s) :
    ReadOk s ∧ s.unread = [] ∧ s.socket.received = [] ∧ s.calls = [] ∧ s.state ≠ .zero := by
  cases start with
  | client s => exact ⟨(reset_read s).same rfl,unread_empty rfl,rfl,rfl,by intro zero; cases zero⟩
  | attached s => exact ⟨(reset_read s).same rfl,unread_empty rfl,rfl,rfl,by intro zero; cases zero⟩
  | seeded s o seed =>
    have ok : ReadOk s.afterAttach := (reset_read s).same rfl
    obtain ⟨receiver,socket,state⟩ := sendPacket_outgoing (s.afterAttach.meet o) (sysPacket sysPacketSetSeed seed) true true
    unfold sendSeed
    generalize ((s.afterAttach.meet o).sendPacket (sysPacket sysPacketSetSeed seed) true true).2 = t at receiver socket state ⊢
    have side : (t.setSeed seed).toReadSide = s.afterAttach.toReadSide := by
      rw [setSeed,receiver]
      rfl
    have calls : t.calls = [] := by rw [receiver]; rfl
    obtain ⟨fine,unread⟩ := ok.congr side
    refine ⟨fine,unread.trans (unread_empty rfl),congrArg SocketIn.received socket,calls,?_⟩
    intro zero
    rcases state with same | ⟨_,dead⟩
    · cases same.symm.trans zero
    · cases dead.symm.trans zero

-- In a run of lossless ticks no received packet is lost when the connection ends.
theorem delivery_complete (start : Opened s) (path : Path SessionStep s taken last)
    (lossless : ∀ t ∈ taken, Lossless t.before t.event) : Handed s.view last := by
  obtain ⟨fine,unread,received,calls,alive⟩ := opened_parts start
  have kept : Kept s.view s := by
    refine ⟨fine,fun _ => ⟨by rw [calls]; exact List.not_mem_nil,[],?_,.start rfl⟩,fun zero => absurd zero alive⟩
    rw [received,unread]
    rfl
  have held := path.guarded (Kept s.view) Lossless kept lossless fun _ _ _ kept safe step => kept_step kept safe step
  by_cases zero : last.state = .zero
  · exact held.handed zero
  · exact fun disconnected => absurd disconnected (held.streaming zero).quiet

-- The connection whose packet is handed over before Recv fails.
theorem delivery_complete_connection : Path SessionStep new.afterConnect connection ended ∧ Handed new.afterConnect.view ended ∧
    .onDisconnect ∈ ended.calls ∧ receives ended.calls = [[7]] := by
  refine ⟨connection_path,delivery_complete (.client new) connection_path ?_,by decide +kernel,by decide +kernel⟩
  have seed : reached.unread ++ (reached.meet (whenData seedFrame)).arriving = seedFrame := by decide +kernel
  have rest : heard.unread ++ (heard.meet whenLost).read = [] := by decide +kernel
  intro t member
  simp only [connection,List.mem_cons,List.not_mem_nil,or_false] at member
  rcases member with rfl | rfl | rfl | rfl
  · exact ⟨fun dead => absurd dead (by decide),fun live => absurd live (by decide),fun waits => absurd waits (by decide)⟩
  · refine ⟨fun dead => absurd dead (by decide +kernel),fun live => absurd live (by decide +kernel),fun _ => ⟨?_,?_⟩⟩
    · intro fails
      exact absurd fails (by decide +kernel)
    · rw [seed]
      intro raw left found
      cases (show frames.next seedFrame = .frame ⟨84,1,6,Block.patch NetPacket.new.body 0 [1,0,0,0,0,0]⟩ [] from rfl).symm.trans found
      rfl
  · refine ⟨fun dead => absurd dead (by decide +kernel),fun _ fails => ?_,fun waits => absurd waits (by decide +kernel)⟩
    rcases fails with late | sends | recvs
    · exact absurd late (by decide +kernel)
    · exact absurd sends (by decide +kernel)
    · exact absurd recvs (by decide +kernel)
  · refine ⟨fun dead => absurd dead (by decide +kernel),fun _ _ => ?_,fun waits => absurd waits (by decide +kernel)⟩
    rw [rest,NoUsers,frames.split_nil]
    exact List.forall_mem_nil _

-- The seed and a user packet come in one Recv, and then the peer closes. The tick
-- that takes the seed leaves the user packet unread, and the next one finds the
-- session DEAD.
def seedAndUser : List UInt8 := [84,1,0,6,0,1,0,0,0,0,0,80,2,0,1,0,7]

theorem seedAndUser_users : ((frames.split seedAndUser).1.filter fun raw => !raw.isSysPacket).length = 1 := by
  have first : frames.next seedAndUser = .frame _ [80,2,0,1,0,7] := rfl
  have second : frames.next [80,2,0,1,0,7] = .frame _ [] := rfl
  rw [frames.split_frame first,frames.split_frame second,frames.split_nil]
  rfl

theorem delivery_lost :
    ¬ ∀ (s : TcpSession) (taken : List (Transition TcpSession SessionEvent)) (last : TcpSession),
      Opened s → Path SessionStep s taken last → Handed s.view last := by
  intro claim
  have path : Path SessionStep new.afterConnect _ _ :=
    .step (.step (.step .nil (.tick {(default : Outside) with writables := [true]} nofun))
      (.tick {(default : Outside) with recvs := [.data seedAndUser]} nofun))
      (.tick {(default : Outside) with recvs := [.failed]} nofun)
  obtain ⟨w,took,same⟩ := claim _ _ _ (.client new) path (.tail _ (.tail _ (.head _)))
  have count := took_receives took
  rw [← same] at count
  have one := count.trans (congrArg (0+·) seedAndUser_users)
  cases one

end TcpSession
end PcNetwork
