import PcNetwork.Session.Ticks

namespace PcNetwork

-- A frame that is a SET_SEED packet under the keys at hand.
def Keys.setsSeed (k : Keys) (raw : NetPacket) : Bool :=
  (k.opened raw).isSysPacket &&
    (TcpSession.seedParam ((k.opened raw).attachCmdPacket TcpSession.recvCmdPkt)).isSome

namespace TcpSession

-- The callbacks an application can see; HandleSysPacket is the session's own.
def spoken (calls : List Callback) : List Callback :=
  calls.filter fun call =>
    match call with
    | .handleSysPacket _ => false
    | .onConnect _ | .onDisconnect | .onReceive _ => true

@[simp] theorem spoken_append (earlier later : List Callback) :
    spoken (earlier ++ later) = spoken earlier ++ spoken later := List.filter_append _ _

-- OnConnect(false), or OnConnect(true) OnReceive* OnDisconnect.
def Complete (word : List Callback) : Prop :=
  word = [.onConnect false] ∨ ∃ payloads : List (List UInt8), word = .onConnect true :: payloads.map .onReceive ++ [.onDisconnect]

-- The same, cut short while the session is alive.
def CutShort (word : List Callback) : Prop :=
  word = [] ∨ ∃ payloads : List (List UInt8), word = .onConnect true :: payloads.map .onReceive

def Protocol (s : TcpSession) : Prop :=
  if s.state = .zero then Complete (spoken s.calls) else CutShort (spoken s.calls)

theorem protocol_zero (zero : s.state = .zero) (word : Protocol s) : Complete (spoken s.calls) := by
  rw [Protocol,if_pos zero] at word
  exact word

-- What each state has told the application.
def Told (s : TcpSession) : Prop :=
  match s.state with
  | .connecting | .waitingSeed => spoken s.calls = []
  | .connected | .dead => ∃ payloads : List (List UInt8), spoken s.calls = .onConnect true :: payloads.map .onReceive
  | .zero => Complete (spoken s.calls)

theorem told_protocol (told : Told s) : Protocol s := by
  unfold Told at told
  unfold Protocol
  cases state : s.state with
  | connecting | waitingSeed =>
    rw [state] at told
    exact .inl told
  | connected | dead =>
    rw [state] at told
    exact .inr told
  | zero =>
    rw [state] at told
    exact told

-- The ticks after which the callbacks are still in order. While the session waits
-- for the seed, Recv does not fail and the first frame is not malformed; once it is
-- CONNECTED, no SET_SEED packet is among the frames that GetPacket will find.
def Orderly (s : TcpSession) : SessionEvent → Prop
  | .tick o =>
    (s.state = .waitingSeed → ¬ (s.meet o).recvFails ∧ frames.next (s.unread ++ (s.meet o).arriving) ≠ .bad) ∧
    (s.state = .connected → ¬ (s.meet o).procFails →
      ∀ raw ∈ (frames.split (s.unread ++ (s.meet o).arriving)).1, (s.meet o).toKeys.setsSeed raw = false)
  | .send _ _ => True

theorem take_noSeed {v : View} (noSeed : v.keys.setsSeed raw = false) :
    (v.take raw).keys = v.keys ∧ ∃ payloads : List (List UInt8), spoken (v.take raw).calls = spoken v.calls ++ payloads.map .onReceive := by
  by_cases sys : (v.keys.opened raw).isSysPacket
  · cases found : seedParam ((v.keys.opened raw).attachCmdPacket recvCmdPkt) with
    | none =>
      rw [View.take_sys sys found]
      exact ⟨rfl,[],by rw [spoken_append]; rfl⟩
    | some seed => simp [Keys.setsSeed,sys,found] at noSeed
  · rw [View.take_user (Bool.eq_false_iff.mpr sys)]
    exact ⟨rfl,[_],by rw [spoken_append]; rfl⟩

theorem fold_noSeed {v : View} {raws : List NetPacket} (noSeed : ∀ raw ∈ raws, v.keys.setsSeed raw = false) :
    ∃ payloads : List (List UInt8), spoken (raws.foldl View.take v).calls = spoken v.calls ++ payloads.map .onReceive := by
  induction raws generalizing v with
  | nil => exact ⟨[],(List.append_nil _).symm⟩
  | cons raw rest ih =>
    obtain ⟨keys,first,said⟩ := take_noSeed (noSeed raw List.mem_cons_self)
    obtain ⟨later,more⟩ := ih (v := v.take raw) fun r member => by
      rw [keys]; exact noSeed r (List.mem_cons_of_mem _ member)
    refine ⟨first ++ later,?_⟩
    rw [List.foldl_cons,more,said,List.map_append,List.append_assoc]

theorem connecting_parts {s : TcpSession} (ok : ReadOk s) (trying : s.state = .connecting) :
    (ReadOk s.connecting ∧ s.connecting.state = .zero ∧ s.connecting.calls = s.calls ++ [.onConnect false]) ∨
    (Loaded s s.connecting [] ∧ (s.connecting.state = .connecting ∨ s.connecting.state = .waitingSeed)) := by
  have given : ∀ t : TcpSession, t.calls = s.calls →
      ReadOk (t.close.onConnect false) ∧ (t.close.onConnect false).state = .zero ∧
        (t.close.onConnect false).calls = s.calls ++ [.onConnect false] := by
    intro t same
    have zero : t.close.state ≠ .connected := by simp [close,reset,setBufSize]
    rw [onConnect,callback_idle zero,← same]
    exact ⟨(reset_read t).same rfl,rfl,rfl⟩
  unfold connecting
  dsimp only
  split
  · exact .inl (given {s with socket := s.socket.hasExcept.2} rfl)
  · split
    · exact .inl (given {s with socket := s.socket.hasExcept.2,times := s.times.tail} rfl)
    · split
      · exact .inr ⟨⟨ok.same rfl,(List.append_nil _).symm,(List.append_nil _).symm,rfl⟩,.inl trying⟩
      · split
        · refine .inl ⟨reset_read _,rfl,?_⟩
          rw [onConnect,callback_idle (by simp [getTime,trying])]
          rfl
        · exact .inr ⟨⟨ok.same rfl,(List.append_nil _).symm,(List.append_nil _).symm,rfl⟩,.inr rfl⟩

theorem told_up (up : s.state = .connected ∨ s.state = .dead) :
    Told s ↔ ∃ payloads : List (List UInt8), spoken s.calls = .onConnect true :: payloads.map .onReceive := by
  unfold Told
  rcases up with live | dead
  · rw [live]
  · rw [dead]

theorem told_trying (trying : s.state = .connecting ∨ s.state = .waitingSeed) :
    Told s ↔ spoken s.calls = [] := by
  unfold Told
  rcases trying with first | second
  · rw [first]
  · rw [second]

theorem told_zero (zero : s.state = .zero) : Told s ↔ Complete (spoken s.calls) := by
  unfold Told
  rw [zero]

-- A system packet in WAITING_SEED is the seed, or it changes nothing the application sees.
theorem handle_waiting {s : TcpSession} {raw : NetPacket} (still : s.state = .waitingSeed)
    (quiet : spoken s.calls = []) (sys : (s.opened raw).isSysPacket) : Told (s.handle (s.opened raw)) := by
  have seen := congrArg View.calls (handle_parts s raw).1
  unfold handle at seen ⊢
  rw [if_pos sys] at seen ⊢
  cases found : seedParam ((s.opened raw).attachCmdPacket recvCmdPkt) with
  | none =>
    rw [View.take_sys (v := s.view) sys found] at seen
    obtain ⟨times,rtt,same⟩ := handleSysPacket_noSeed s _ found
    have state : (s.handleSysPacket ((s.opened raw).attachCmdPacket recvCmdPkt)).state = .waitingSeed := by
      rcases same.state with same | ⟨live,_⟩
      · exact same.trans still
      · rw [still] at live; cases live
    refine (told_trying (.inr state)).mpr ?_
    refine (congrArg spoken seen).trans ?_
    rw [spoken_append,show spoken s.view.calls = [] from quiet]
    rfl
  | some seed =>
    rw [View.take_seed (v := s.view) sys found] at seen
    rw [handleSysPacket_seed s _ found,onConnect] at seen ⊢
    have same := callback_outgoing {setSeed {s with
      calls := s.calls ++ [Callback.handleSysPacket ((s.opened raw).attachCmdPacket recvCmdPkt).readable]} seed with
      state := .connected} (.onConnect true)
    refine (told_up (same.state.elim .inl fun moved => .inr moved.2)).mpr ⟨[],?_⟩
    refine (congrArg spoken seen).trans ?_
    rw [spoken_append,show spoken s.view.calls = [] from quiet]
    rfl

theorem told_disconnect {s : TcpSession} (dead : s.state = .dead)
    (told : ∃ payloads : List (List UInt8), spoken s.calls = .onConnect true :: payloads.map .onReceive) :
    ReadOk s.onDisconnect.close ∧ Told s.onDisconnect.close := by
  obtain ⟨zero,said,_,fine⟩ := onDisconnect_close dead
  obtain ⟨payloads,told⟩ := told
  refine ⟨fine,(told_zero zero).mpr (.inr ⟨payloads,?_⟩)⟩
  rw [said,spoken_append,told]
  rfl

theorem told_tick (ok : ReadOk s) (told : Told s) (orderly : Orderly s (.tick o)) (alive : s.state ≠ .zero) :
    ReadOk (s.meet o).process ∧ Told (s.meet o).process := by
  have met : ReadOk (s.meet o) := ok.same rfl
  cases state : s.state with
  | zero => exact absurd state alive
  | connecting =>
    have quiet := (told_trying (.inl state)).mp told
    rw [process_connecting (s := s.meet o) state]
    rcases connecting_parts met state with ⟨fine,zero,said⟩ | ⟨loaded,trying⟩
    · refine ⟨fine,(told_zero zero).mpr (.inl ?_)⟩
      rw [said,spoken_append,show spoken (s.meet o).calls = [] from quiet]
      rfl
    · have said : (s.meet o).connecting.calls = s.calls := congrArg View.calls loaded.view
      exact ⟨loaded.read,(told_trying trying).mpr (by rw [said]; exact quiet)⟩
  | waitingSeed =>
    have quiet := (told_trying (.inr state)).mp told
    obtain ⟨received,formed⟩ := orderly.1 state
    obtain ⟨loaded,⟨fails,_⟩ | ⟨_,still,proc⟩⟩ := process_waiting met state
    · exact absurd fails received
    · generalize (s.meet o).readData = u at loaded still proc
      have silent : spoken u.calls = [] := (congrArg (fun v => spoken v.calls) loaded.view).trans quiet
      rw [proc]
      rcases waiting_parts loaded.read with ⟨_,same⟩ | ⟨bad,_⟩ | ⟨raw,n,_,bound,took⟩
      · rw [same]
        exact ⟨loaded.read,(told_trying (.inr still)).mpr silent⟩
      · rw [loaded.unread] at bad
        exact absurd bad formed
      · have skipped := (loaded.read.skip bound).1
        rw [took]
        split
        · rename_i sys
          exact ⟨skipped.same (handle_parts _ raw).2.1,handle_waiting still silent sys⟩
        · exact ⟨skipped,(told_trying (.inr still)).mpr silent⟩
  | connected =>
    have said := (told_up (.inl state)).mp told
    rcases process_connected met state with ⟨_,u,loaded,dead,proc⟩ | ⟨kept,loaded,live,pumped⟩
    · rw [proc]
      refine told_disconnect dead ?_
      rw [show u.calls = s.calls from congrArg View.calls loaded.view]
      exact said
    · obtain ⟨fine,_,seen,_⟩ := pump_frames loaded.read pumped
      rw [loaded.unread,loaded.view] at seen
      obtain ⟨later,more⟩ := fold_noSeed (v := (s.meet o).view) (orderly.2 state kept)
      obtain ⟨payloads,said⟩ := said
      refine ⟨fine,(told_up (pump_state pumped loaded.read (.inl live))).mpr ⟨payloads ++ later,?_⟩⟩
      refine (congrArg (fun v => spoken v.calls) seen).trans (more.trans ?_)
      rw [show spoken (s.meet o).view.calls = spoken s.calls from rfl,said,List.map_append]
      rfl
  | dead =>
    rw [process_dead (s := s.meet o) state]
    exact told_disconnect state ((told_up (.inr state)).mp told)

theorem told_step (ok : ReadOk s) (told : Told s) (orderly : Orderly s event) (step : SessionStep s event t) :
    ReadOk t ∧ Told t := by
  cases step with
  | tick o alive => exact told_tick ok told orderly alive
  | send o call alive =>
    have quiet := sendPacket_outgoing (s.meet o) call.packet call.flush false
    refine ⟨ok.same (by rw [quiet.toReceiver]; rfl),?_⟩
    have said : ((s.meet o).sendPacket call.packet call.flush false).2.calls = s.calls := by rw [quiet.toReceiver]; rfl
    rcases quiet.state with same | ⟨live,dead⟩
    · unfold Told
      rw [same,said]
      exact told
    · refine (told_up (.inr dead)).mpr ?_
      rw [said]
      exact (told_up (.inl live)).mp told

-- A client that called Connect with success, before its first tick.
def afterConnect (s : TcpSession) : TcpSession := (connect {s.reset with calls := [],sent := []} true true true).2

-- In a run of orderly ticks the callbacks follow the protocol.
theorem callbacks_protocol (s : TcpSession) (path : Path SessionStep s.afterConnect taken last)
    (orderly : ∀ t ∈ taken, Orderly t.before t.event) : Protocol last := by
  have start : ReadOk s.afterConnect ∧ Told s.afterConnect :=
    ⟨(reset_read s).same rfl,(told_trying (.inl rfl)).mpr rfl⟩
  have held := path.guarded (fun s => ReadOk s ∧ Told s) Orderly start orderly
    fun _ _ _ kept meets step => told_step kept.1 kept.2 meets step
  exact told_protocol held.2

-- A connection: the attempt succeeds, the seed comes, then a packet of one byte, and then
-- Recv fails.
def whenWritable : Outside := {(default : Outside) with writables := [true]}
def whenData (bytes : List UInt8) : Outside := {(default : Outside) with recvs := [.data bytes]}
def whenLost : Outside := {(default : Outside) with recvs := [.failed]}

def seedFrame : List UInt8 := [84,1,0,6,0,1,0,0,0,0,0]
def userFrame : List UInt8 := [80,2,0,1,0,7]

def ticked (os : List Outside) : TcpSession := os.foldl (fun s o => (s.meet o).process) new.afterConnect
def reached : TcpSession := ticked [whenWritable]
def joined : TcpSession := ticked [whenWritable,whenData seedFrame]
def heard : TcpSession := ticked [whenWritable,whenData seedFrame,whenData userFrame]
def ended : TcpSession := ticked [whenWritable,whenData seedFrame,whenData userFrame,whenLost]

def connection : List (Transition TcpSession SessionEvent) :=
  [⟨new.afterConnect,.tick whenWritable,reached⟩,⟨reached,.tick (whenData seedFrame),joined⟩,
    ⟨joined,.tick (whenData userFrame),heard⟩,⟨heard,.tick whenLost,ended⟩]

theorem connection_path : Path SessionStep new.afterConnect connection ended :=
  .step (.step (.step (.step .nil (.tick whenWritable (by decide +kernel))) (.tick (whenData seedFrame) (by decide +kernel)))
    (.tick (whenData userFrame) (by decide +kernel))) (.tick whenLost (by decide +kernel))

theorem split_userFrame : (frames.split userFrame).1 = [⟨80,2,1,Block.patch NetPacket.new.body 0 [7]⟩] := by
  have first : frames.next userFrame = .frame ⟨80,2,1,Block.patch NetPacket.new.body 0 [7]⟩ [] := rfl
  rw [frames.split_frame first,frames.split_nil]

theorem callbacks_protocol_connection : Path SessionStep new.afterConnect connection ended ∧ Protocol ended ∧
    spoken ended.calls = [.onConnect true,.onReceive [7],.onDisconnect] := by
  refine ⟨connection_path,callbacks_protocol new connection_path ?_,by decide +kernel⟩
  have seed : reached.unread ++ (reached.meet (whenData seedFrame)).arriving = seedFrame := by decide +kernel
  have user : joined.unread ++ (joined.meet (whenData userFrame)).arriving = userFrame := by decide +kernel
  have failing : (heard.meet whenLost).procFails := .inr (.inr (by decide +kernel))
  intro t member
  simp only [connection,List.mem_cons,List.not_mem_nil,or_false] at member
  rcases member with rfl | rfl | rfl | rfl
  · exact ⟨fun waits => absurd waits (by decide),fun live => absurd live (by decide)⟩
  · refine ⟨fun _ => ⟨by decide +kernel,?_⟩,fun live => absurd live (by decide +kernel)⟩
    rw [seed]
    nofun
  · refine ⟨fun waits => absurd waits (by decide +kernel),fun _ _ => ?_⟩
    rw [user,split_userFrame]
    intro raw found
    cases List.mem_singleton.mp found
    decide +kernel
  · exact ⟨fun waits => absurd waits (by decide +kernel),fun _ kept => absurd failing kept⟩

-- The connection is up, the seed has not come yet, and the peer goes away: the
-- application gets OnDisconnect for a connection it was never told about.
theorem callbacks_out_of_order :
    ¬ ∀ (s : TcpSession) (taken : List (Transition TcpSession SessionEvent)) (last : TcpSession),
      Path SessionStep s.afterConnect taken last → Protocol last := by
  intro claim
  have path : Path SessionStep new.afterConnect _ _ :=
    .step (.step .nil (.tick {(default : Outside) with writables := [true]} nofun))
      (.tick {(default : Outside) with recvs := [.failed]} nofun)
  have word := claim _ _ _ path
  have told : Complete [.onDisconnect] := protocol_zero rfl word
  rcases told with failed | ⟨payloads,up⟩
  · cases failed
  · cases up

end TcpSession
end PcNetwork
