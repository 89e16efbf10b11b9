import PcNetwork.Session.Exchange

namespace PcNetwork.TcpSession
variable {own lead : List NetPacket} {mine theirs : List (NetPacket × List UInt8)} {carried : List UInt8} {o : Outside}
  {s t u : TcpSession} {seed : Int32} {p : NetPacket}

-- A session that is over. What it has sent and handed to OnReceive stays as it was.
structure Over (seed : Int32) (own : List NetPacket) (mine theirs : List (NetPacket × List UInt8)) (s : TcpSession) : Prop where
  state : s.state = .dead ∨ s.state = .zero
  stream : s.socket.accepted <+: (own ++ mine.map Prod.fst).flatMap NetPacket.bytes
  sent : s.sent = mine.map Prod.snd
  items : ∀ u ∈ mine, UserItem seed u
  handed : receives s.calls <+: theirs.map Prod.snd

-- One side of a connection that may break at any time.
inductive Half (seed : Int32) (own : List NetPacket) (mine : List (NetPacket × List UInt8)) (lead : List NetPacket)
    (theirs : List (NetPacket × List UInt8)) (s : TcpSession) : Prop where
  | live (sender : Sender seed own mine s) (reading : Reading lead theirs s)
  | finished (finished : Over seed own mine theirs s)

theorem Half.stream (half : Half seed own mine lead theirs s) :
    s.socket.accepted <+: (own ++ mine.map Prod.fst).flatMap NetPacket.bytes := by
  cases half with
  | live sender reading => exact sender.part
  | finished finished => exact finished.stream

theorem Half.items (half : Half seed own mine lead theirs s) : ∀ u ∈ mine, UserItem seed u := by
  cases half with
  | live sender reading => exact sender.items
  | finished finished => exact finished.items

theorem Half.handed (half : Half seed own mine lead theirs s) : receives s.calls <+: theirs.map Prod.snd := by
  cases half with
  | live sender reading => exact reading.handed
  | finished finished => exact finished.handed

-- The other side may send more.
theorem Half.later (half : Half seed own mine lead theirs s) (more : List (NetPacket × List UInt8)) :
    Half seed own mine lead (theirs ++ more) s := by
  cases half with
  | live sender reading => exact .live sender (reading.later more)
  | finished finished =>
    refine .finished ⟨finished.state,finished.stream,finished.sent,finished.items,finished.handed.trans ?_⟩
    rw [List.map_append]
    exact List.prefix_append _ _

theorem callback_quiet (quiet : s.app = []) (call : Callback) : s.callback call = {s with calls := s.calls ++ [call]} := by
  unfold callback
  rw [show s.app.tail = s.app by rw [quiet]; rfl,show s.app.headD [] = [] by rw [quiet]; rfl]
  rfl

-- Where the callbacks send nothing, the loops of a tick leave the sending side alone.
structure Aside (s t : TcpSession) : Prop where
  side : t.toWriteSide = s.toWriteSide
  socket : t.socket = s.socket
  sent : t.sent = s.sent
  state : t.state = s.state
  keys : t.toKeys = s.toKeys

theorem pump_quiet {fs : List (NetPacket × List UInt8)} (pumped : Pump s t) (ok : ReadOk s) (quiet : s.app = [])
    (agreed : s.toKeys.Agreed seed) (split : frames.split s.unread = (fs.map Prod.fst,.waiting tail))
    (items : ∀ u ∈ fs, UserItem seed u) :
    Aside s t ∧ receives t.calls = receives s.calls ++ fs.map Prod.snd := by
  induction pumped generalizing fs with
  | @stop s t took =>
    rcases recvPacket_none ok took with ⟨more,rfl⟩ | ⟨bad,_⟩
    · rw [frames.split_more more] at split
      have empty : fs = [] := List.map_eq_nil_iff.mp (congrArg Prod.fst split).symm
      rw [empty]
      exact ⟨⟨rfl,rfl,rfl,rfl,rfl⟩,(List.append_nil _).symm⟩
    · rw [frames.split_bad bad] at split
      cases congrArg Prod.snd split
  | @next pkt s m t took _ ih =>
    obtain ⟨raw,n,found,_,bound,rfl,rfl⟩ := recvPacket_some ok took
    rw [frames.split_frame found] at split
    cases fs with
    | nil => cases congrArg Prod.fst split
    | cons item rest =>
      have first : raw = item.1 := (List.cons.inj (congrArg Prod.fst split)).1
      have later := (List.cons.inj (congrArg Prod.fst split)).2
      have waits : (frames.split (s.unread.drop n)).2 = .waiting tail := congrArg Prod.snd split
      subst first
      have user := items item List.mem_cons_self
      have plain : (s.opened item.1).isSysPacket = false := (s.opened_isSysPacket item.1).trans user.user
      have handled : (s.skip n).handle (s.opened item.1) = {s.skip n with calls := s.calls ++ [.onReceive item.2]} := by
        unfold handle
        rw [plain,if_neg nofun,onReceive,callback_quiet (s := s.skip n) quiet,user.opened _ agreed]
        rfl
      obtain ⟨skipped,left⟩ := ok.skip bound
      rw [handled] at ih
      obtain ⟨⟨side,socket,sent,state,keys⟩,calls⟩ := ih (skipped.same rfl) quiet agreed
        ((congrArg frames.split left).trans (Prod.ext later waits)) fun u member => items u (List.mem_cons_of_mem _ member)
      refine ⟨⟨side,socket,sent,state,keys⟩,calls.trans ?_⟩
      rw [receives_append,List.append_assoc]
      rfl

-- The socket of a session that is closed is not used any more.
theorem onDisconnect_over (dead : u.state = .dead) (stream : u.socket.accepted <+: (own ++ mine.map Prod.fst).flatMap NetPacket.bytes)
    (sent : u.sent = mine.map Prod.snd) (items : ∀ u ∈ mine, UserItem seed u) (handed : receives u.calls <+: theirs.map Prod.snd) :
    Over seed own mine theirs u.onDisconnect.close ∧ u.onDisconnect.close.socket.accepted = u.socket.accepted ∧
    u.onDisconnect.close.socket.received = u.socket.received := by
  obtain ⟨zero,calls,received,_⟩ := onDisconnect_close dead
  have idle : u.state ≠ .connected := by rw [dead]; exact nofun
  have accepted : u.onDisconnect.close.socket.accepted = u.socket.accepted := by
    rw [onDisconnect,callback_idle idle]
    rfl
  have kept : u.onDisconnect.close.sent = u.sent := by
    rw [onDisconnect,callback_idle idle]
    rfl
  refine ⟨⟨.inr zero,accepted ▸ stream,kept.trans sent,items,?_⟩,accepted,received⟩
  rw [calls,receives_append]
  simpa [receives] using handed

-- A tick of a session that is over ends it.
theorem tick_over (finished : Over seed own mine theirs s) (o : Outside) :
    Over seed own mine theirs (s.meet o).process ∧ (s.meet o).process.socket.accepted = s.socket.accepted ∧
    (s.meet o).process.socket.received = s.socket.received := by
  obtain ⟨dead | zero,stream,sent,items,handed⟩ := finished
  · rw [process_dead (s := s.meet o) dead]
    exact onDisconnect_over (u := s.meet o) dead stream sent items handed
  · have same : (s.meet o).process = s.meet o := by
      have proc : (s.meet o).defProc = s.meet o := by simp [defProc,meet,zero]
      unfold process
      rw [proc]
      simp only [meet,zero]
    rw [same]
    exact ⟨⟨.inr zero,stream,sent,items,handed⟩,rfl,rfl⟩

theorem process_ends (dead : s.defProc.state = .dead) : s.process = s.defProc.onDisconnect.close := by
  unfold process
  simp only [dead]

theorem readData_accepted (ok : ReadOk s) : s.readData.socket.accepted = s.socket.accepted ∧ s.readData.sent = s.sent ∧
    s.readData.toWriteSide = s.toWriteSide ∧ s.readData.toKeys = s.toKeys ∧ s.readData.app = s.app := by
  obtain ⟨side,times,last,filled,_,_⟩ := readData_parts ok
  obtain ⟨_,_,accepted,_⟩ := recv_parts s.socket (s.readBufSize-s.readLen)
  rw [filled]
  exact ⟨accepted,rfl,rfl,rfl,rfl⟩

-- What DefProc does to the sending side: a session that stays CONNECTED goes on, and one
-- that dies has sent a front of what it had to send.
theorem defProc_sends (sender : Sender seed own mine s) (ok : ReadOk s) :
    s.socket.accepted <+: s.defProc.socket.accepted ∧
    s.defProc.socket.accepted <+: (own ++ mine.map Prod.fst).flatMap NetPacket.bytes ∧ s.defProc.sent = mine.map Prod.snd ∧
    s.defProc.app = s.app ∧ (s.defProc.state = .connected → Sender seed own mine s.defProc) := by
  by_cases late : s.timedOut
  · obtain ⟨times,last,proc⟩ := defProc_late sender.live late
    rw [proc]
    exact ⟨List.prefix_rfl,sender.part,sender.sent,rfl,nofun⟩
  · obtain ⟨last,proc⟩ := defProc_inTime sender.live late
    rw [proc]
    let start : TcpSession := {s with times := s.times.tail,lastSendTime := last}
    have begins : Sender seed own mine start := sender.same rfl rfl sender.live sender.agreed rfl
    obtain ⟨ring,pushed⟩ := flushData_parts begins.ring
    have receiver := flushData_toReceiver start
    have ready : ReadOk start.flushData := ok.same (by rw [receiver])
    obtain ⟨accepted,sent,side,keys,app⟩ := readData_accepted ready
    have front : start.flushData.socket.accepted <+: (own ++ mine.map Prod.fst).flatMap NetPacket.bytes := by
      rw [← begins.stream,← pushed]
      exact List.prefix_append _ _
    refine ⟨?_,?_,sent.trans ((flushData_sent start).trans begins.sent),?_,fun alive => ?_⟩
    · rw [accepted]
      exact flushData_accepted start
    · rw [accepted]
      exact front
    · rw [app,receiver]
    · obtain ⟨ring',buffered⟩ := ring.same side
      refine ⟨ring',alive,?_,?_,sent.trans ((flushData_sent start).trans begins.sent),sender.items⟩
      · rw [keys,receiver]
        exact begins.agreed
      · rw [TcpSession.pushed,accepted,buffered]
        exact pushed.trans begins.stream

-- A tick of a CONNECTED session, whatever fails in it.
theorem tick_live (sender : Sender seed own mine s) (reading : Reading lead theirs s) (readable : Readable lead theirs)
    (items : ∀ u ∈ theirs, UserItem seed u) (quiet : o.app = [])
    (stream : carried <+: (lead ++ theirs.map Prod.fst).flatMap NetPacket.bytes)
    (part : (s.meet o).process.socket.received <+: carried) :
    Half seed own mine lead theirs (s.meet o).process ∧ s.socket.accepted <+: (s.meet o).process.socket.accepted := by
  have ok : ReadOk (s.meet o) := reading.read.same rfl
  obtain ⟨more,front,sent,app,goes⟩ := defProc_sends (sender.meet o) ok
  have ends (dead : (s.meet o).defProc.state = .dead) (calls : (s.meet o).defProc.calls = s.calls) :
      Half seed own mine lead theirs (s.meet o).process ∧ s.socket.accepted <+: (s.meet o).process.socket.accepted := by
    have handed : receives (s.meet o).defProc.calls <+: theirs.map Prod.snd := by
      rw [calls]
      exact reading.handed
    obtain ⟨finished,accepted,_⟩ := onDisconnect_over dead front sent sender.items handed
    rw [process_ends dead,accepted]
    exact ⟨.finished finished,more⟩
  by_cases late : (s.meet o).timedOut
  · obtain ⟨times,last,proc⟩ := defProc_late (s := s.meet o) sender.live late
    exact ends (by rw [proc]) (by rw [proc]; rfl)
  · obtain ⟨loaded,⟨_,dead⟩ | ⟨_,alive⟩⟩ := defProc_loaded (s := s.meet o) ok sender.live late
    · exact ends dead (congrArg View.calls loaded.view)
    · have pumped : Pump (s.meet o).defProc (s.meet o).process := by
        have loop := receiveLoop_pump ((s.meet o).defProc.readLen.toNat+1) loaded.read (by have := loaded.read.len_nonneg; omega)
        unfold process
        simp only [alive]
        exact loop
      have going := goes alive
      obtain ⟨fine,socket,_,left,_⟩ := pump_frames loaded.read pumped
      have received : (s.meet o).process.socket.received = s.socket.received ++ (s.meet o).arriving :=
        (congrArg SocketIn.received socket).trans loaded.received
      rw [received] at part
      obtain ⟨done,us,rest,tail,parts,calls,split,whole⟩ := reading.arrives readable (part.trans stream)
      have unread : frames.split (s.meet o).defProc.unread = (us.map Prod.fst,.waiting tail) := by
        rw [loaded.unread]
        exact split
      obtain ⟨aside,said⟩ := pump_quiet pumped loaded.read (app.trans quiet) going.agreed unread fun u member =>
        items u (by rw [parts]; exact List.mem_append_left _ (List.mem_append_right _ member))
      refine ⟨.live (going.same aside.side (by rw [aside.socket]) (aside.state.trans alive) (by rw [aside.keys]; exact going.agreed)
        aside.sent) ⟨fine,done ++ us,rest,parts,?_,?_⟩,?_⟩
      · rw [said,show (s.meet o).defProc.calls = s.calls from congrArg View.calls loaded.view,calls,List.map_append]
      · rw [received,whole,left,unread,List.append_nil]
      · rw [aside.socket]
        exact more

-- A packet that is in the ring.
theorem sender_queued {packet : CmdPacket} {item : NetPacket × List UInt8} {w : WriteSide} (sender : Sender seed own mine s)
    (user : UserItem seed item) (content : packet.content = item.2) (ring : RingOk {s with toWriteSide := w})
    (buffered : ({s with toWriteSide := w} : TcpSession).buffered = s.buffered ++ item.1.bytes) :
    Sender seed own (mine ++ [item]) (({s with toWriteSide := w} : TcpSession).noted packet false) := by
  refine ⟨(RingOk.same (t := noted {s with toWriteSide := w} packet false) ring rfl).1,sender.live,sender.agreed,?_,?_,fun u member => ?_⟩
  · have all : (({s with toWriteSide := w} : TcpSession).noted packet false).pushed = s.pushed ++ item.1.bytes := by
      rw [pushed,pushed,List.append_assoc]
      exact congrArg (s.socket.accepted ++ ·) buffered
    rw [all,sender.stream]
    simp
  · rw [List.map_append,← sender.sent]
    exact congrArg (s.sent ++ [·]) content
  · rcases List.mem_append.mp member with old | new
    · exact sender.items u old
    · rw [List.mem_singleton.mp new]
      exact user

-- Only the sending side of a session has changed.
theorem Reading.outgoing (reading : Reading lead theirs s) (same : Outgoing s t) : Reading lead theirs t := by
  obtain ⟨done,todo,parts,calls,split⟩ := reading.taken
  obtain ⟨fine,unread⟩ := reading.read.congr (t := t) (by rw [same.toReceiver])
  refine ⟨fine,done,todo,parts,?_,?_⟩
  · rw [same.toReceiver]
    exact calls
  · rw [show t.socket.received = s.socket.received from congrArg SocketIn.received same.toSocketIn,unread]
    exact split

-- FlushData goes on or kills the session.
theorem flush_half (sender : Sender seed own mine s) (reading : Reading lead theirs s) : Half seed own mine lead theirs s.flushData := by
  obtain ⟨ring,pushed⟩ := flushData_parts sender.ring
  have receiver := flushData_toReceiver s
  have sent := (flushData_sent s).trans sender.sent
  rcases flushData_state sender.live with ⟨_,dead⟩ | ⟨_,alive⟩
  · refine .finished ⟨.inl dead,?_,sent,sender.items,?_⟩
    · rw [← sender.stream,← pushed]
      exact List.prefix_append _ _
    · rw [receiver]
      exact reading.handed
  · refine .live ⟨ring,alive,?_,pushed.trans sender.stream,sent,sender.items⟩ (reading.outgoing (flushData_outgoing sender.live))
    rw [receiver]
    exact sender.agreed

-- A SendPacket call, whose flush may fail.
theorem send_half {call : SendCall} (half : Half seed own mine lead theirs s) (built : call.packet.Built) (o : Outside) :
    ∃ more, Half seed own (mine ++ more) lead theirs ((s.meet o).sendPacket call.packet call.flush false).2 ∧
      s.socket.accepted <+: ((s.meet o).sendPacket call.packet call.flush false).2.socket.accepted ∧
      ((s.meet o).sendPacket call.packet call.flush false).2.socket.received = s.socket.received ∧
      more.map Prod.snd = if ((s.meet o).sendPacket call.packet call.flush false).1 then [call.packet.content] else [] := by
  have received : ((s.meet o).sendPacket call.packet call.flush false).2.socket.received = s.socket.received :=
    (congrArg SocketIn.received (sendPacket_outgoing (s.meet o) call.packet call.flush false).toSocketIn).trans rfl
  cases half with
  | finished finished =>
    have idle : (s.meet o).state ≠ .connected := by
      rcases finished.state with dead | zero
      · exact fun live => nomatch live.symm.trans dead
      · exact fun live => nomatch live.symm.trans zero
    rw [sendPacket_idle idle]
    exact ⟨[],by rw [List.append_nil]; exact .finished ⟨finished.state,finished.stream,finished.sent,finished.items,finished.handed⟩,List.prefix_rfl,rfl,rfl⟩
  | live sender reading =>
    have begins : Sender seed own mine (s.meet o).numbered := sender.same rfl rfl sender.live
      ⟨sender.agreed.bEncrypt,sender.agreed.seedLen,sender.agreed.bytes⟩ rfl
    have hears : Reading lead theirs (s.meet o).numbered := ⟨reading.read.same rfl,reading.taken⟩
    have user := wire_user begins.agreed built
    obtain ⟨bytes,framed⟩ := user.framed
    rw [sendPacket_unfold (s := s.meet o) sender.live]
    rcases pushData_parts begins.ring (bytes_length framed) with refused | ⟨w,taken,ring,buffered⟩
    · rw [refused]
      exact ⟨[],by rw [List.append_nil]; exact .live begins hears,List.prefix_rfl,rfl,rfl⟩
    · have queued := sender_queued begins user rfl ring buffered
      have heard : Reading lead theirs (({(s.meet o).numbered with toWriteSide := w} : TcpSession).noted call.packet false) :=
        ⟨hears.read.same rfl,hears.taken⟩
      rw [taken]
      refine ⟨[((s.meet o).numbered.wire call.packet false,call.packet.content)],?_,?_,?_,rfl⟩
      · cases flush : call.flush with
        | false => exact .live queued heard
        | true => exact flush_half queued heard
      · cases flush : call.flush with
        | false => exact List.prefix_rfl
        | true => exact flushData_accepted (({(s.meet o).numbered with toWriteSide := w} : TcpSession).noted call.packet false)
      · rw [sendPacket_unfold (s := s.meet o) sender.live,taken] at received
        exact received

theorem Fresh.unsent (fresh : Fresh s) : s.socket.accepted = [] := (List.append_eq_nil_iff.mp fresh.pushed).1

-- A client that gives up before it has got the seed has sent and handed over nothing.
theorem Fresh.finished (fresh : Fresh s) (zero : t.state = .zero) (accepted : t.socket.accepted = s.socket.accepted) (sent : t.sent = s.sent)
    (silent : receives t.calls = receives s.calls) : Over seed [] [] theirs t := by
  refine ⟨.inr zero,?_,sent.trans fresh.sent,List.forall_mem_nil _,?_⟩
  · rw [accepted,fresh.unsent]
    exact List.nil_prefix
  · rw [silent,fresh.silent]
    exact List.nil_prefix

theorem connecting_fresh (fresh : Fresh s) (trying : s.state = .connecting) :
    (Fresh s.connecting ∨ Over seed [] [] theirs s.connecting) ∧ s.connecting.socket.accepted = s.socket.accepted := by
  have given (u : TcpSession) (accepted : u.socket.accepted = s.socket.accepted) (sent : u.sent = s.sent) (calls : u.calls = s.calls) :
      Over seed [] [] theirs (u.close.onConnect false) ∧ (u.close.onConnect false).socket.accepted = s.socket.accepted := by
    have idle : u.close.state ≠ .connected := by simp [close,reset,setBufSize]
    rw [onConnect,callback_idle idle]
    refine ⟨fresh.finished rfl accepted sent ?_,accepted⟩
    rw [receives_append,← calls]
    exact List.append_nil _
  have loaded : ∀ t : TcpSession, t.toReadSide = s.toReadSide → t.socket.received = s.socket.received →
      t.view = s.view → Loaded s t [] := fun t side received view =>
    ⟨fresh.read.same side,by rw [List.append_nil]; exact (fresh.read.congr side).2,by rw [List.append_nil]; exact received,view⟩
  unfold connecting
  dsimp only
  split
  · obtain ⟨finished,same⟩ := given {s with socket := s.socket.hasExcept.2} rfl rfl rfl
    exact ⟨.inr finished,same⟩
  · split
    · obtain ⟨finished,same⟩ := given {s with socket := s.socket.hasExcept.2,times := s.times.tail} rfl rfl rfl
      exact ⟨.inr finished,same⟩
    · split
      · exact ⟨.inl (fresh.loaded (loaded _ rfl rfl rfl) rfl rfl rfl (.inl trying)),rfl⟩
      · split
        · rw [onConnect,callback_idle (by simp [getTime,trying])]
          refine ⟨.inr (fresh.finished rfl rfl rfl ?_),rfl⟩
          show receives (s.calls ++ [.onConnect false]) = _
          rw [receives_append]
          exact List.append_nil _
        · exact ⟨.inl (fresh.loaded (loaded _ rfl rfl rfl) rfl rfl rfl (.inr rfl)),rfl⟩

-- The seed packet has come in whole: the client is CONNECTED and has still sent nothing.
theorem seed_quiet {n : Nat} (fresh : Fresh u) (quiet : u.app = []) (seeded : SeedItem seed p)
    (found : frames.next u.unread = .frame p (u.unread.drop n)) (bound : (n : Int) ≤ u.readLen) :
    Half seed [] [] [p] theirs ((u.skip n).handle ((u.skip n).opened p)) ∧
    ((u.skip n).handle ((u.skip n).opened p)).socket = u.socket := by
  have sys : ((u.skip n).opened p).isSysPacket = true := ((u.skip n).opened_isSysPacket p).trans seeded.sys
  obtain ⟨skipped,left⟩ := fresh.read.skip bound
  unfold handle
  rw [if_pos sys,handleSysPacket_seed _ _ (seeded.opened _),onConnect]
  let payload := (((u.skip n).opened p).attachCmdPacket recvCmdPkt).readable
  let v : TcpSession := {setSeed {u.skip n with calls := u.calls ++ [.handleSysPacket payload]} seed with state := .connected}
  have handled : v.callback (.onConnect true) = {v with calls := v.calls ++ [.onConnect true]} := callback_quiet (s := v) quiet _
  show Half seed [] [] [p] theirs (v.callback (.onConnect true)) ∧ (v.callback (.onConnect true)).socket = u.socket
  rw [handled]
  obtain ⟨ring,buffered⟩ := fresh.ring.same (t := {v with calls := v.calls ++ [.onConnect true]}) rfl
  refine ⟨.live ⟨ring,rfl,Keys.setSeed_agreed _ _,?_,fresh.sent,List.forall_mem_nil _⟩ ⟨skipped.same rfl,[],theirs,rfl,?_,?_⟩,rfl⟩
  · rw [TcpSession.pushed,buffered]
    exact fresh.pushed
  · show receives (u.calls ++ [.handleSysPacket payload] ++ [.onConnect true]) = _
    rw [receives_append,receives_append,fresh.silent]
    rfl
  · show frames.split u.socket.received = ([p] ++ [].map Prod.fst ++ (frames.split (u.skip n).unread).1,(frames.split (u.skip n).unread).2)
    rw [left,fresh.split,frames.split_frame found]
    rfl

theorem waiting_received (ok : ReadOk u) : u.waiting.socket.received = u.socket.received := by
  rcases waiting_parts ok with ⟨_,same⟩ | ⟨_,same⟩ | ⟨raw,n,_,_,took⟩
  · rw [same]
  · rw [same]
  · rw [took]
    split
    · exact congrArg SocketIn.received (handle_parts (u.skip n) raw).2.2
    · rfl

theorem waiting_fresh (fresh : Fresh u) (quiet : u.app = []) (seeded : SeedItem seed p) (readable : Readable [p] theirs)
    (stream : u.socket.received <+: ([p] ++ theirs.map Prod.fst).flatMap NetPacket.bytes) :
    (Fresh u.waiting ∨ Half seed [] [] [p] theirs u.waiting) ∧ u.waiting.socket = u.socket := by
  obtain ⟨done,todo,tail,cut,split⟩ := readable.encoded stream
  rw [fresh.split] at split
  rcases waiting_parts fresh.read with ⟨_,same⟩ | ⟨bad,_⟩ | ⟨raw,n,found,bound,took⟩
  · rw [same]
    exact ⟨.inl fresh,rfl⟩
  · rw [frames.split_bad bad] at split
    cases congrArg Prod.snd split
  · rw [frames.split_frame found] at split
    have first : done = raw :: (frames.split (u.unread.drop n)).1 := (congrArg Prod.fst split).symm
    rw [first] at cut
    have same : p = raw := (List.cons.inj cut).1
    subst same
    rw [took,if_pos ((u.opened_isSysPacket p).trans seeded.sys)]
    have connected : Half seed [] [] [p] theirs ((u.skip n).handle ((u.skip n).opened p)) ∧
        ((u.skip n).handle ((u.skip n).opened p)).socket = u.socket := seed_quiet fresh quiet seeded found bound
    exact ⟨.inr connected.1,connected.2⟩

-- A tick of a client that has not got the seed, whatever fails in it.
theorem tick_fresh (fresh : Fresh s) (quiet : o.app = []) (seeded : SeedItem seed p) (readable : Readable [p] theirs)
    (stream : carried <+: ([p] ++ theirs.map Prod.fst).flatMap NetPacket.bytes)
    (part : (s.meet o).process.socket.received <+: carried) :
    (Fresh (s.meet o).process ∨ Half seed [] [] [p] theirs (s.meet o).process) ∧
    s.socket.accepted <+: (s.meet o).process.socket.accepted := by
  have met := fresh.meet o
  rcases fresh.trying with trying | still
  · rw [process_connecting (s := s.meet o) trying]
    have tried : (Fresh (s.meet o).connecting ∨ Over seed [] [] theirs (s.meet o).connecting) ∧
        (s.meet o).connecting.socket.accepted = s.socket.accepted := connecting_fresh met trying
    obtain ⟨fresh' | finished,accepted⟩ := tried
    · exact ⟨.inl fresh',by rw [accepted]⟩
    · exact ⟨.inr (.finished finished),by rw [accepted]⟩
  · obtain ⟨loaded,⟨_,dead,proc⟩ | ⟨_,waits,proc⟩⟩ := process_waiting met.read still
    · obtain ⟨accepted,sent,_,_,_⟩ := readData_accepted met.read
      have handed : receives (s.meet o).readData.calls <+: theirs.map Prod.snd := by
        rw [show (s.meet o).readData.calls = s.calls from congrArg View.calls loaded.view,fresh.silent]
        exact List.nil_prefix
      have front : (s.meet o).readData.socket.accepted <+: (([] : List NetPacket) ++ List.map Prod.fst ([] : List (NetPacket × List UInt8))).flatMap
          NetPacket.bytes := by
        rw [accepted,met.unsent]
        exact List.nil_prefix
      have none : ∀ u ∈ ([] : List (NetPacket × List UInt8)), UserItem seed u := List.forall_mem_nil _
      obtain ⟨finished,same,_⟩ := onDisconnect_over dead front (sent.trans fresh.sent) none handed
      rw [proc,same,accepted]
      exact ⟨.inr (.finished finished),List.prefix_rfl⟩
    · obtain ⟨accepted,sent,side,_,app⟩ := readData_accepted met.read
      have fresh' : Fresh (s.meet o).readData := met.loaded loaded side accepted sent (.inr waits)
      rw [proc,waiting_received loaded.read] at part
      obtain ⟨ends,socket⟩ := waiting_fresh fresh' (app.trans quiet) seeded readable (part.trans stream)
      rw [proc,socket,accepted]
      exact ⟨ends,List.prefix_rfl⟩

-- A session that has sent nothing but the seed, as far as it got.
theorem sendSeed_half (ring : RingOk s) (live : s.state = .connected) (unsent : s.pushed = [] ∧ s.sent = [])
    (room : 11 < s.writeBufSize-s.writeLen) (seed : Int32) :
    ∃ p, SeedItem seed p ∧ (Sender seed [p] [] (s.sendSeed seed) ∨
      (s.sendSeed seed).state = .dead ∧ (s.sendSeed seed).socket.accepted <+: p.bytes ∧ (s.sendSeed seed).sent = []) := by
  have seeded := wire_seed s.numbered seed
  have numbered := RingOk.same (t := s.numbered) ring rfl
  have length := seeded.framed.length_bytes
  simp only [List.length_append,Endian.length_ofInt16,Endian.length_ofInt32] at length
  have fits : (s.numbered.pushData (s.numbered.wire (sysPacket sysPacketSetSeed seed) true).bytes).1 = true :=
    pushData_room (by rw [length]; exact room)
  obtain ⟨w,taken,ring',buffered⟩ := (pushData_parts numbered.1 (bytes_length seeded.framed)).resolve_left fun refused => by
    rw [refused] at fits
    cases fits
  rw [sendSeed_taken live taken]
  let queued : TcpSession := {s.numbered with toWriteSide := w}
  have stream : queued.pushed = (s.numbered.wire (sysPacket sysPacketSetSeed seed) true).bytes := by
    rw [TcpSession.pushed,buffered,numbered.2,← List.append_assoc]
    rw [show queued.socket.accepted ++ s.buffered = [] from unsent.1]
    rfl
  obtain ⟨ring'',pushed⟩ := flushData_parts (s := queued) ring'
  have sent : queued.flushData.sent = [] := (flushData_sent queued).trans unsent.2
  refine ⟨_,seeded,?_⟩
  rcases flushData_state (s := queued) live with ⟨_,dead⟩ | ⟨_,alive⟩
  · refine .inr ⟨dead,?_,sent⟩
    rw [← stream,← pushed]
    exact List.prefix_append _ _
  · obtain ⟨same,buffer⟩ := ring''.same (t := queued.flushData.setSeed seed) rfl
    refine .inl ⟨same,alive,Keys.setSeed_agreed _ _,?_,sent,List.forall_mem_nil _⟩
    rw [TcpSession.pushed,buffer]
    refine (pushed.trans stream).trans ?_
    simp

-- The session that AcceptNewSession returns: its Send may have failed already.
theorem acceptNewSession_half (s : TcpSession) (o : Outside) (seed : Int32) :
    ∃ p, SeedItem seed p ∧ Half seed [p] [] [] [] (s.acceptNewSession o seed) ∧ (s.acceptNewSession o seed).socket.received = [] := by
  have ring := reset_ring s (by decide : ((maxBufferSize/1024+1)*1000 : Int) ≤ 2^29)
  obtain ⟨read,unread,received,calls,_⟩ := opened_parts (.seeded s o seed)
  obtain ⟨p,seeded,goes⟩ := sendSeed_half (RingOk.same (t := s.afterAttach.meet o) ring rfl).1 rfl ⟨rfl,rfl⟩
    (by decide : (11 : Int) < maxBufferSize-0) seed
  rw [acceptNewSession]
  generalize (s.afterAttach.meet o).sendSeed seed = t at read unread received calls goes ⊢
  refine ⟨p,seeded,?_,received⟩
  rcases goes with sender | ⟨dead,front,sent⟩
  · refine .live sender ⟨read,[],[],rfl,?_,?_⟩
    · rw [calls]
      rfl
    · rw [received,unread,frames.split_nil]
      rfl
  · refine .finished ⟨.inl dead,?_,sent,List.forall_mem_nil _,?_⟩
    · rw [List.map_nil,List.append_nil,List.flatMap_singleton]
      exact front
    · rw [calls]
      exact List.nil_prefix

end PcNetwork.TcpSession
