import PcNetwork.Session.Handshake

namespace PcNetwork.TcpSession

-- Two sessions and the byte channels between them. What a side's Sends took and the
-- other side has not received yet is in flight.
structure Link where
  client : TcpSession
  server : TcpSession

inductive LinkEvent where
  | clientTick (o : Outside)
  | serverTick (o : Outside)
  | clientSend (o : Outside) (call : SendCall)
  | serverSend (o : Outside) (call : SendCall)

inductive LinkStep : Link → LinkEvent → Link → Prop where
  | clientTick (smooth : Smooth client o server.socket.accepted) :
      LinkStep ⟨client,server⟩ (.clientTick o) ⟨(client.meet o).process,server⟩
  | serverTick (smooth : Smooth server o client.socket.accepted) :
      LinkStep ⟨client,server⟩ (.serverTick o) ⟨client,(server.meet o).process⟩
  | clientSend (willing : Willing o) (built : call.packet.Built) :
      LinkStep ⟨client,server⟩ (.clientSend o call) ⟨((client.meet o).sendPacket call.packet call.flush false).2,server⟩
  | serverSend (willing : Willing o) (built : call.packet.Built) :
      LinkStep ⟨client,server⟩ (.serverSend o call) ⟨client,((server.meet o).sendPacket call.packet call.flush false).2⟩

-- AcceptNewSession: Attach, and then SendSeed.
def acceptNewSession (s : TcpSession) (o : Outside) (seed : Int32) : TcpSession := (s.afterAttach.meet o).sendSeed seed

-- The invariant of a link. The server pushed the seed packet `p` and then user
-- packets; the client has either not seen `p` yet, or both sides talk.
structure LinkOk (seed : Int32) (l : Link) : Prop where
  down : l.client.socket.received <+: l.server.socket.accepted
  up : l.server.socket.received <+: l.client.socket.accepted
  phase : ∃ p vs, SeedItem seed p ∧ Sender seed [p] vs l.server ∧
    ((Fresh l.client ∧ Reading [] [] l.server) ∨
      ∃ cs, Sender seed [] cs l.client ∧ Reading [p] vs l.client ∧ Reading [] cs l.server)

theorem Reading.later (reading : Reading lead theirs s) (more : List (NetPacket × List UInt8)) :
    Reading lead (theirs ++ more) s := by
  obtain ⟨done,todo,parts,calls,split⟩ := reading.taken
  exact ⟨reading.read,done,todo ++ more,by rw [parts,List.append_assoc],calls,split⟩

theorem Sender.meet (sender : Sender seed lead users s) (o : Outside) : Sender seed lead users (s.meet o) :=
  sender.same rfl rfl sender.live ⟨sender.agreed.bEncrypt,sender.agreed.seedLen,sender.agreed.bytes⟩ rfl

theorem Sender.part (sender : Sender seed lead users s) :
    s.socket.accepted <+: (lead ++ users.map Prod.fst).flatMap NetPacket.bytes := by
  rw [← sender.stream]
  exact List.prefix_append _ _

theorem Sender.readable (sender : Sender seed lead users s) (framed : ∀ p ∈ lead, ∃ bytes, p.Framed bytes) :
    Readable lead users := ⟨framed,fun u member => (sender.items u member).framed⟩

theorem SeedItem.inLead (seeded : SeedItem seed p) : ∀ q ∈ [p], ∃ bytes, q.Framed bytes := by
  intro q member
  rw [List.mem_singleton.mp member]
  exact ⟨_,seeded.framed⟩

-- A SendPacket call of the application touches its own side only.
theorem sender_send {call : SendCall} (sender : Sender seed own mine s) (reading : Reading lead theirs s) (willing : Willing o)
    (built : call.packet.Built) :
    Grows seed own mine s ((s.meet o).sendPacket call.packet call.flush false).2 ∧
    Reading lead theirs ((s.meet o).sendPacket call.packet call.flush false).2 ∧
    ((s.meet o).sendPacket call.packet call.flush false).2.socket.received = s.socket.received := by
  obtain ⟨grows,_⟩ := sender_sendPacket (sender.meet o) ⟨willing.sends,willing.app⟩ built call.flush
  have quiet := sendPacket_outgoing (s.meet o) call.packet call.flush false
  have received : ((s.meet o).sendPacket call.packet call.flush false).2.socket.received = s.socket.received :=
    (congrArg SocketIn.received quiet.toSocketIn).trans rfl
  obtain ⟨done,todo,parts,calls,split⟩ := reading.taken
  obtain ⟨fine,unread⟩ := reading.read.congr (t := ((s.meet o).sendPacket call.packet call.flush false).2)
    (by rw [quiet.toReceiver]; rfl)
  refine ⟨grows,⟨fine,done,todo,parts,?_,?_⟩,received⟩
  · rw [quiet.toReceiver]; exact calls
  · rw [received,unread]; exact split

theorem fresh_send (fresh : Fresh s) (o : Outside) (call : SendCall) :
    ((s.meet o).sendPacket call.packet call.flush false).2 = s.meet o := by
  have idle : (s.meet o).state ≠ .connected := by
    intro live
    exact fresh.trying.elim (fun trying => absurd (live.symm.trans trying) nofun) fun still => absurd (live.symm.trans still) nofun
  rw [sendPacket_idle idle]

-- The server has nothing to receive from a client that has not sent anything.
theorem Fresh.unheard {client server : TcpSession} (fresh : Fresh client) (up : server.socket.received <+: client.socket.accepted) (bytes : List UInt8) :
    server.socket.received <+: bytes := by
  have none : client.socket.accepted = [] := (List.append_eq_nil_iff.mp fresh.pushed).1
  rw [none] at up
  rw [List.prefix_nil.mp up]
  exact List.nil_prefix

theorem link_clientTick {client server : TcpSession} (ok : LinkOk seed ⟨client,server⟩)
    (smooth : Smooth client o server.socket.accepted) : LinkOk seed ⟨(client.meet o).process,server⟩ := by
  obtain ⟨down,up,p,vs,seeded,pushes,⟨fresh,quiet⟩ | ⟨cs,talks,hears,answers⟩⟩ := ok
  · have unheard := fresh.unheard up (client.meet o).process.socket.accepted
    rcases fresh.trying with trying | still
    · obtain ⟨fresh',received⟩ := tick_connecting fresh trying smooth
      exact ⟨by rw [received]; exact down,unheard,p,vs,seeded,pushes,.inl ⟨fresh',quiet⟩⟩
    · obtain ⟨part,fresh' | ⟨⟨cs,talks⟩,hears⟩⟩ :=
        tick_waiting fresh still seeded (pushes.readable seeded.inLead) smooth pushes.part
      · exact ⟨part,unheard,p,vs,seeded,pushes,.inl ⟨fresh',quiet⟩⟩
      · exact ⟨part,unheard,p,vs,seeded,pushes,.inr ⟨cs,talks,hears,quiet.later cs⟩⟩
  · obtain ⟨⟨more,talks',accepted⟩,hears',part⟩ :=
      tick_connected talks hears (pushes.readable seeded.inLead) pushes.items smooth pushes.part
    exact ⟨part,up.trans accepted,p,vs,seeded,pushes,.inr ⟨cs ++ more,talks',hears',answers.later more⟩⟩

theorem link_serverTick {client server : TcpSession} (ok : LinkOk seed ⟨client,server⟩)
    (smooth : Smooth server o client.socket.accepted) : LinkOk seed ⟨client,(server.meet o).process⟩ := by
  obtain ⟨down,up,p,vs,seeded,pushes,⟨fresh,quiet⟩ | ⟨cs,talks,hears,answers⟩⟩ := ok
  · have none : client.socket.accepted = [] := (List.append_eq_nil_iff.mp fresh.pushed).1
    obtain ⟨⟨more,pushes',accepted⟩,quiet',part⟩ :=
      tick_connected pushes quiet ⟨nofun,nofun⟩ nofun smooth (by rw [none]; exact List.nil_prefix)
    exact ⟨down.trans accepted,part,p,vs ++ more,seeded,pushes',.inl ⟨fresh,quiet'⟩⟩
  · obtain ⟨⟨more,pushes',accepted⟩,answers',part⟩ :=
      tick_connected pushes answers (talks.readable nofun) talks.items smooth talks.part
    exact ⟨down.trans accepted,part,p,vs ++ more,seeded,pushes',.inr ⟨cs,talks,hears.later more,answers'⟩⟩

theorem link_clientSend {call : SendCall} {client server : TcpSession} (ok : LinkOk seed ⟨client,server⟩) (willing : Willing o)
    (built : call.packet.Built) :
    LinkOk seed ⟨((client.meet o).sendPacket call.packet call.flush false).2,server⟩ := by
  obtain ⟨down,up,p,vs,seeded,pushes,⟨fresh,quiet⟩ | ⟨cs,talks,hears,answers⟩⟩ := ok
  · rw [fresh_send fresh]
    exact ⟨down,up,p,vs,seeded,pushes,.inl ⟨fresh.meet o,quiet⟩⟩
  · obtain ⟨⟨more,talks',accepted⟩,hears',received⟩ := sender_send talks hears willing built
    exact ⟨by rw [received]; exact down,up.trans accepted,p,vs,seeded,pushes,.inr ⟨cs ++ more,talks',hears',answers.later more⟩⟩

theorem link_serverSend {call : SendCall} {client server : TcpSession} (ok : LinkOk seed ⟨client,server⟩) (willing : Willing o)
    (built : call.packet.Built) :
    LinkOk seed ⟨client,((server.meet o).sendPacket call.packet call.flush false).2⟩ := by
  obtain ⟨down,up,p,vs,seeded,pushes,⟨fresh,quiet⟩ | ⟨cs,talks,hears,answers⟩⟩ := ok
  · obtain ⟨⟨more,pushes',accepted⟩,quiet',received⟩ := sender_send pushes quiet willing built
    exact ⟨down.trans accepted,by rw [received]; exact up,p,vs ++ more,seeded,pushes',.inl ⟨fresh,quiet'⟩⟩
  · obtain ⟨⟨more,pushes',accepted⟩,answers',received⟩ := sender_send pushes answers willing built
    exact ⟨down.trans accepted,by rw [received]; exact up,p,vs ++ more,seeded,pushes',
      .inr ⟨cs,talks,hears.later more,answers'⟩⟩

theorem link_step (ok : LinkOk seed l) (step : LinkStep l event next) : LinkOk seed next := by
  cases step with
  | clientTick smooth => exact link_clientTick ok smooth
  | serverTick smooth => exact link_serverTick ok smooth
  | clientSend willing built => exact link_clientSend ok willing built
  | serverSend willing built => exact link_serverSend ok willing built

-- PushData into a ring with room for the block.
theorem pushData_room {s : TcpSession} {buf : List UInt8} (room : (buf.length : Int) < s.writeBufSize-s.writeLen) :
    (s.pushData buf).1 = true := by
  unfold pushData
  dsimp only
  split
  · rename_i full; exact absurd full (Int.not_le.mpr room)
  · rfl

theorem sendSeed_taken {s t : TcpSession} (live : s.state = .connected) {seed : Int32}
    (taken : s.numbered.pushData (s.numbered.wire (sysPacket sysPacketSetSeed seed) true).bytes = (true,t)) :
    s.sendSeed seed = t.flushData.setSeed seed := by
  unfold sendSeed
  rw [sendPacket_unfold live,taken]
  rfl

-- A session that has sent nothing but the seed.
theorem sendSeed_sender {s : TcpSession} (ring : RingOk s) (live : s.state = .connected) (flows : Flows s.socket)
    (unsent : s.pushed = [] ∧ s.sent = []) (room : 11 < s.writeBufSize-s.writeLen) (seed : Int32) :
    ∃ p, SeedItem seed p ∧ Sender seed [p] [] (s.sendSeed seed) := by
  have seeded := wire_seed s.numbered seed
  have numbered := RingOk.same (t := s.numbered) ring rfl
  have length := seeded.framed.length_bytes
  simp only [List.length_append,Endian.length_ofInt16,Endian.length_ofInt32] at length
  have fits : (s.numbered.pushData (s.numbered.wire (sysPacket sysPacketSetSeed seed) true).bytes).1 = true :=
    pushData_room (by rw [length]; exact room)
  obtain ⟨w,taken,ring',buffered⟩ := (pushData_parts numbered.1 (bytes_length seeded.framed)).resolve_left fun refused => by
    rw [refused] at fits; cases fits
  obtain ⟨ring'',pushed⟩ := flushData_parts ring'
  have going : Going (flushData {s.numbered with toWriteSide := w}) := flushData_going ⟨live,flows⟩
  have sent := flushData_sent {s.numbered with toWriteSide := w}
  have stream : (flushData {s.numbered with toWriteSide := w}).pushed =
      (s.numbered.wire (sysPacket sysPacketSetSeed seed) true).bytes := by
    rw [pushed,TcpSession.pushed,buffered,numbered.2,← List.append_assoc]
    rw [show ({s.numbered with toWriteSide := w} : TcpSession).socket.accepted ++ s.buffered = [] from unsent.1]
    rfl
  rw [sendSeed_taken live taken]
  generalize flushData {s.numbered with toWriteSide := w} = t at ring'' pushed going sent stream
  obtain ⟨same,queued⟩ := RingOk.same (t := t.setSeed seed) ring'' rfl
  refine ⟨_,seeded,same,going.live,Keys.setSeed_agreed _ _,?_,sent.trans unsent.2,List.forall_mem_nil _⟩
  rw [TcpSession.pushed,queued]
  refine stream.trans ?_
  simp

-- The session that AcceptNewSession returns has pushed the seed packet.
theorem acceptNewSession_sender (s : TcpSession) (willing : Willing o) (seed : Int32) :
    ∃ p, SeedItem seed p ∧ Sender seed [p] [] (s.acceptNewSession o seed) := by
  have ring := reset_ring s (by decide : ((maxBufferSize/1024+1)*1000 : Int) ≤ 2^29)
  exact sendSeed_sender (RingOk.same (t := s.afterAttach.meet o) ring rfl).1 rfl willing.sends ⟨rfl,rfl⟩
    (by decide : (11 : Int) < maxBufferSize-0) seed

theorem link_start (c v : TcpSession) (willing : Willing o) (seed : Int32) :
    LinkOk seed ⟨c.afterConnect,v.acceptNewSession o seed⟩ := by
  obtain ⟨p,seeded,pushes⟩ := acceptNewSession_sender v willing seed
  obtain ⟨read,unread,received,calls,_⟩ := opened_parts (.seeded v o seed)
  have ring := reset_ring c (by decide : ((maxBufferSize/1024+1)*1000 : Int) ≤ 2^29)
  have fresh : Fresh c.afterConnect := by
    refine ⟨(RingOk.same (t := c.afterConnect) ring rfl).1,(reset_read c).same rfl,.inl rfl,rfl,rfl,rfl,?_⟩
    rw [unread_empty rfl]
    rfl
  refine ⟨List.nil_prefix,?_,p,[],seeded,pushes,.inl ⟨fresh,read,[],[],rfl,?_,?_⟩⟩
  · rw [acceptNewSession,received]; exact List.nil_prefix
  · rw [acceptNewSession,calls]; rfl
  · rw [acceptNewSession,received,unread,frames.split_nil]; rfl

-- Everything `s` has pushed went through, and `t` has no packet left to take.
structure Drained (s t : TcpSession) : Prop where
  flushed : s.writeLen = 0
  arrived : t.socket.received = s.socket.accepted
  taken : frames.next t.unread = .more

theorem Drained.pushed (drained : Drained s t) : t.socket.received = s.pushed := by
  rw [TcpSession.pushed,buffered,drained.flushed,drained.arrived]
  simp

theorem Reading.handed (reading : Reading lead theirs s) : receives s.calls <+: theirs.map Prod.snd := by
  obtain ⟨done,todo,parts,calls,_⟩ := reading.taken
  rw [calls,parts,List.map_append]
  exact List.prefix_append _ _

theorem Reading.whole (reading : Reading lead theirs t) (sender : Sender seed lead theirs s)
    (readable : Readable lead theirs) (drained : Drained s t) : receives t.calls = theirs.map Prod.snd := by
  obtain ⟨done,todo,parts,calls,split⟩ := reading.taken
  rw [drained.pushed,sender.stream,frames.split_whole readable.reads,frames.split_more drained.taken] at split
  have same : theirs.map Prod.fst = done.map Prod.fst := by simpa using congrArg Prod.fst split
  have none : todo = [] := by
    rw [parts,List.map_append] at same
    simpa using same
  rw [calls,parts,none,List.append_nil]

-- The client cannot be without the seed when everything has arrived.
theorem Fresh.undrained {vs : List (NetPacket × List UInt8)} (fresh : Fresh t) (seeded : SeedItem seed p)
    (sender : Sender seed [p] vs s) (drained : Drained s t) : False := by
  have split := fresh.split
  rw [drained.pushed,sender.stream,frames.split_whole (sender.readable seeded.inLead).reads,
    frames.split_more drained.taken] at split
  cases congrArg Prod.fst split

-- What a side hands to OnReceive are the payloads that the other side has sent, each
-- of them once and in order, and once everything is through they are all of them.
theorem exchange_delivers (c v : TcpSession) (willing : Willing o) (seed : Int32)
    (path : Path LinkStep ⟨c.afterConnect,v.acceptNewSession o seed⟩ taken last) :
    receives last.client.calls <+: last.server.sent ∧ receives last.server.calls <+: last.client.sent ∧
    (Drained last.server last.client → receives last.client.calls = last.server.sent) ∧
    (Drained last.client last.server → receives last.server.calls = last.client.sent) := by
  obtain ⟨_,_,p,vs,seeded,pushes,⟨fresh,quiet⟩ | ⟨cs,talks,hears,answers⟩⟩ :=
    path.invariant (LinkOk seed) (link_start c v willing seed) fun _ _ _ ok step => link_step ok step
  · have unheard : receives last.server.calls = [] := List.prefix_nil.mp quiet.handed
    rw [fresh.silent,unheard,fresh.sent]
    exact ⟨List.nil_prefix,List.nil_prefix,fun drained => (fresh.undrained seeded pushes drained).elim,fun _ => rfl⟩
  · rw [pushes.sent,talks.sent]
    exact ⟨hears.handed,answers.handed,hears.whole pushes (pushes.readable seeded.inLead),
      answers.whole talks (talks.readable nofun)⟩

-- The connection comes up, the client gets the seed and then a packet of one byte.
theorem exchange_delivers_byte : ∃ taken last,
    Path LinkStep ⟨new.afterConnect,new.acceptNewSession default 5⟩ taken last ∧ Drained last.server last.client ∧
    last.server.sent = [[7]] ∧ receives last.client.calls = last.server.sent := by
  let flowing : Outside := {(default : Outside) with sends := [.sent 100]}
  let packet : CmdPacket := CmdPacket.new.beginWrite.write (.byte 7)
  have built : packet.Built := by
    refine ⟨⟨CmdPacket.new,[.byte 7],CmdPacket.new_sized,?_,rfl⟩,by decide +kernel⟩
    intro op member
    rw [List.mem_singleton.mp member]
    exact trivial
  -- the connect attempt succeeds, and Process of the server flushes the seed packet
  let connects : Outside := {(default : Outside) with writables := [true]}
  let client := (new.afterConnect.meet connects).process
  let accepted := new.acceptNewSession default 5
  let server := (accepted.meet flowing).process
  have first : LinkStep ⟨new.afterConnect,accepted⟩ (.clientTick connects) ⟨client,accepted⟩ :=
    .clientTick ⟨⟨nofun,nofun⟩,fun _ => ⟨rfl,by decide +kernel,rfl⟩,nofun,by decide +kernel,by decide +kernel⟩
  have second : LinkStep ⟨client,accepted⟩ (.serverTick flowing) ⟨client,server⟩ :=
    .serverTick ⟨⟨by decide +kernel,nofun⟩,fun idle => absurd idle (by decide +kernel),fun _ => by decide +kernel,by decide +kernel,by decide +kernel⟩
  -- the client reads it, and then what the server sends
  let hears : Outside := {(default : Outside) with recvs := [.data server.socket.accepted]}
  let joined := (client.meet hears).process
  have third : LinkStep ⟨client,server⟩ (.clientTick hears) ⟨joined,server⟩ :=
    .clientTick ⟨⟨nofun,nofun⟩,fun idle => absurd idle (by decide +kernel),fun live => absurd live (by decide +kernel),by decide +kernel,by decide +kernel⟩
  let sent := ((server.meet flowing).sendPacket packet true false).2
  have fourth : LinkStep ⟨joined,server⟩ (.serverSend flowing ⟨packet,true⟩) ⟨joined,sent⟩ :=
    .serverSend ⟨by decide +kernel,nofun⟩ built
  let reads : Outside := {(default : Outside) with recvs := [.data (sent.socket.accepted.drop 11)]}
  let last := (joined.meet reads).process
  have fifth : LinkStep ⟨joined,sent⟩ (.clientTick reads) ⟨last,sent⟩ :=
    .clientTick ⟨⟨nofun,nofun⟩,fun idle => absurd idle (by decide +kernel),fun _ => by decide +kernel,by decide +kernel,by decide +kernel⟩
  have path := Path.step (.step (.step (.step (.step .nil first) second) third) fourth) fifth
  have read : last.unread = [] := by decide +kernel
  have drained : Drained sent last := ⟨by decide +kernel,by decide +kernel,by rw [read]; rfl⟩
  have written : sent.sent = [[7]] := by decide +kernel
  have willing : Willing default := ⟨nofun,nofun⟩
  have delivers := exchange_delivers new new willing 5 path
  dsimp only at delivers
  refine ⟨_,_,path,?_⟩
  dsimp only
  exact ⟨drained,written,delivers.2.2.1 drained⟩

end PcNetwork.TcpSession
