import PcNetwork.Session.Delivery
import PcNetwork.Session.Packets

namespace PcNetwork.TcpSession

-- The sending side of a session that shares the seed with its peer: everything it
-- pushed is `lead` and then one packet for each payload of `sent`.
structure Sender (seed : Int32) (lead : List NetPacket) (users : List (NetPacket × List UInt8)) (s : TcpSession) : Prop where
  ring : RingOk s
  live : s.state = .connected
  agreed : s.toKeys.Agreed seed
  stream : s.pushed = (lead ++ users.map Prod.fst).flatMap NetPacket.bytes
  sent : s.sent = users.map Prod.snd
  items : ∀ u ∈ users, UserItem seed u

-- Within one step: the Sends to come do not fail, and the application sends packets
-- it has built.
structure Armed (s : TcpSession) : Prop where
  flows : Flows s.socket
  app : ∀ calls ∈ s.app, ∀ call ∈ calls, call.packet.Built

-- One or more packets sent on the way from s to t.
def Grows (seed : Int32) (lead : List NetPacket) (users : List (NetPacket × List UInt8)) (s t : TcpSession) : Prop :=
  ∃ more, Sender seed lead (users ++ more) t ∧ s.socket.accepted <+: t.socket.accepted

theorem Sender.same (sender : Sender seed lead users s) (side : t.toWriteSide = s.toWriteSide)
    (accepted : t.socket.accepted = s.socket.accepted) (live : t.state = .connected) (agreed : t.toKeys.Agreed seed)
    (sent : t.sent = s.sent) : Sender seed lead users t := by
  obtain ⟨ring,buffered⟩ := sender.ring.same side
  refine ⟨ring,live,agreed,?_,sent.trans sender.sent,sender.items⟩
  rw [pushed,accepted,buffered]
  exact sender.stream

theorem flushData_sent (s : TcpSession) : s.flushData.sent = s.sent := by
  have sendFrom : ∀ (s : TcpSession) off len, (s.sendFrom off len).2.sent = s.sent := by
    intro s off len
    unfold TcpSession.sendFrom touch
    dsimp only
    split <;> rfl
  unfold flushData
  split
  · rfl
  · split
    · exact sendFrom _ _ _
    · dsimp only
      split
      · exact sendFrom _ _ _
      · split
        · exact sendFrom _ _ _
        · exact (sendFrom _ _ _).trans (sendFrom _ _ _)

theorem sender_flush (sender : Sender seed lead users s) (armed : Armed s) :
    Sender seed lead users s.flushData ∧ Armed s.flushData ∧ s.socket.accepted <+: s.flushData.socket.accepted := by
  obtain ⟨ring,pushed⟩ := flushData_parts sender.ring
  have going := flushData_going ⟨sender.live,armed.flows⟩
  have receiver := flushData_toReceiver s
  refine ⟨⟨ring,going.live,?_,pushed.trans sender.stream,(flushData_sent s).trans sender.sent,sender.items⟩,
    ⟨going.flows,?_⟩,flushData_accepted s⟩
  · rw [receiver]; exact sender.agreed
  · rw [receiver]; exact armed.app

theorem bytes_length {p : NetPacket} (framed : p.Framed payload) : (p.bytes.length : Int) ≤ maxNetPacketSize := by
  have fits := framed.fits
  have length := framed.length_bytes
  unfold maxNetPacketSize netPacketHeadSize
  omega

-- PushData and the flush behind it, for a packet that `s` is about to send.
theorem sender_push {users : List (NetPacket × List UInt8)} {item : NetPacket × List UInt8}
    (sender : Sender seed lead users s) (armed : Armed s) (user : UserItem seed item) (flush : Bool) {packet : CmdPacket}
    (content : packet.content = item.2) :
    let r := s.pushData item.1.bytes
    let t := r.2.noted packet false
    (r.1 = false ∧ r.2 = s) ∨
      (r.1 = true ∧ Sender seed lead (users ++ [item]) (if flush then t.flushData else t) ∧
        Armed (if flush then t.flushData else t) ∧
        s.socket.accepted <+: (if flush then t.flushData else t).socket.accepted) := by
  obtain ⟨bytes,framed⟩ := user.framed
  rcases pushData_parts sender.ring (bytes_length framed) with refused | ⟨w,taken,ring,buffered⟩
  · left
    rw [refused]
    exact ⟨rfl,rfl⟩
  · right
    rw [taken]
    refine ⟨rfl,?_⟩
    have ring' : RingOk (({s with toWriteSide := w} : TcpSession).noted packet false) :=
      (RingOk.same (t := noted {s with toWriteSide := w} packet false) ring rfl).1
    have queued : Sender seed lead (users ++ [item]) (({s with toWriteSide := w} : TcpSession).noted packet false) := by
      refine ⟨ring',sender.live,sender.agreed,?_,?_,?_⟩
      · rw [pushed,show (noted {s with toWriteSide := w} packet false).buffered = s.buffered ++ item.1.bytes from buffered,
          show (noted {s with toWriteSide := w} packet false).socket = s.socket from rfl,← List.append_assoc,
          show s.socket.accepted ++ s.buffered = s.pushed from rfl,sender.stream]
        simp
      · show s.sent ++ [packet.content] = _
        rw [sender.sent,content]
        simp
      · intro u member
        rcases List.mem_append.mp member with old | new
        · exact sender.items u old
        · rw [List.mem_singleton.mp new]; exact user
    have armed' : Armed (({s with toWriteSide := w} : TcpSession).noted packet false) := ⟨armed.flows,armed.app⟩
    cases flush with
    | false => exact ⟨queued,armed',List.prefix_rfl⟩
    | true =>
      obtain ⟨sender',armed',more⟩ := sender_flush queued armed'
      exact ⟨sender',armed',more⟩

theorem sender_sendPacket {packet : CmdPacket} (sender : Sender seed lead users s) (armed : Armed s)
    (built : packet.Built) (flush : Bool) :
    Grows seed lead users s (s.sendPacket packet flush false).2 ∧ Armed (s.sendPacket packet flush false).2 := by
  have numbered : Sender seed lead users s.numbered := sender.same rfl rfl sender.live sender.agreed rfl
  have armed' : Armed s.numbered := ⟨armed.flows,armed.app⟩
  have user := wire_user numbered.agreed built
  rw [sendPacket_unfold sender.live]
  rcases sender_push numbered armed' user flush rfl with ⟨refused,same⟩ | ⟨taken,sender',armed',more⟩
  · dsimp only at refused same ⊢
    rw [if_pos refused,same]
    exact ⟨⟨[],by rw [List.append_nil]; exact numbered,List.prefix_rfl⟩,armed'⟩
  · dsimp only at taken sender' armed' more ⊢
    rw [if_neg (by rw [taken]; nofun)]
    exact ⟨⟨_,sender',more⟩,armed'⟩

theorem Grows.trans (first : Grows seed lead users s t)
    (second : ∀ more, Sender seed lead (users ++ more) t → Grows seed lead (users ++ more) t u) :
    Grows seed lead users s u := by
  obtain ⟨more,sender,accepted⟩ := first
  obtain ⟨again,sender',accepted'⟩ := second more sender
  exact ⟨more ++ again,by rw [← List.append_assoc]; exact sender',accepted.trans accepted'⟩

theorem Sender.grows (sender : Sender seed lead users t) (accepted : t.socket.accepted = s.socket.accepted) :
    Grows seed lead users s t := ⟨[],by rw [List.append_nil]; exact sender,accepted ▸ List.prefix_rfl⟩

theorem sender_calls (sender : Sender seed lead users s) (armed : Armed s) {calls : List SendCall}
    (built : ∀ call ∈ calls, call.packet.Built) :
    Grows seed lead users s (calls.foldl (fun s c => (s.sendPacket c.packet c.flush false).2) s) ∧
    Armed (calls.foldl (fun s c => (s.sendPacket c.packet c.flush false).2) s) := by
  induction calls generalizing s users with
  | nil => exact ⟨sender.grows rfl,armed⟩
  | cons call rest ih =>
    obtain ⟨grows,armed'⟩ := sender_sendPacket sender armed (built call List.mem_cons_self) call.flush
    have onward := fun more (sender : Sender seed lead (users ++ more) _) => ih sender armed' fun c member =>
      built c (List.mem_cons_of_mem _ member)
    refine ⟨grows.trans fun more sender => (onward more sender).1,?_⟩
    obtain ⟨more,sender',_⟩ := grows
    exact (onward more sender').2

-- A callback is recorded, and the application may answer with packets of its own.
theorem sender_callback (sender : Sender seed lead users s) (armed : Armed s) (call : Callback) :
    Grows seed lead users s (s.callback call) ∧ Armed (s.callback call) ∧
    (s.callback call).calls = s.calls ++ [call] ∧ (s.callback call).toReadSide = s.toReadSide ∧
    (s.callback call).socket.toSocketIn = s.socket.toSocketIn := by
  let start : TcpSession := {s with calls := s.calls ++ [call],app := s.app.tail}
  have recorded : Sender seed lead users start := sender.same rfl rfl sender.live sender.agreed rfl
  have armed' : Armed start := ⟨armed.flows,fun calls member => armed.app calls (List.mem_of_mem_tail member)⟩
  have mine : ∀ c ∈ s.app.headD [], c.packet.Built := by
    cases app : s.app with
    | nil => simp
    | cons first rest => exact armed.app first (by rw [app]; exact List.mem_cons_self)
  obtain ⟨grows,armed''⟩ := sender_calls recorded armed' mine
  have quiet := callback_outgoing s call
  exact ⟨grows,armed'',by rw [quiet.toReceiver],by rw [quiet.toReceiver],quiet.toSocketIn⟩

-- A user packet that arrives is handed to OnReceive with its payload.
theorem sender_handle {item : NetPacket × List UInt8} (sender : Sender seed lead users s) (armed : Armed s)
    (user : UserItem seed item) :
    Grows seed lead users s (s.handle (s.opened item.1)) ∧ Armed (s.handle (s.opened item.1)) ∧
    (s.handle (s.opened item.1)).calls = s.calls ++ [.onReceive item.2] := by
  have plain : (s.opened item.1).isSysPacket = false := (s.opened_isSysPacket item.1).trans user.user
  obtain ⟨grows,armed',calls,_⟩ := sender_callback sender armed
    (.onReceive ((s.opened item.1).attachCmdPacket recvCmdPkt).readable)
  unfold handle
  rw [plain,if_neg nofun]
  exact ⟨grows,armed',calls.trans (by rw [user.opened _ sender.agreed])⟩

-- The loops of a CONNECTED tick over user packets only.
theorem sender_pump {fs : List (NetPacket × List UInt8)} (pumped : Pump s t) (ok : ReadOk s)
    (sender : Sender seed lead users s) (armed : Armed s)
    (split : frames.split s.unread = (fs.map Prod.fst,.waiting tail)) (items : ∀ u ∈ fs, UserItem seed u) :
    Grows seed lead users s t ∧ receives t.calls = receives s.calls ++ fs.map Prod.snd := by
  induction pumped generalizing users fs with
  | @stop s t took =>
    rcases recvPacket_none ok took with ⟨more,rfl⟩ | ⟨bad,_⟩
    · rw [frames.split_more more] at split
      have empty : fs = [] := List.map_eq_nil_iff.mp (congrArg Prod.fst split).symm
      rw [empty]
      exact ⟨sender.grows rfl,(List.append_nil _).symm⟩
    · rw [frames.split_bad bad] at split
      cases congrArg Prod.snd split
  | @next pkt s m t took _ ih =>
    obtain ⟨raw,n,found,_,bound,rfl,rfl⟩ := recvPacket_some ok took
    rw [frames.split_frame found] at split
    cases fs with
    | nil => cases congrArg Prod.fst split
    | cons item rest =>
      have first : raw = item.1 := (List.cons.inj (congrArg Prod.fst split)).1
      have later := (List.cons.inj (congrArg Prod.fst split)).2
      have waits : (frames.split (s.unread.drop n)).2 = .waiting tail := congrArg Prod.snd split
      subst first
      obtain ⟨skipped,left⟩ := ok.skip bound
      have sender' : Sender seed lead users (s.skip n) := sender.same rfl rfl sender.live sender.agreed rfl
      have armed' : Armed (s.skip n) := ⟨armed.flows,armed.app⟩
      obtain ⟨grows,armed'',calls⟩ := sender_handle sender' armed' (items item List.mem_cons_self)
      obtain ⟨ready,same⟩ := skipped.congr (handle_parts (s.skip n) item.1).2.1
      have remaining : frames.split ((s.skip n).handle ((s.skip n).opened item.1)).unread =
          (rest.map Prod.fst,.waiting tail) := by
        rw [same,left]
        exact Prod.ext later waits
      have onward := fun more (sender : Sender seed lead (users ++ more) _) => ih ready sender armed'' remaining fun u member =>
        items u (List.mem_cons_of_mem _ member)
      refine ⟨grows.trans fun more sender => (onward more sender).1,?_⟩
      obtain ⟨more,sender'',_⟩ := grows
      rw [(onward more sender'').2]
      refine (congrArg (fun calls => receives calls ++ rest.map Prod.snd) calls).trans ?_
      rw [receives_append,List.append_assoc]
      rfl

-- The receiving side: it has taken `lead` and the first of the peer's user packets
-- out of what it has received, and has handed these to OnReceive.
structure Reading (lead : List NetPacket) (theirs : List (NetPacket × List UInt8)) (s : TcpSession) : Prop where
  read : ReadOk s
  taken : ∃ done todo, theirs = done ++ todo ∧ receives s.calls = done.map Prod.snd ∧
    frames.split s.socket.received =
      (lead ++ done.map Prod.fst ++ (frames.split s.unread).1,(frames.split s.unread).2)

-- Everything a side has pushed can be read back from its bytes.
structure Readable (lead : List NetPacket) (users : List (NetPacket × List UInt8)) : Prop where
  inLead : ∀ p ∈ lead, ∃ bytes, p.Framed bytes
  inUsers : ∀ u ∈ users, ∃ bytes, u.1.Framed bytes

theorem Readable.reads (readable : Readable lead users) :
    ∀ p ∈ lead ++ users.map Prod.fst, ∀ later, frames.next (p.bytes ++ later) = .frame p later := by
  intro p member later
  rcases List.mem_append.mp member with first | user
  · obtain ⟨bytes,framed⟩ := readable.inLead p first
    exact NetPacket.next_bytes framed later
  · obtain ⟨u,inside,rfl⟩ := List.mem_map.mp user
    obtain ⟨bytes,framed⟩ := readable.inUsers u inside
    exact NetPacket.next_bytes framed later

theorem Readable.encoded (readable : Readable lead users) (part : bytes <+: (lead ++ users.map Prod.fst).flatMap NetPacket.bytes) :
    ∃ done todo tail, lead ++ users.map Prod.fst = done ++ todo ∧ frames.split bytes = (done,.waiting tail) := by
  obtain ⟨done,todo,tail,cut,split,_⟩ := frames.split_encoded readable.reads part
  exact ⟨done,todo,tail,cut,split⟩

-- What a tick finds to read are the next of the peer's packets.
theorem Reading.arrives {got : List UInt8} (reading : Reading lead theirs s) (readable : Readable lead theirs)
    (part : s.socket.received ++ got <+: (lead ++ theirs.map Prod.fst).flatMap NetPacket.bytes) :
    ∃ done us rest tail, theirs = done ++ us ++ rest ∧ receives s.calls = done.map Prod.snd ∧
      frames.split (s.unread ++ got) = (us.map Prod.fst,.waiting tail) ∧
      frames.split (s.socket.received ++ got) = (lead ++ (done ++ us).map Prod.fst,.waiting tail) := by
  obtain ⟨done,todo,parts,calls,split⟩ := reading.taken
  have grown := frames.split_extend split got
  obtain ⟨front,back,tail,cut,found⟩ := readable.encoded part
  rw [found] at grown
  have front' : front = lead ++ done.map Prod.fst ++ (frames.split (s.unread ++ got)).1 := congrArg Prod.fst grown
  have waits : (frames.split (s.unread ++ got)).2 = .waiting tail := (congrArg Prod.snd grown).symm
  rw [parts,List.map_append,front'] at cut
  simp only [List.append_assoc,List.append_cancel_left_eq] at cut
  obtain ⟨us,rest,divided,mine,_⟩ := List.map_eq_append_iff.mp cut
  have read : frames.split (s.unread ++ got) = (us.map Prod.fst,.waiting tail) := Prod.ext mine.symm waits
  refine ⟨done,us,rest,tail,by rw [parts,divided,List.append_assoc],calls,read,?_⟩
  rw [found,front',← mine,List.map_append,List.append_assoc]

theorem sender_readData (sender : Sender seed lead users s) (armed : Armed s) (ok : ReadOk s)
    (alive : s.readData.state = .connected) :
    Sender seed lead users s.readData ∧ Armed s.readData ∧ s.readData.socket.accepted = s.socket.accepted := by
  obtain ⟨side,times,last,filled,_,_⟩ := readData_parts ok
  obtain ⟨_,sends,accepted,_⟩ := recv_parts s.socket (s.readBufSize-s.readLen)
  have same : s.readData.socket.accepted = s.socket.accepted := by rw [filled]; exact accepted
  refine ⟨sender.same ?_ same alive ?_ ?_,⟨?_,?_⟩,same⟩
  · rw [filled]
  · rw [filled]; exact sender.agreed
  · rw [filled]
  · rw [filled]; exact fun answer member => armed.flows answer (sends ▸ member)
  · rw [filled]; exact armed.app

-- No Send is going to fail, and the application sends packets built by Write calls.
structure Willing (o : Outside) : Prop where
  sends : ∀ answer ∈ o.sends, answer ≠ .failed
  app : ∀ calls ∈ o.app, ∀ call ∈ calls, call.packet.Built

-- A tick without a failure: no Send and no Recv returns -1, no timeout is reached,
-- and Recv returns the next bytes that the peer's Sends took.
structure Smooth (s : TcpSession) (o : Outside) (carried : List UInt8) : Prop extends Willing o where
  connects : s.state = .connecting → o.excepts.headD false = false ∧ ¬ o.times.headD 0-s.connTime > netConnectTimeout ∧
    o.soErrors.headD false = false
  inTime : s.state = .connected → ¬ (s.meet o).timedOut
  reads : ¬ (s.meet o).recvFails
  part : s.socket.received ++ (s.meet o).arriving <+: carried

theorem tick_connected {mine theirs : List (NetPacket × List UInt8)} (sender : Sender seed own mine s)
    (reading : Reading lead theirs s) (readable : Readable lead theirs) (items : ∀ u ∈ theirs, UserItem seed u)
    (smooth : Smooth s o carried) (stream : carried <+: (lead ++ theirs.map Prod.fst).flatMap NetPacket.bytes) :
    Grows seed own mine s (s.meet o).process ∧ Reading lead theirs (s.meet o).process ∧
    (s.meet o).process.socket.received <+: carried := by
  let m := s.meet o
  have ok : ReadOk m := reading.read.same rfl
  have inTime := smooth.inTime sender.live
  obtain ⟨last,proc⟩ := defProc_inTime (s := m) sender.live inTime
  let start : TcpSession := {m with times := m.times.tail,lastSendTime := last}
  have agreed : start.toKeys.Agreed seed := ⟨sender.agreed.bEncrypt,sender.agreed.seedLen,sender.agreed.bytes⟩
  have begins : Sender seed own mine start := sender.same rfl rfl sender.live agreed rfl
  have armed : Armed start := ⟨smooth.sends,smooth.app⟩
  obtain ⟨flushed,armed,accepted⟩ := sender_flush begins armed
  have kept : ¬ m.procFails := by
    rintro (late | fails | fails)
    · exact inTime late
    · rcases flushData_state (s := start) sender.live with ⟨_,dead⟩ | ⟨sends,_⟩
      · rw [flushed.live] at dead; cases dead
      · exact sends fails
    · exact smooth.reads fails
  rcases process_connected ok sender.live with ⟨fails,_⟩ | ⟨_,loaded,alive,pumped⟩
  · exact absurd fails kept
  · have ready : ReadOk start.flushData := ok.same (by rw [flushData_toReceiver])
    rw [proc] at alive
    obtain ⟨full,armed,same⟩ := sender_readData flushed armed ready alive
    rw [← proc] at full armed same
    obtain ⟨done,us,rest,tail,parts,calls,split,whole⟩ := reading.arrives readable (smooth.part.trans stream)
    have unread : frames.split m.defProc.unread = (us.map Prod.fst,.waiting tail) := by
      rw [loaded.unread]; exact split
    obtain ⟨grows,said⟩ := sender_pump pumped loaded.read full armed unread fun u member =>
      items u (by rw [parts]; exact List.mem_append_left _ (List.mem_append_right _ member))
    obtain ⟨fine,socket,_,left,_⟩ := pump_frames loaded.read pumped
    have received : m.process.socket.received = s.socket.received ++ m.arriving :=
      (congrArg SocketIn.received socket).trans loaded.received
    refine ⟨?_,⟨fine,done ++ us,rest,parts,?_,?_⟩,?_⟩
    · obtain ⟨more,sender',accepted'⟩ := grows
      exact ⟨more,sender',accepted.trans (same ▸ accepted')⟩
    · rw [said,show m.defProc.calls = s.calls from congrArg View.calls loaded.view,calls,List.map_append]
    · rw [received,whole,left,unread,List.append_nil]
    · rw [received]; exact smooth.part

-- A client that has not seen the seed yet has pushed and delivered nothing.
structure Fresh (s : TcpSession) : Prop where
  ring : RingOk s
  read : ReadOk s
  trying : s.state = .connecting ∨ s.state = .waitingSeed
  pushed : s.pushed = []
  sent : s.sent = []
  silent : receives s.calls = []
  split : frames.split s.socket.received = frames.split s.unread

theorem Fresh.meet (fresh : Fresh s) (o : Outside) : Fresh (s.meet o) :=
  ⟨(RingOk.same (t := s.meet o) fresh.ring rfl).1,fresh.read.same rfl,fresh.trying,fresh.pushed,fresh.sent,fresh.silent,
    fresh.split⟩

theorem Fresh.loaded {got : List UInt8} (fresh : Fresh s) (loaded : Loaded s t got) (side : t.toWriteSide = s.toWriteSide)
    (accepted : t.socket.accepted = s.socket.accepted) (sent : t.sent = s.sent)
    (trying : t.state = .connecting ∨ t.state = .waitingSeed) : Fresh t := by
  obtain ⟨ring,buffered⟩ := fresh.ring.same side
  refine ⟨ring,loaded.read,trying,?_,sent.trans fresh.sent,?_,?_⟩
  · rw [TcpSession.pushed,accepted,buffered]; exact fresh.pushed
  · rw [show t.calls = s.calls from congrArg View.calls loaded.view]; exact fresh.silent
  · have split : frames.split s.socket.received = ([] ++ (frames.split s.unread).1,(frames.split s.unread).2) := fresh.split
    rw [loaded.received,loaded.unread]
    exact frames.split_extend split got

theorem tick_connecting (fresh : Fresh s) (trying : s.state = .connecting) (smooth : Smooth s o carried) :
    Fresh (s.meet o).process ∧ (s.meet o).process.socket.received = s.socket.received := by
  obtain ⟨excepts,inTime,noError⟩ := smooth.connects trying
  have met := fresh.meet o
  have loaded : ∀ t : TcpSession, t.toReadSide = s.toReadSide → t.socket.received = s.socket.received →
      t.view = (s.meet o).view → Loaded (s.meet o) t [] := fun t side received view =>
    ⟨fresh.read.same side,by rw [List.append_nil]; exact (fresh.read.congr side).2,by rw [List.append_nil]; exact received,view⟩
  rw [process_connecting (s := s.meet o) trying]
  unfold connecting
  dsimp only
  split
  · rename_i bad; exact absurd (excepts.symm.trans bad) nofun
  · split
    · rename_i late; exact absurd late inTime
    · split
      · exact ⟨met.loaded (loaded _ rfl rfl rfl) rfl rfl rfl (.inl trying),rfl⟩
      · split
        · rename_i error; exact absurd (noError.symm.trans error) nofun
        · exact ⟨met.loaded (loaded _ rfl rfl rfl) rfl rfl rfl (.inr rfl),rfl⟩

-- The tick in which the seed packet has come in whole: the client is CONNECTED.
theorem fresh_seed {n : Nat} (fresh : Fresh u) (armed : Armed u) (seeded : SeedItem seed p)
    (found : frames.next u.unread = .frame p (u.unread.drop n)) (bound : (n : Int) ≤ u.readLen)
    (theirs : List (NetPacket × List UInt8)) :
    (∃ mine, Sender seed [] mine ((u.skip n).handle ((u.skip n).opened p))) ∧
    Reading [p] theirs ((u.skip n).handle ((u.skip n).opened p)) ∧
    ((u.skip n).handle ((u.skip n).opened p)).socket.received = u.socket.received := by
  have sys : ((u.skip n).opened p).isSysPacket = true := ((u.skip n).opened_isSysPacket p).trans seeded.sys
  obtain ⟨skipped,left⟩ := fresh.read.skip bound
  unfold handle
  rw [if_pos sys,handleSysPacket_seed _ _ (seeded.opened _),onConnect]
  generalize hs : (setSeed {u.skip n with
    calls := (u.skip n).calls ++ [Callback.handleSysPacket (((u.skip n).opened p).attachCmdPacket recvCmdPkt).readable]} seed) = v
  have agreed : v.toKeys.Agreed seed := by rw [← hs]; exact Keys.setSeed_agreed _ _
  have ring := fresh.ring.same (t := {v with state := .connected}) (by rw [← hs]; rfl)
  have start : Sender seed [] [] {v with state := .connected} := by
    refine ⟨ring.1,rfl,agreed,?_,?_,List.forall_mem_nil _⟩
    · rw [TcpSession.pushed,ring.2]
      rw [← hs]
      exact fresh.pushed
    · rw [← hs]; exact fresh.sent
  have armed' : Armed {v with state := .connected} := by rw [← hs]; exact ⟨armed.flows,armed.app⟩
  obtain ⟨⟨mine,sender,_⟩,_,calls,side,socket⟩ := sender_callback start armed' (.onConnect true)
  have received : (callback {v with state := .connected} (.onConnect true)).socket.received = u.socket.received := by
    refine (congrArg SocketIn.received socket).trans ?_
    rw [← hs]
    rfl
  obtain ⟨fine,unread⟩ := skipped.congr (side.trans (by rw [← hs]; rfl))
  refine ⟨⟨_,sender⟩,⟨fine,[],theirs,rfl,?_,?_⟩,received⟩
  · rw [calls,← hs]
    refine (congrArg receives (List.append_assoc _ _ _)).trans ?_
    rw [receives_append,show receives (u.skip n).calls = [] from fresh.silent]
    rfl
  · rw [received,unread,left,fresh.split,frames.split_frame found]
    rfl

theorem tick_waiting {theirs : List (NetPacket × List UInt8)} (fresh : Fresh s) (still : s.state = .waitingSeed)
    (seeded : SeedItem seed p) (readable : Readable [p] theirs) (smooth : Smooth s o carried)
    (stream : carried <+: ([p] ++ theirs.map Prod.fst).flatMap NetPacket.bytes) :
    (s.meet o).process.socket.received <+: carried ∧
    (Fresh (s.meet o).process ∨
      ((∃ mine, Sender seed [] mine (s.meet o).process) ∧ Reading [p] theirs (s.meet o).process)) := by
  have met := fresh.meet o
  obtain ⟨loaded,⟨fails,_⟩ | ⟨_,waits,proc⟩⟩ := process_waiting met.read still
  · exact absurd fails smooth.reads
  · obtain ⟨side,times,last,filled,_,_⟩ := readData_parts met.read
    obtain ⟨_,sends,accepted,_⟩ := recv_parts (s.meet o).socket ((s.meet o).readBufSize-(s.meet o).readLen)
    have fresh' : Fresh (s.meet o).readData := met.loaded loaded (by rw [filled]) (by rw [filled]; exact accepted)
      (by rw [filled]) (.inr waits)
    have armed : Armed (s.meet o).readData := by
      rw [filled]
      refine ⟨fun answer member => smooth.sends answer ?_,smooth.app⟩
      exact (congrArg (answer ∈ ·) sends).mp member
    have part : (s.meet o).readData.socket.received <+: carried := by rw [loaded.received]; exact smooth.part
    obtain ⟨done,todo,tail,cut,split⟩ := readable.encoded (part.trans stream)
    rw [fresh'.split] at split
    rw [proc]
    generalize (s.meet o).readData = u at fresh' armed part split
    rcases waiting_parts fresh'.read with ⟨_,same⟩ | ⟨bad,_⟩ | ⟨raw,n,found,bound,took⟩
    · rw [same]
      exact ⟨part,.inl fresh'⟩
    · rw [frames.split_bad bad] at split; cases congrArg Prod.snd split
    · rw [frames.split_frame found] at split
      have first : done = raw :: (frames.split (u.unread.drop n)).1 := (congrArg Prod.fst split).symm
      rw [first] at cut
      have same : p = raw := (List.cons.inj cut).1
      subst same
      obtain ⟨sender,reading,received⟩ := fresh_seed fresh' armed seeded found bound theirs
      rw [took,if_pos ((u.opened_isSysPacket p).trans seeded.sys)]
      exact ⟨received ▸ part,.inr ⟨sender,reading⟩⟩

end PcNetwork.TcpSession
