import PcNetwork.NetSelect.ReadPath
import PcNetwork.Services.Served

namespace PcNetwork.NetEvent
open SockBuf NetSelect
open SelectService (Outside)

-- A program of net_select: the service with NetEvent as its application, which sends every
-- message back. For the connection that is in a slot, `received` are the bytes that ::recv
-- has stored, `delivered` the bodies that onRead has taken out of the buffer and given to
-- printf (which stops at a NUL in one) and `greeted` the words that onCon has sent.
structure EchoProgram where
  machine : Machine
  received : Nat → List UInt8
  delivered : Nat → List (List UInt8)
  greeted : Nat → List (List UInt8)

abbrev Echo := EStateM Fault EchoProgram

namespace EchoProgram

def new : EchoProgram := ⟨.new,fun _ => [],fun _ => [],fun _ => []⟩

def onMachine (f : Moves α) : Echo α := fun s =>
  match f s.machine with
  | .ok a m => .ok a {s with machine := m}
  | .error e m => .error e {s with machine := m}

def print (index : Nat) (body : List UInt8) : Echo Unit := modify fun s =>
  {s with delivered := fun i => if i = index then s.delivered i ++ [body] else s.delivered i}

def sendAll (index : Nat) (serial : UInt64) : List (List UInt8) → Echo Unit
  | [] => pure ()
  | bytes :: rest => do
    onMachine (Machine.send index serial bytes)
    sendAll index serial rest

-- The word with its length in front of it.
def sendWord (index : Nat) (serial : UInt64) (word : List UInt8) : Echo Unit := do
  modify fun s => {s with greeted := fun i => if i = index then s.greeted i ++ [word] else s.greeted i}
  onMachine (Machine.send index serial (encode word))

-- onCon of the server sends nothing, that of the client a word.
def onCon (index : Nat) (serial : UInt64) : Option (List UInt8) → Echo Unit
  | none => pure ()
  | some word => sendWord index serial word

def onRead (index : Nat) (serial : UInt64) : Echo Unit := do
  let answer ← onMachine (Machine.call (SelectService.onReadBuf index onReadNetSelect))
  match answer with
  | none => pure ()
  | some message =>
    print index message.body
    sendAll index serial message.sent

-- The callback that was called last, which is given the serial of its peer.
def handle (word : Option (List UInt8)) : Echo Unit := do
  let s ← get
  match s.machine.stack with
  | .onCon index :: _ => onCon index (s.machine.service.peers index).serial word
  | .onRead index _ :: _ => onRead index (s.machine.service.peers index).serial
  | _ => pure ()

def callback (word : Option (List UInt8)) : Echo Unit := do
  handle word
  onMachine (Machine.resume 0)

-- A connection has got the slot.
def Opens (m n : Machine) (i : Nat) : Prop :=
  (m.service.peers i).socket = NetSelect.invalidSocket ∧ (n.service.peers i).socket ≠ NetSelect.invalidSocket

instance (m n : Machine) (i : Nat) : Decidable (Opens m n i) := inferInstanceAs (Decidable (_ ∧ _))

-- The service has moved on, without the application.
def moved (s : EchoProgram) (event : MachineEvent) (n : Machine) : EchoProgram where
  machine := n
  received i := if Opens s.machine n i then [] else s.received i ++ Machine.stores i s.machine event
  delivered i := if Opens s.machine n i then [] else s.delivered i
  greeted i := if Opens s.machine n i then [] else s.greeted i

end EchoProgram

inductive EchoEvent where
  | io (event : MachineEvent)
  | callback

-- main calls listen or connectPeer and then eventLoop, which goes round.
def MainCalls (m : Machine) : MachineEvent → Prop
  | .listen _ | .connectPeer _ | .eventLoop _ => m.stack = []
  | .round => True
  | .send _ _ _ | .closePeer _ _ | .pop _ | .resume _ => False

inductive EchoStep (word : Option (List UInt8)) : EchoProgram → EchoEvent → EchoProgram → Prop where
  | io (main : MainCalls s.machine event) (step : Machine.MachineStep s.machine event n) :
      EchoStep word s (.io event) (s.moved event n)
  | callback (ran : EchoProgram.callback word s = .ok () t) : EchoStep word s .callback t

variable {s t u : EchoProgram} {m n : Machine} {index i : Nat} {b c : SockBuf} {bytes : List UInt8} {o : Outside}

-- What a step of the service does to one slot.
inductive Turn (i : Nat) (m n : Machine) (bytes : List UInt8) : Prop where
  | still (peer : n.service.peers i = m.service.peers i) (passed : n.passed i = m.passed i) (accepted : n.accepted i = m.accepted i)
      (none : bytes = [])
  | opened (opens : EchoProgram.Opens m n i) (reads : (n.service.peers i).readBuf = final (SockBuf.reset (m.service.peers i).readBuf))
      (writes : (n.service.peers i).writeBuf = final (SockBuf.reset (m.service.peers i).writeBuf))
      (passed : n.passed i = []) (accepted : n.accepted i = [])
  | shut (peer : n.service.peers i = {m.service.peers i with socket := NetSelect.invalidSocket})
  | drew {b : SockBuf} (ok : Ok b) (readable : b.readable = (m.service.peers i).readBuf.readable ++ bytes)
      (peer : n.service.peers i = {m.service.peers i with readBuf := b}) (passed : n.passed i = m.passed i)
      (accepted : n.accepted i = m.accepted i)
  | wrote {b : SockBuf} {taken : List UInt8} (ok : Ok b) (parts : (m.service.peers i).writeBuf.readable = taken ++ b.readable)
      (peer : n.service.peers i = {m.service.peers i with writeBuf := b}) (passed : n.passed i = m.passed i)
      (accepted : n.accepted i = m.accepted i ++ taken) (none : bytes = [])

-- The streams of a connection: what has come in has been delivered or waits in read_buf, and
-- the word of onCon and what has been delivered have gone out or wait in write_buf.
structure Flow (s : EchoProgram) (i : Nat) : Prop where
  incoming : (s.delivered i).flatMap encode ++ (s.machine.service.peers i).readBuf.readable = s.received i
  passed : s.machine.passed i = (s.greeted i ++ s.delivered i).flatMap encode
  outgoing : 0 < (s.machine.service.peers i).socket →
    s.machine.accepted i ++ (s.machine.service.peers i).writeBuf.readable = s.machine.passed i
  short : ∀ body ∈ s.delivered i, body.length < 2^31

structure Echoing (s : EchoProgram) : Prop where
  reads : ∀ i, Ok (s.machine.service.peers i).readBuf
  writes : ∀ i, Ok (s.machine.service.peers i).writeBuf
  flows : ∀ i, (s.machine.service.peers i).socket ≠ NetSelect.invalidSocket → Flow s i

theorem reset_ok (ok : Ok b) : Ok (final (SockBuf.reset b)) ∧ (final (SockBuf.reset b)).readable = [] :=
  ⟨⟨Nat.le_refl _,Nat.zero_le _,ok.small,ok.block⟩,Block.slice_zero _ _⟩

-- What a turn of a slot leaves of its streams.
theorem Turn.flow {next : EchoProgram} (turn : Turn i s.machine next.machine bytes) (reads : Ok (s.machine.service.peers i).readBuf)
    (writes : Ok (s.machine.service.peers i).writeBuf)
    (flow : (s.machine.service.peers i).socket ≠ NetSelect.invalidSocket → Flow s i)
    (received : next.received i = if EchoProgram.Opens s.machine next.machine i then [] else s.received i ++ bytes)
    (delivered : next.delivered i = if EchoProgram.Opens s.machine next.machine i then [] else s.delivered i)
    (greeted : next.greeted i = if EchoProgram.Opens s.machine next.machine i then [] else s.greeted i) :
    Ok (next.machine.service.peers i).readBuf ∧ Ok (next.machine.service.peers i).writeBuf ∧
    ((next.machine.service.peers i).socket ≠ NetSelect.invalidSocket → Flow next i) := by
  have kept (same : (next.machine.service.peers i).socket = (s.machine.service.peers i).socket) :
      next.received i = s.received i ++ bytes ∧ next.delivered i = s.delivered i ∧ next.greeted i = s.greeted i := by
    have unopened : ¬ EchoProgram.Opens s.machine next.machine i := fun opens => opens.2 (same.trans opens.1)
    rw [if_neg unopened] at received delivered greeted
    exact ⟨received,delivered,greeted⟩
  cases turn with
  | still peer passed accepted none =>
    obtain ⟨received,delivered,greeted⟩ := kept (by rw [peer])
    rw [none,List.append_nil] at received
    rw [peer]
    refine ⟨reads,writes,fun valid => ?_⟩
    obtain ⟨incoming,all,outgoing,short⟩ := flow valid
    refine ⟨?_,?_,?_,?_⟩
    · rw [delivered,peer,received]
      exact incoming
    · rw [delivered,greeted,passed]
      exact all
    · rw [peer,accepted,passed]
      exact outgoing
    · rw [delivered]
      exact short
  | opened opens fresh_reads fresh_writes passed accepted =>
    rw [if_pos opens] at received delivered greeted
    obtain ⟨first,no_reads⟩ := reset_ok reads
    obtain ⟨second,no_writes⟩ := reset_ok writes
    rw [fresh_reads,fresh_writes]
    refine ⟨first,second,fun _ => ⟨?_,?_,fun _ => ?_,?_⟩⟩
    · rw [delivered,fresh_reads,no_reads,received]
      rfl
    · rw [delivered,greeted,passed]
      rfl
    · rw [accepted,fresh_writes,no_writes,passed]
      rfl
    · rw [delivered]
      exact nofun
  | shut peer =>
    rw [peer]
    exact ⟨reads,writes,fun valid => absurd rfl valid⟩
  | @drew b ok readable peer passed accepted =>
    obtain ⟨received,delivered,greeted⟩ := kept (by rw [peer])
    rw [peer]
    refine ⟨ok,writes,fun valid => ?_⟩
    obtain ⟨incoming,all,outgoing,short⟩ := flow valid
    refine ⟨?_,?_,?_,?_⟩
    · rw [delivered,peer,received,← incoming]
      dsimp only
      rw [readable,List.append_assoc]
    · rw [delivered,greeted,passed]
      exact all
    · rw [peer,accepted,passed]
      exact outgoing
    · rw [delivered]
      exact short
  | @wrote b taken ok parts peer passed accepted none =>
    obtain ⟨received,delivered,greeted⟩ := kept (by rw [peer])
    rw [none,List.append_nil] at received
    rw [peer]
    refine ⟨reads,ok,fun valid => ?_⟩
    obtain ⟨incoming,all,outgoing,short⟩ := flow valid
    refine ⟨?_,?_,fun legal => ?_,?_⟩
    · rw [delivered,peer,received]
      exact incoming
    · rw [delivered,greeted,passed]
      exact all
    · rw [peer] at legal ⊢
      rw [accepted,passed,← outgoing legal,List.append_assoc,parts]
    · rw [delivered]
      exact short

theorem Turn.refl (m : Machine) (i : Nat) : Turn i m m [] := .still rfl rfl rfl rfl

-- Only the peers and the streams matter of the state before.
theorem Turn.from {k : Machine} (turn : Turn i k n bytes) (peers : k.service.peers = m.service.peers) (passed : k.passed = m.passed)
    (accepted : k.accepted = m.accepted) : Turn i m n bytes := by
  cases turn with
  | still peer same_passed same_accepted none =>
    rw [peers] at peer
    rw [passed] at same_passed
    rw [accepted] at same_accepted
    exact .still peer same_passed same_accepted none
  | opened opens reads writes fresh_passed fresh_accepted =>
    unfold EchoProgram.Opens at opens
    rw [peers] at opens reads writes
    exact .opened opens reads writes fresh_passed fresh_accepted
  | shut peer =>
    rw [peers] at peer
    exact .shut peer
  | drew ok readable peer same_passed same_accepted =>
    rw [peers] at readable peer
    rw [passed] at same_passed
    rw [accepted] at same_accepted
    exact .drew ok readable peer same_passed same_accepted
  | wrote ok parts peer same_passed more_accepted none =>
    rw [peers] at parts peer
    rw [passed] at same_passed
    rw [accepted] at more_accepted
    exact .wrote ok parts peer same_passed more_accepted none

theorem closing_turn {serial : UInt64} (closing : Machine.Closing m index serial n) (i : Nat) : Turn i m n [] := by
  cases closing with
  | stale dead => exact .refl m i
  | called live ip port => exact .still rfl rfl rfl rfl

theorem writing_turn (writing : Machine.Writing m o index n) (ok : Ok (m.service.peers index).writeBuf) (i : Nat) : Turn i m n [] := by
  have wrote {b : SockBuf} (wrote : Machine.Wrote (o.sends (m.service.peers index).socket) (m.service.peers index).writeBuf b)
      (peers : n.service.peers = (m.wrote o index b).service.peers) (passed : n.passed = (m.wrote o index b).passed)
      (accepted : n.accepted = (m.wrote o index b).accepted) : Turn i m n [] := by
    obtain ⟨kept,parts⟩ := wrote.split ok
    by_cases own : i = index
    · subst own
      refine .wrote kept parts ?_ ?_ ?_ rfl
      · rw [peers]
        exact Machine.setPeer_at _ _ _
      · rw [passed]
        rfl
      · rw [accepted]
        exact if_pos rfl
    · refine .still ?_ ?_ ?_ rfl
      · rw [peers]
        exact Machine.setPeer_off _ _ own
      · rw [passed]
        rfl
      · rw [accepted]
        exact if_neg own
  cases writing with
  | unready => exact .refl m i
  | failed closing => exact closing_turn closing i
  | left written count some_left => exact wrote written rfl rfl rfl
  | drained written count none_left => exact wrote written rfl rfl rfl

theorem registered_turn {c : SelectService.Connection} (registered : Machine.Registered m c n) (valid : c.socket ≠ NetSelect.invalidSocket)
    (i : Nat) : Turn i m n [] := by
  cases registered with
  | given slot bound free =>
    by_cases own : i = slot
    · subst own
      have peer := Machine.setPeer_at m.service i {m.service.peers i with
        serial := m.service.serial
        socket := c.socket
        readBuf := final (SockBuf.reset (m.service.peers i).readBuf)
        writeBuf := final (SockBuf.reset (m.service.peers i).writeBuf)
        remoteIp := c.remoteIp
        remotePort := c.remotePort}
      refine .opened ⟨free,?_⟩ (congrArg Peer.readBuf peer) (congrArg Peer.writeBuf peer) (if_pos rfl) (if_pos rfl)
      exact fun shut => valid ((congrArg Peer.socket peer).symm.trans shut)
    · exact .still (Machine.setPeer_off _ _ own) (if_neg own) (if_neg own) rfl

theorem drew_turn {answer : Option (List UInt8)} (drew : Machine.Drew answer (m.service.peers index).readBuf b)
    (peers : n.service.peers = (m.service.setPeer index {m.service.peers index with readBuf := b}).peers)
    (passed : n.passed = m.passed) (accepted : n.accepted = m.accepted) (i : Nat) :
    Turn i m n (if i = index then Machine.recvTakes answer (m.service.peers index).readBuf else []) := by
  by_cases own : i = index
  · subst own
    rw [if_pos rfl]
    refine .drew drew.ok drew.readable ?_ (by rw [passed]) (by rw [accepted])
    rw [peers]
    exact Machine.setPeer_at _ _ _
  · rw [if_neg own]
    refine .still ?_ (by rw [passed]) (by rw [accepted]) rfl
    rw [peers]
    exact Machine.setPeer_off _ _ own

theorem closing_same {serial : UInt64} (closing : Machine.Closing m index serial n) :
    n.service.peers = m.service.peers ∧ n.passed = m.passed ∧ n.accepted = m.accepted := by
  cases closing with
  | stale dead => exact ⟨rfl,rfl,rfl⟩
  | called live ip port => exact ⟨rfl,rfl,rfl⟩

theorem serving_turn (serving : Machine.Serving m o index n) (ok : Ok (m.service.peers index).writeBuf) (i : Nat) :
    Turn i m n (if i = index ∧ (m.service.peers i).socket ∈ m.service.readUse then
      Machine.recvTakes (o.recvs (m.service.peers i).socket) (m.service.peers i).readBuf else []) := by
  have shape (ready : (m.service.peers index).socket ∈ m.service.readUse) :
      (if i = index ∧ (m.service.peers i).socket ∈ m.service.readUse then
        Machine.recvTakes (o.recvs (m.service.peers i).socket) (m.service.peers i).readBuf else []) =
      if i = index then Machine.recvTakes (o.recvs (m.service.peers index).socket) (m.service.peers index).readBuf else [] := by
    by_cases own : i = index
    · subst own
      rw [if_pos ⟨rfl,ready⟩,if_pos rfl]
    · rw [if_neg fun both => own both.1,if_neg own]
  cases serving with
  | unready none writing =>
    have unread : ¬ (i = index ∧ (m.service.peers i).socket ∈ m.service.readUse) := by
      rintro ⟨rfl,ready⟩
      exact none ready
    rw [if_neg unread]
    exact writing_turn writing ok i
  | failed ready drew closing =>
    obtain ⟨peers,passed,accepted⟩ := closing_same closing
    rw [shape ready]
    exact drew_turn drew peers passed accepted i
  | read ready drew calls =>
    rw [shape ready]
    exact drew_turn drew (by rw [calls]; rfl) (by rw [calls]; rfl) (by rw [calls]; rfl) i

-- What main's calls and the rounds of the loop do to a slot.
theorem main_turn {event : MachineEvent} (step : Machine.MachineStep m event n) (main : MainCalls m event)
    (reads : ∀ i, Ok (m.service.peers i).readBuf) (writes : ∀ i, Ok (m.service.peers i).writeBuf) (i : Nat) :
    Turn i m n (Machine.stores i m event) := by
  have effect := Machine.step_effect step
  obtain ⟨genuine,ran⟩ := step
  cases event with
  | send | closePeer | pop | resume => cases main
  | listen a =>
    cases effect with
    | listening => exact .still rfl rfl rfl rfl
  | connectPeer c =>
    cases effect with
    | refused => exact .refl m i
    | connected valid registered => exact registered_turn registered valid i
  | eventLoop o =>
    cases effect with
    | timeout reads writes => exact .still rfl rfl rfl rfl
    | polled reads writes => exact .still rfl rfl rfl rfl
    | accepted reads writes valid registered => exact (registered_turn registered valid i).from rfl rfl rfl
  | round =>
    rcases Machine.round_serving ran reads with ⟨service,passed,accepted,none⟩ | ⟨o,k,rest,index,stack,found,serving⟩
    · exact .still (by rw [service]) (by rw [passed]) (by rw [accepted]) (none i)
    · have turn := (serving_turn serving (writes index) i).from (m := m) rfl rfl rfl
      have stored : Machine.stores i m .round = if i = index ∧ (m.service.peers i).socket ∈ m.service.readUse then
          Machine.recvTakes (o.recvs (m.service.peers i).socket) (m.service.peers i).readBuf else [] := by
        unfold Machine.stores
        rw [stack]
        dsimp only
        rw [found]
        by_cases own : i = index
        · subst own
          simp
        · have other : ¬ index = i := fun same => own same.symm
          simp [own,other]
      rw [stored]
      exact turn

theorem resume_turn (ran : Machine.resume 0 m = .ok () n) (writes : ∀ i, Ok (m.service.peers i).writeBuf) (i : Nat) :
    Turn i m n [] := by
  cases Machine.resume_effect ran with
  | waiting => exact .refl m i
  | onConRefused stack negative closing => exact (closing_turn closing i).from rfl rfl rfl
  | onConDone stack => exact .still rfl rfl rfl rfl
  | @onDisConDone slot _ stack =>
    by_cases own : i = slot
    · subst own
      exact .shut (Machine.setPeer_at _ _ _)
    · exact .still (Machine.setPeer_off _ _ own) rfl rfl rfl
  | onReadRefused stack negative closing => exact (closing_turn closing i).from rfl rfl rfl
  | onReadDone stack writing => exact (writing_turn writing (writes _) i).from rfl rfl rfl

theorem writing_socket (writing : Machine.Writing m o index n) (i : Nat) :
    (n.service.peers i).socket = (m.service.peers i).socket := by
  cases writing with
  | unready => rfl
  | failed closing => rw [(closing_same closing).1]
  | @left b => exact (Machine.wrote_only m o index b).sockets i
  | @drained b => exact (Machine.wrote_only m o index b).sockets i

theorem resume_unopened (ran : Machine.resume 0 m = .ok () n) (i : Nat) : ¬ EchoProgram.Opens m n i := by
  rintro ⟨shut,valid⟩
  cases Machine.resume_effect ran with
  | waiting | onConDone stack => exact valid shut
  | onConRefused stack negative closing | onReadRefused stack negative closing =>
    rw [(closing_same closing).1] at valid
    exact valid shut
  | @onDisConDone slot _ stack =>
    have peers : (Machine.shut m.service slot).peers i = if i = slot then {m.service.peers slot with socket := NetSelect.invalidSocket}
        else m.service.peers i := rfl
    dsimp only at valid
    rw [peers] at valid
    split at valid
    · exact valid rfl
    · exact valid shut
  | onReadDone stack writing =>
    rw [writing_socket writing] at valid
    exact valid shut

-- A callback returns: the streams of all slots go on.
theorem Echoing.resumed (echoing : Echoing s) (ran : Machine.resume 0 s.machine = .ok () t.machine) (received : t.received = s.received)
    (delivered : t.delivered = s.delivered) (greeted : t.greeted = s.greeted) : Echoing t := by
  have flow (i : Nat) : Ok (t.machine.service.peers i).readBuf ∧ Ok (t.machine.service.peers i).writeBuf ∧
      ((t.machine.service.peers i).socket ≠ NetSelect.invalidSocket → Flow t i) := by
    have unopened := resume_unopened ran i
    refine (resume_turn ran echoing.writes i).flow (echoing.reads i) (echoing.writes i) (echoing.flows i) ?_ ?_ ?_
    · rw [if_neg unopened,received,List.append_nil]
    · rw [if_neg unopened,delivered]
    · rw [if_neg unopened,greeted]
  exact ⟨fun i => (flow i).1,fun i => (flow i).2.1,fun i => (flow i).2.2⟩

theorem Echoing.moved {event : MachineEvent} (echoing : Echoing s) (step : Machine.MachineStep s.machine event n)
    (main : MainCalls s.machine event) : Echoing (s.moved event n) := by
  have flow (i : Nat) : Ok (n.service.peers i).readBuf ∧ Ok (n.service.peers i).writeBuf ∧
      ((n.service.peers i).socket ≠ NetSelect.invalidSocket → Flow (s.moved event n) i) := by
    have turn : Turn i s.machine (s.moved event n).machine (Machine.stores i s.machine event) :=
      main_turn step main echoing.reads echoing.writes i
    exact turn.flow (echoing.reads i) (echoing.writes i) (echoing.flows i) rfl rfl rfl
  exact ⟨fun i => (flow i).1,fun i => (flow i).2.1,fun i => (flow i).2.2⟩

-- What send makes of the bytes that a callback passes, when read_buf is b by then.
structure Sent (m : Machine) (index : Nat) (bytes : List UInt8) (b : SockBuf) (n : Machine) (c : SockBuf) : Prop where
  ok : Ok c
  peers : n.service.peers = (m.service.setPeer index {m.service.peers index with readBuf := b,writeBuf := c}).peers
  stack : n.stack = m.stack
  accepted : n.accepted = m.accepted
  others : ∀ i, i ≠ index → n.passed i = m.passed i
  passed : (m.service.peers index).socket ≠ NetSelect.invalidSocket → n.passed index = m.passed index ++ bytes
  grown : 0 < (m.service.peers index).socket → c.readable = (m.service.peers index).writeBuf.readable ++ bytes

theorem sending_sent (sending : Machine.Sending (m.on (m.service.setPeer index {m.service.peers index with readBuf := b})) index
      (m.service.peers index).serial bytes n) (ok : Ok (m.service.peers index).writeBuf) (small : bytes.length < 2^31) :
    ∃ c, Sent m index bytes b n c := by
  have at_index := Machine.setPeer_at m.service index {m.service.peers index with readBuf := b}
  cases sending with
  | stale dead =>
    have shut : ¬ (m.service.peers index).socket ≠ NetSelect.invalidSocket := by
      intro valid
      refine dead ⟨?_,?_⟩
      · rw [Machine.on_service,at_index]
      · rw [Machine.on_service,at_index]
        exact valid
    refine ⟨(m.service.peers index).writeBuf,ok,rfl,rfl,rfl,fun _ _ => rfl,fun valid => absurd valid shut,fun legal => absurd ?_ shut⟩
    intro invalid
    rw [invalid] at legal
    exact absurd legal (by decide)
  | dropped live illegal =>
    rw [Machine.on_service,at_index] at illegal
    exact ⟨(m.service.peers index).writeBuf,ok,rfl,rfl,rfl,fun i other => if_neg other,fun _ => if_pos rfl,
      fun legal => absurd legal (Int.not_lt.mpr illegal)⟩
  | @pushed c live legal grown =>
    rw [Machine.on_service,at_index] at grown
    rcases apendBuf_grown ok small with ⟨d,ran,result⟩ | ⟨_,text,threw⟩
    · have same : SockBuf.push bytes (m.service.peers index).writeBuf = .ok () d := ran
      cases same.symm.trans grown
      refine ⟨c,result.ok,?_,rfl,rfl,fun i other => if_neg other,fun _ => if_pos rfl,fun _ => result.readable⟩
      unfold Machine.push
      rw [Machine.on_service,at_index]
      have both := Machine.setPeer_setPeer m.service index {m.service.peers index with readBuf := b}
        {m.service.peers index with readBuf := b,writeBuf := c}
      exact (congrArg SelectService.peers both :)
    · have same : SockBuf.push bytes (m.service.peers index).writeBuf = .error text _ := threw
      rw [same] at grown
      cases grown

-- A callback has sent some bytes for its connection and noted what it has delivered or said.
theorem Echoing.sent (echoing : Echoing s) (sent : Sent s.machine index bytes b t.machine c) (ok : Ok b) (received : t.received = s.received)
    (others : ∀ i, i ≠ index → t.delivered i = s.delivered i ∧ t.greeted i = s.greeted i)
    (handled : (s.delivered index).flatMap encode ++ (s.machine.service.peers index).readBuf.readable = s.received index →
      (t.delivered index).flatMap encode ++ b.readable = s.received index)
    (said : (s.machine.service.peers index).socket ≠ NetSelect.invalidSocket →
      (t.greeted index ++ t.delivered index).flatMap encode = (s.greeted index ++ s.delivered index).flatMap encode ++ bytes)
    (short : (∀ body ∈ s.delivered index, body.length < 2^31) → ∀ body ∈ t.delivered index, body.length < 2^31) : Echoing t := by
  obtain ⟨kept,peers,_,accepted,apart,passed,grown⟩ := sent
  have at_index := Machine.setPeer_at s.machine.service index {s.machine.service.peers index with readBuf := b,writeBuf := c}
  have off (i : Nat) (other : i ≠ index) := Machine.setPeer_off s.machine.service
    {s.machine.service.peers index with readBuf := b,writeBuf := c} other
  refine ⟨fun i => ?_,fun i => ?_,fun i valid => ?_⟩
  · rw [peers]
    by_cases own : i = index
    · subst own
      rw [at_index]
      exact ok
    · rw [off i own]
      exact echoing.reads i
  · rw [peers]
    by_cases own : i = index
    · subst own
      rw [at_index]
      exact kept
    · rw [off i own]
      exact echoing.writes i
  · rw [peers] at valid
    by_cases own : i = index
    · subst own
      rw [at_index] at valid
      obtain ⟨incoming,all,outgoing,few⟩ := echoing.flows i valid
      refine ⟨?_,?_,fun legal => ?_,short few⟩
      · rw [peers,at_index,received]
        exact handled incoming
      · rw [passed valid,all]
        exact (said valid).symm
      · rw [peers,at_index] at legal ⊢
        rw [accepted,passed valid,grown legal,← outgoing legal,List.append_assoc]
    · rw [off i own] at valid
      obtain ⟨incoming,all,outgoing,few⟩ := echoing.flows i valid
      obtain ⟨delivered,greeted⟩ := others i own
      refine ⟨?_,?_,?_,?_⟩
      · rw [delivered,peers,off i own,received]
        exact incoming
      · rw [delivered,greeted,apart i own]
        exact all
      · rw [peers,off i own,accepted,apart i own]
        exact outgoing
      · rw [delivered]
        exact few

end PcNetwork.NetEvent
