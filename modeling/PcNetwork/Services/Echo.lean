import PcNetwork.Services.EchoProgram

namespace PcNetwork.NetEvent
open SockBuf NetSelect
open SelectService (Outside)
variable {s t u : EchoProgram} {m n : Machine} {index i : Nat} {b c : SockBuf} {bytes : List UInt8} {o : Outside}

theorem onMachine_returned {f : Moves α} {a : α} (ran : EchoProgram.onMachine f s = .ok a t) :
    f s.machine = .ok a t.machine ∧ t.received = s.received ∧ t.delivered = s.delivered ∧ t.greeted = s.greeted := by
  unfold EchoProgram.onMachine at ran
  split at ran
  · rename_i m inner
    cases ran
    exact ⟨inner,rfl,rfl,rfl⟩
  · cases ran

theorem setPeer_unchanged (m : Machine) (index : Nat) :
    m.on (m.service.setPeer index {m.service.peers index with readBuf := (m.service.peers index).readBuf}) = m := by
  have unchanged := SelectService.setPeer_same m.service index
  unfold Machine.on
  rw [show m.service.setPeer index {m.service.peers index with readBuf := (m.service.peers index).readBuf} = m.service from unchanged]

-- What a callback does until it returns.
inductive Speaking (word : Option (List UInt8)) (s t : EchoProgram) : Prop where
  | silent (machine : t.machine = s.machine) (received : t.received = s.received) (delivered : t.delivered = s.delivered)
      (greeted : t.greeted = s.greeted) (quiet : word = none ∨ ∀ i rest, s.machine.stack ≠ .onCon i :: rest)
  | answers {index : Nat} {o : Outside} {rest : List NetSelect.Frame} {body : List UInt8} {b : SockBuf}
      (stack : s.machine.stack = .onRead index o :: rest) (ok : Ok b) (short : body.length < 2^31)
      (parts : (s.machine.service.peers index).readBuf.readable = encode body ++ b.readable)
      (sending : Machine.Sending (s.machine.on (s.machine.service.setPeer index {s.machine.service.peers index with readBuf := b})) index
        (s.machine.service.peers index).serial (encode body) t.machine)
      (received : t.received = s.received) (delivered : t.delivered = fun i => if i = index then s.delivered i ++ [body] else s.delivered i)
      (greeted : t.greeted = s.greeted)
  | greets {index : Nat} {rest : List NetSelect.Frame} {said : List UInt8} (spoken : word = some said)
      (stack : s.machine.stack = .onCon index :: rest)
      (sending : Machine.Sending (s.machine.on (s.machine.service.setPeer index
        {s.machine.service.peers index with readBuf := (s.machine.service.peers index).readBuf})) index
        (s.machine.service.peers index).serial (encode said) t.machine)
      (received : t.received = s.received) (delivered : t.delivered = s.delivered)
      (greeted : t.greeted = fun i => if i = index then s.greeted i ++ [said] else s.greeted i)

theorem onRead_speaking {word : Option (List UInt8)} {rest : List NetSelect.Frame}
    (ran : EchoProgram.onRead index (s.machine.service.peers index).serial s = .ok () t)
    (stack : s.machine.stack = .onRead index o :: rest) (ok : Ok (s.machine.service.peers index).readBuf) : Speaking word s t := by
  unfold EchoProgram.onRead at ran
  obtain ⟨answer,u,reads,answering⟩ := bind_returned ran
  obtain ⟨inner,received,delivered,greeted⟩ := onMachine_returned reads
  obtain ⟨v,got,after⟩ := Machine.call_returned inner
  obtain ⟨b,took,rfl⟩ := Machine.onReadBuf_moved got
  rcases onRead_took .netSelect ok took with ⟨rfl,rfl⟩ | ⟨message,rfl,kept,parts,sent,short⟩
  · cases answering
    refine .silent (after.trans (setPeer_unchanged _ _)) received delivered greeted (.inr fun i older same => ?_)
    rw [stack] at same
    cases same
  · obtain ⟨_,w,prints,sends⟩ := bind_returned answering
    cases prints
    have single : message.sent = [encode message.body] := sent
    rw [single] at sends
    obtain ⟨_,x,passes,ended⟩ := bind_returned sends
    cases ended
    obtain ⟨passed,same_received,same_printed,same_greeted⟩ := onMachine_returned passes
    dsimp only at passed
    rw [after] at passed
    refine .answers stack kept short parts (Machine.send_sending passed) (same_received.trans received) ?_ (same_greeted.trans greeted)
    rw [same_printed]
    dsimp only
    rw [delivered]

theorem callback_speaking {word : Option (List UInt8)} (ran : EchoProgram.callback word s = .ok () t) (echoing : Echoing s) :
    ∃ u, Speaking word s u ∧ Machine.resume 0 u.machine = .ok () t.machine ∧ t.received = u.received ∧ t.delivered = u.delivered ∧
      t.greeted = u.greeted := by
  obtain ⟨_,u,handles,last⟩ := bind_returned ran
  refine ⟨u,?_,onMachine_returned last⟩
  unfold EchoProgram.handle at handles
  obtain ⟨_,_,looked,speaks⟩ := bind_returned handles
  cases looked
  cases stack : s.machine.stack with
  | nil =>
    rw [stack] at speaks
    cases speaks
    refine .silent rfl rfl rfl rfl (.inr fun i older same => ?_)
    rw [stack] at same
    cases same
  | cons frame rest =>
    rw [stack] at speaks
    cases frame with
    | onDisCon | loop =>
      cases speaks
      refine .silent rfl rfl rfl rfl (.inr fun i older same => ?_)
      rw [stack] at same
      cases same
    | onRead index o => exact onRead_speaking speaks stack (echoing.reads index)
    | onCon index =>
      cases word with
      | none =>
        cases speaks
        exact .silent rfl rfl rfl rfl (.inl rfl)
      | some said =>
        obtain ⟨_,v,notes,passes⟩ := bind_returned speaks
        cases notes
        obtain ⟨passed,received,delivered,greeted⟩ := onMachine_returned passes
        refine .greets rfl stack ?_ received delivered greeted
        rw [setPeer_unchanged]
        exact Machine.send_sending passed

-- A stack of which only the top may be a callback, and the connection for which onCon is
-- running has no words yet. The others have those of onCon.
structure Meeting (word : Option (List UInt8)) (s : EchoProgram) : Prop where
  outer : ∀ frame ∈ s.machine.stack.tail, ∃ o k, frame = .loop o k
  waits : ∀ i rest, s.machine.stack = .onCon i :: rest → s.greeted i = [] ∧ s.delivered i = []
  greets : ∀ i, (s.machine.service.peers i).socket ≠ NetSelect.invalidSocket →
    (∀ rest, s.machine.stack ≠ .onCon i :: rest) → s.greeted i = word.toList

-- What main's calls and the rounds of the loop do to the stack.
inductive Stacked (m n : Machine) : Prop where
  | same (stack : n.stack = m.stack) (unopened : ∀ i, ¬ EchoProgram.Opens m n i)
  | moved (before : ∀ i rest, m.stack ≠ .onCon i :: rest) (after : ∀ i rest, n.stack ≠ .onCon i :: rest)
      (unopened : ∀ i, ¬ EchoProgram.Opens m n i)
  | opened {slot : Nat} {rest : List NetSelect.Frame} (before : ∀ i rest, m.stack ≠ .onCon i :: rest)
      (after : n.stack = .onCon slot :: rest) (opens : EchoProgram.Opens m n slot)
      (others : ∀ i, i ≠ slot → ¬ EchoProgram.Opens m n i)

theorem unopened_of_sockets (sockets : ∀ i, (n.service.peers i).socket = (m.service.peers i).socket) (i : Nat) :
    ¬ EchoProgram.Opens m n i := fun opens => opens.2 ((sockets i).trans opens.1)

theorem registered_stacked {k : Machine} {c : SelectService.Connection} (registered : Machine.Registered k c n)
    (valid : c.socket ≠ NetSelect.invalidSocket) (peers : k.service.peers = m.service.peers)
    (before : ∀ i rest, m.stack ≠ .onCon i :: rest) : Stacked m n ∧ n.stack.tail = k.stack := by
  cases registered with
  | given slot bound free =>
    have own := Machine.setPeer_at k.service slot {k.service.peers slot with
      serial := k.service.serial
      socket := c.socket
      readBuf := final (SockBuf.reset (k.service.peers slot).readBuf)
      writeBuf := final (SockBuf.reset (k.service.peers slot).writeBuf)
      remoteIp := c.remoteIp
      remotePort := c.remotePort}
    refine ⟨.opened before rfl ⟨?_,fun shut => ?_⟩ fun i other opens => opens.2 ?_,rfl⟩
    · rw [← peers]
      exact free
    · exact valid ((congrArg Peer.socket own).symm.trans shut)
    · rw [← opens.1,← peers]
      exact congrArg Peer.socket (Machine.setPeer_off _ _ other)

theorem closing_stack {serial : UInt64} (closing : Machine.Closing m index serial n) :
    n.stack = m.stack ∨ n.stack = .onDisCon index :: m.stack := by
  cases closing with
  | stale dead => exact .inl rfl
  | called live ip port => exact .inr rfl

theorem writing_stack (writing : Machine.Writing m o index n) : n.stack = m.stack ∨ n.stack = .onDisCon index :: m.stack := by
  cases writing with
  | unready | left | drained => exact .inl rfl
  | failed closing => exact closing_stack closing

theorem reading_stack (reading : Machine.Reading m o index n) :
    (∀ i, (n.service.peers i).socket = (m.service.peers i).socket) ∧
    (n.stack = m.stack ∨ n.stack = .onDisCon index :: m.stack ∨ n.stack = .onRead index o :: m.stack) := by
  have kept (b : SockBuf) (i : Nat) : ((m.service.setPeer index {m.service.peers index with readBuf := b}).peers i).socket =
      (m.service.peers i).socket := by
    by_cases own : i = index
    · subst own
      rw [Machine.setPeer_at]
    · rw [Machine.setPeer_off _ _ own]
  cases reading with
  | unready writing => exact ⟨writing_socket writing,(writing_stack writing).elim .inl fun called => .inr (.inl called)⟩
  | failed b closing =>
    refine ⟨fun i => ?_,(closing_stack closing).elim .inl fun called => .inr (.inl called)⟩
    rw [(closing_same closing).1]
    exact kept b i
  | read b => exact ⟨kept b,.inr (.inr rfl)⟩

-- Below the top there is the loop of eventLoop at most.
theorem main_stacked {event : MachineEvent} (step : Machine.MachineStep m event n) (main : MainCalls m event)
    (outer : ∀ frame ∈ m.stack.tail, ∃ o k, frame = .loop o k) :
    Stacked m n ∧ ∀ frame ∈ n.stack.tail, ∃ o k, frame = .loop o k := by
  have idle (empty : m.stack = []) (i : Nat) (rest : List NetSelect.Frame) : m.stack ≠ .onCon i :: rest := by
    rw [empty]
    exact nofun
  cases Machine.step_effect step with
  | sent | closing | popped | unasked | waiting | onConRefused | onConDone | onDisConDone | onReadRefused | onReadDone => cases main
  | listening | refused => exact ⟨.same rfl (unopened_of_sockets fun _ => rfl),outer⟩
  | connected valid registered =>
    obtain ⟨stacked,tail⟩ := registered_stacked registered valid rfl (idle main)
    refine ⟨stacked,?_⟩
    rw [tail,show m.stack = [] from main]
    exact nofun
  | timeout => exact ⟨.same rfl (unopened_of_sockets fun _ => rfl),outer⟩
  | polled => exact ⟨.moved (idle main) nofun (unopened_of_sockets fun _ => rfl),by rw [show m.stack = [] from main]; exact nofun⟩
  | accepted reads writes valid registered =>
    obtain ⟨stacked,tail⟩ := registered_stacked (m := m) registered valid rfl (idle main)
    refine ⟨stacked,?_⟩
    rw [tail,show m.stack = [] from main]
    intro frame member
    exact ⟨_,_,List.mem_singleton.mp member⟩
  | idle => exact ⟨.same rfl (unopened_of_sockets fun _ => rfl),outer⟩
  | ended stack =>
    rw [stack] at outer
    refine ⟨.moved ?_ ?_ (unopened_of_sockets fun _ => rfl),fun frame member => outer frame (List.mem_of_mem_tail member)⟩
    · rw [stack]
      exact nofun
    · rintro i older rfl
      obtain ⟨_,_,loop⟩ := outer _ List.mem_cons_self
      cases loop
  | served stack member reading =>
    rw [stack] at outer
    obtain ⟨sockets,frames⟩ := reading_stack reading
    refine ⟨.moved ?_ ?_ (unopened_of_sockets sockets),?_⟩
    · rw [stack]
      exact nofun
    · rcases frames with frames | frames | frames <;> rw [frames] <;> exact nofun
    · rcases frames with frames | frames | frames <;> rw [frames]
      · exact outer
      · exact List.forall_mem_cons.mpr ⟨⟨_,_,rfl⟩,outer⟩
      · exact List.forall_mem_cons.mpr ⟨⟨_,_,rfl⟩,outer⟩

theorem Meeting.moved {word : Option (List UInt8)} {event : MachineEvent} (meeting : Meeting word s)
    (step : Machine.MachineStep s.machine event n) (main : MainCalls s.machine event) : Meeting word (s.moved event n) := by
  obtain ⟨stacked,outer⟩ := main_stacked step main meeting.outer
  have kept (i : Nat) (unopened : ¬ EchoProgram.Opens s.machine n i) :
      (s.moved event n).greeted i = s.greeted i ∧ (s.moved event n).delivered i = s.delivered i := ⟨if_neg unopened,if_neg unopened⟩
  have before (i : Nat) (unopened : ¬ EchoProgram.Opens s.machine n i) (valid : (n.service.peers i).socket ≠ NetSelect.invalidSocket) :
      (s.machine.service.peers i).socket ≠ NetSelect.invalidSocket := fun shut => unopened ⟨shut,valid⟩
  refine ⟨outer,fun i rest top => ?_,fun i valid apart => ?_⟩
  · cases stacked with
    | same stack unopened =>
      rw [(kept i (unopened i)).1,(kept i (unopened i)).2]
      exact meeting.waits i rest (stack.symm.trans top)
    | moved before after unopened => exact absurd top (after i rest)
    | opened before after opens others =>
      cases after.symm.trans top
      exact ⟨if_pos opens,if_pos opens⟩
  · cases stacked with
    | same stack unopened =>
      rw [(kept i (unopened i)).1]
      exact meeting.greets i (before i (unopened i) valid) fun rest top => apart rest (stack.trans top)
    | moved alone after unopened =>
      rw [(kept i (unopened i)).1]
      exact meeting.greets i (before i (unopened i) valid) (alone i)
    | @opened slot rest alone after opens others =>
      have other : i ≠ slot := by
        rintro rfl
        exact apart rest after
      rw [(kept i (others i other)).1]
      exact meeting.greets i (before i (others i other) valid) (alone i)

-- The callback is taken from the stack when it returns.
theorem resume_stack (ran : Machine.resume 0 m = .ok () n) (outer : ∀ frame ∈ m.stack.tail, ∃ o k, frame = .loop o k) :
    (∀ i rest, n.stack ≠ .onCon i :: rest) ∧ ∀ frame ∈ n.stack.tail, ∃ o k, frame = .loop o k := by
  unfold Machine.resume at ran
  obtain ⟨_,_,looked,next⟩ := bind_returned ran
  cases looked
  clear ran
  have left {rest : List NetSelect.Frame} (slot : Nat) (below : ∀ frame ∈ rest, ∃ o k, frame = .loop o k)
      (after : n.stack = rest ∨ n.stack = .onDisCon slot :: rest) :
      (∀ i older, n.stack ≠ .onCon i :: older) ∧ ∀ frame ∈ n.stack.tail, ∃ o k, frame = .loop o k := by
    rcases after with after | after <;> rw [after]
    · refine ⟨fun i older top => ?_,fun frame member => below frame (List.mem_of_mem_tail member)⟩
      rw [top] at below
      obtain ⟨_,_,loop⟩ := below _ List.mem_cons_self
      cases loop
    · exact ⟨nofun,below⟩
  cases stack : m.stack with
  | nil =>
    rw [stack] at next
    cases next
    rw [stack]
    exact ⟨nofun,nofun⟩
  | cons frame rest =>
    rw [stack] at next outer
    cases frame with
    | loop =>
      cases next
      rw [stack]
      exact ⟨nofun,outer⟩
    | onCon slot =>
      obtain ⟨_,u,popped,done⟩ := bind_returned next
      cases popped
      obtain ⟨p,v,got,last⟩ := bind_returned done
      obtain ⟨_,rfl,rfl⟩ := Machine.getPeer_returned got
      rw [if_neg (by decide)] at last
      cases last
      exact left 0 outer (.inl rfl)
    | onDisCon slot =>
      obtain ⟨_,u,popped,done⟩ := bind_returned next
      cases popped
      rw [Machine.onDisConDone_shut] at done
      cases done
      exact left 0 outer (.inl rfl)
    | onRead slot turn =>
      obtain ⟨_,u,popped,done⟩ := bind_returned next
      cases popped
      obtain ⟨p,v,got,last⟩ := bind_returned done
      obtain ⟨_,rfl,rfl⟩ := Machine.getPeer_returned got
      rw [if_neg (by decide)] at last
      exact left _ outer (writing_stack (Machine.serveWrite_writing last))

-- Where onCon has been left to say its word the callback does it.
theorem Meeting.returned {word : Option (List UInt8)} (meeting : Meeting word s) (stack : u.machine.stack = s.machine.stack)
    (sockets : ∀ i, (u.machine.service.peers i).socket = (s.machine.service.peers i).socket)
    (said : ∀ i rest, s.machine.stack = .onCon i :: rest → u.greeted i = word.toList)
    (others : ∀ i, (∀ rest, s.machine.stack ≠ .onCon i :: rest) → u.greeted i = s.greeted i)
    (ran : Machine.resume 0 u.machine = .ok () t.machine) (greeted : t.greeted = u.greeted) : Meeting word t := by
  have outer := meeting.outer
  rw [← stack] at outer
  obtain ⟨top,below⟩ := resume_stack ran outer
  refine ⟨below,fun i rest same => absurd same (top i rest),fun i valid _ => ?_⟩
  have before : (u.machine.service.peers i).socket ≠ NetSelect.invalidSocket := fun shut => resume_unopened ran i ⟨shut,valid⟩
  rw [greeted]
  by_cases own : ∃ rest, s.machine.stack = .onCon i :: rest
  · obtain ⟨rest,own⟩ := own
    exact said i rest own
  · have apart := not_exists.mp own
    rw [others i apart]
    rw [sockets] at before
    exact meeting.greets i before apart

theorem Sent.sockets (sent : Sent m index bytes b n c) (i : Nat) : (n.service.peers i).socket = (m.service.peers i).socket := by
  rw [sent.peers]
  by_cases own : i = index
  · subst own
    rw [Machine.setPeer_at]
  · rw [Machine.setPeer_off _ _ own]

-- A program in a run, with the words that onCon says.
structure Running (word : Option (List UInt8)) (s : EchoProgram) : Prop where
  echoing : Echoing s
  meeting : Meeting word s

theorem running_callback {word : Option (List UInt8)} (running : Running word s) (short : ∀ said ∈ word, said.length < 2^30)
    (ran : EchoProgram.callback word s = .ok () t) : Running word t := by
  obtain ⟨echoing,meeting⟩ := running
  obtain ⟨u,speaking,returns,received,delivered,greeted⟩ := callback_speaking ran echoing
  cases speaking with
  | silent machine same_received same_printed same_greeted quiet =>
    refine ⟨?_,?_⟩
    · rw [machine] at returns
      exact echoing.resumed returns (received.trans same_received) (delivered.trans same_printed) (greeted.trans same_greeted)
    · refine meeting.returned (by rw [machine]) (by simp [machine]) (fun i rest top => ?_) (fun i _ => by rw [same_greeted]) returns greeted
      rcases quiet with rfl | apart
      · rw [same_greeted]
        exact (meeting.waits i rest top).1
      · exact absurd top (apart i rest)
  | @answers index turn rest body b stack ok few parts sending same_received more same_greeted =>
    have small : (encode body).length < 2^31 := by
      have whole := congrArg List.length parts
      have read := echoing.reads index
      have bound := read.small
      have inside := read.write_le
      rw [List.length_append,read.length_readable] at whole
      omega
    obtain ⟨c,sent⟩ := sending_sent sending (echoing.writes index) small
    have own : u.delivered index = s.delivered index ++ [body] := by
      rw [more]
      exact if_pos rfl
    have echoed : Echoing u := by
      refine echoing.sent sent ok same_received (fun i other => ⟨?_,by rw [same_greeted]⟩) (fun incoming => ?_) (fun _ => ?_) fun shorts => ?_
      · rw [more]
        exact if_neg other
      · rw [own,← incoming,parts,List.flatMap_append,List.flatMap_singleton,List.append_assoc]
      · rw [own,same_greeted,← List.append_assoc,List.flatMap_append,List.flatMap_singleton]
      · rw [own]
        intro one member
        rcases List.mem_append.mp member with old | new
        · exact shorts one old
        · cases List.mem_singleton.mp new
          exact few
    refine ⟨echoed.resumed returns received delivered greeted,?_⟩
    refine meeting.returned sent.stack sent.sockets (fun i older top => ?_) (fun i _ => by rw [same_greeted]) returns greeted
    rw [stack] at top
    cases top
  | @greets index rest said spoken stack sending same_received same_printed more =>
    subst spoken
    have small : (encode said).length < 2^31 := by
      have bound := short said rfl
      unfold encode
      rw [List.length_append,Endian.length_ofInt32]
      omega
    obtain ⟨c,sent⟩ := sending_sent sending (echoing.writes index) small
    obtain ⟨unsaid,undelivered⟩ := meeting.waits index rest stack
    have own : u.greeted index = [said] := by
      rw [more]
      exact (if_pos rfl).trans (by rw [unsaid]; rfl)
    have echoed : Echoing u := by
      refine echoing.sent sent (echoing.reads index) same_received (fun i other => ⟨by rw [same_printed],?_⟩) (fun incoming => ?_) (fun _ => ?_)
        fun shorts => ?_
      · rw [more]
        exact if_neg other
      · rw [same_printed]
        exact incoming
      · rw [own,same_printed,unsaid,undelivered,List.append_nil,List.flatMap_singleton]
        rfl
      · rw [same_printed]
        exact shorts
    refine ⟨echoed.resumed returns received delivered greeted,?_⟩
    refine meeting.returned sent.stack sent.sockets (fun i older top => ?_) (fun i apart => ?_) returns greeted
    · rw [stack] at top
      cases top
      exact own
    · rw [more]
      refine if_neg ?_
      rintro rfl
      exact apart rest stack

theorem running_step {word : Option (List UInt8)} {event : EchoEvent} (running : Running word s)
    (short : ∀ said ∈ word, said.length < 2^30) (step : EchoStep word s event t) : Running word t := by
  cases step with
  | io main step => exact ⟨running.echoing.moved step main,running.meeting.moved step main⟩
  | callback ran => exact running_callback running short ran

theorem new_running (word : Option (List UInt8)) : Running word EchoProgram.new where
  echoing := ⟨fun _ => new_ok (by decide),fun _ => new_ok (by decide),fun _ valid => absurd rfl valid⟩
  meeting := ⟨nofun,nofun,fun _ valid => absurd rfl valid⟩

theorem run_running {word : Option (List UInt8)} (path : Path (EchoStep word) EchoProgram.new taken last)
    (short : ∀ said ∈ word, said.length < 2^30) : Running word last :=
  path.invariant (Running word) (new_running word) fun _ _ _ running step => running_step running short step

theorem legal_valid {socket : Int} (legal : 0 < socket) : socket ≠ NetSelect.invalidSocket := by
  rintro rfl
  exact absurd legal (by decide)

-- The words that the server sends of its own are none.
theorem Meeting.silent (meeting : Meeting none s) (valid : (s.machine.service.peers i).socket ≠ NetSelect.invalidSocket) :
    s.greeted i = [] := by
  by_cases own : ∃ rest, s.machine.stack = .onCon i :: rest
  · obtain ⟨rest,own⟩ := own
    exact (meeting.waits i rest own).1
  · exact meeting.greets i valid (not_exists.mp own)

-- In every run of the server and for every connection that is open: what ::send has taken,
-- what waits to be sent and what has still to be handled is what has arrived, and the
-- messages of the other side come back in order.
theorem echo_served (path : Path (EchoStep none) EchoProgram.new taken last) (legal : 0 < (last.machine.service.peers i).socket) :
    last.machine.accepted i ++ (last.machine.service.peers i).writeBuf.readable = (last.delivered i).flatMap encode ∧
    last.machine.accepted i ++ (last.machine.service.peers i).writeBuf.readable ++ (last.machine.service.peers i).readBuf.readable =
      last.received i ∧
    ∀ sent, (∀ body ∈ sent, body.length < 2^31) → last.received i <+: sent.flatMap encode → last.delivered i <+: sent := by
  have running := run_running path nofun
  have valid := legal_valid legal
  obtain ⟨incoming,passed,outgoing,short⟩ := running.echoing.flows i valid
  rw [running.meeting.silent valid,List.nil_append] at passed
  have back := (outgoing legal).trans passed
  refine ⟨back,by rw [back]; exact incoming,fun sent few part => ?_⟩
  rw [← incoming] at part
  exact bodies_prefix short few part

-- A connection is made, a message of one byte arrives, and ::send takes three bytes of it.
def EchoProgram.leads (s : EchoProgram) (word : Option (List UInt8)) : EchoEvent → EchoProgram
  | .io event => s.moved event (final (Machine.run event s.machine))
  | .callback => final (EchoProgram.callback word s)

def join : EchoEvent := .io (.connectPeer (some ⟨5,"127.0.0.1",80⟩))
def hear : EchoEvent := .io (.eventLoop ⟨some (fun _ => true,fun _ => false),⟨-1,"",0⟩,fun _ => some [1,0,0,0,65],fun _ => none,0⟩)
def speak : EchoEvent := .io (.eventLoop ⟨some (fun _ => false,fun _ => true),⟨-1,"",0⟩,fun _ => none,fun _ => some 3,0⟩)
def turn : EchoEvent := .io .round
def heard : EchoProgram := ((((EchoProgram.new.leads none join).leads none .callback).leads none hear).leads none turn).leads none .callback
def spoken : EchoProgram := ((heard.leads none turn).leads none speak).leads none turn

theorem spoken_path : ∃ taken, Path (EchoStep none) EchoProgram.new taken spoken := by
  have first : EchoStep none EchoProgram.new join (EchoProgram.new.leads none join) :=
    .io rfl (.returns ⟨nofun,fun valid => Machine.new_fresh valid⟩ rfl)
  have second : EchoStep none (EchoProgram.new.leads none join) .callback ((EchoProgram.new.leads none join).leads none .callback) := .callback rfl
  have third : EchoStep none ((EchoProgram.new.leads none join).leads none .callback) hear (((EchoProgram.new.leads none join).leads none .callback).leads none hear) :=
    .io rfl (.returns ⟨rfl,fun valid => absurd rfl valid⟩ rfl)
  have fourth : EchoStep none (((EchoProgram.new.leads none join).leads none .callback).leads none hear) turn
      ((((EchoProgram.new.leads none join).leads none .callback).leads none hear).leads none turn) := .io trivial (.returns trivial rfl)
  have fifth : EchoStep none ((((EchoProgram.new.leads none join).leads none .callback).leads none hear).leads none turn) .callback heard := .callback rfl
  have sixth : EchoStep none heard turn (heard.leads none turn) := .io trivial (.returns trivial rfl)
  have seventh : EchoStep none (heard.leads none turn) speak ((heard.leads none turn).leads none speak) := .io rfl (.returns ⟨rfl,fun valid => absurd rfl valid⟩ rfl)
  have eighth : EchoStep none ((heard.leads none turn).leads none speak) turn spoken := .io trivial (.returns trivial rfl)
  exact ⟨_,.step (.step (.step (.step (.step (.step (.step (.step .nil first) second) third) fourth) fifth) sixth) seventh) eighth⟩

theorem echo_served_spoken : spoken.machine.accepted 0 = [1,0,0] ∧
    [1,0,0] ++ (spoken.machine.service.peers 0).writeBuf.readable = (spoken.delivered 0).flatMap encode := by
  obtain ⟨taken,path⟩ := spoken_path
  exact ⟨rfl,(echo_served path (i := 0) (by decide)).1⟩

end PcNetwork.NetEvent
