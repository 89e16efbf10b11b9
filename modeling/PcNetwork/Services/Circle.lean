import PcNetwork.Library.Circular
import PcNetwork.Services.Echo

namespace PcNetwork.NetEvent
open SockBuf NetSelect

-- The client and the server of net_select. Both send every message back, and the client
-- says a word when it has got its connection.
structure Circle where
  client : EchoProgram
  server : EchoProgram

def iAmClient : List UInt8 := ['i',' ','a','m',' ','c','l','i','e','n','t'].map fun c => UInt8.ofNat c.toNat

inductive CircleEvent where
  | client (event : EchoEvent)
  | server (event : EchoEvent)

namespace Circle

def new : Circle := ⟨.new,.new⟩

-- Slot i of the client and slot j of the server have the ends of one connection: TCP
-- brings what ::send has taken on the other side, in order, some time or never.
structure Joined (i j : Nat) (c : Circle) : Prop where
  up : c.server.received j <+: c.client.machine.accepted i
  down : c.client.received i <+: c.server.machine.accepted j

-- The bytes between the two programs and in their buffers, those first that the client
-- will read first.
def underWay (i j : Nat) (c : Circle) : List UInt8 :=
  (c.server.machine.accepted j).drop (c.client.received i).length ++ (c.server.machine.service.peers j).writeBuf.readable ++
  (c.server.machine.service.peers j).readBuf.readable ++ (c.client.machine.accepted i).drop (c.server.received j).length ++
  (c.client.machine.service.peers i).writeBuf.readable ++ (c.client.machine.service.peers i).readBuf.readable

end Circle

inductive CircleStep (i j : Nat) : Circle → CircleEvent → Circle → Prop where
  | client (step : EchoStep (some iAmClient) c.client event x) (joined : Circle.Joined i j ⟨x,c.server⟩) :
      CircleStep i j c (.client event) ⟨x,c.server⟩
  | server (step : EchoStep none c.server event x) (joined : Circle.Joined i j ⟨c.client,x⟩) :
      CircleStep i j c (.server event) ⟨c.client,x⟩

variable {i j : Nat} {c d : Circle} {s : EchoProgram}

structure Circling (i j : Nat) (c : Circle) : Prop where
  client : Running (some iAmClient) c.client
  server : Running none c.server
  joined : Circle.Joined i j c

theorem iAmClient_short : ∀ said ∈ some iAmClient, said.length < 2^30 := by
  intro said member
  cases member
  decide

theorem circling_step {event : CircleEvent} (circling : Circling i j c) (step : CircleStep i j c event d) : Circling i j d := by
  cases step with
  | client step joined => exact ⟨running_step circling.client iAmClient_short step,circling.server,joined⟩
  | server step joined => exact ⟨circling.client,running_step circling.server nofun step,joined⟩

theorem new_circling (i j : Nat) : Circling i j Circle.new := ⟨new_running _,new_running _,⟨List.nil_prefix,List.nil_prefix⟩⟩

-- What is under way comes behind what the client has read, and is what it has said in
-- front of the same.
theorem underWay_bytes (circling : Circling i j c) (here : 0 < (c.client.machine.service.peers i).socket)
    (there : 0 < (c.server.machine.service.peers j).socket) :
    c.client.received i ++ c.underWay i j = (c.client.greeted i).flatMap encode ++ c.client.received i := by
  obtain ⟨client,server,⟨⟨up,up_parts⟩,⟨down,down_parts⟩⟩⟩ := circling
  obtain ⟨client_incoming,client_passed,client_outgoing,_⟩ := client.echoing.flows i (legal_valid here)
  obtain ⟨server_incoming,server_passed,server_outgoing,_⟩ := server.echoing.flows j (legal_valid there)
  rw [server.meeting.silent (legal_valid there),List.nil_append] at server_passed
  have to_server := (server_outgoing there).trans server_passed
  have to_client := (client_outgoing here).trans client_passed
  unfold Circle.underWay
  rw [← down_parts,← up_parts,List.drop_left,List.drop_left]
  calc c.client.received i ++ (down ++ (c.server.machine.service.peers j).writeBuf.readable ++
        (c.server.machine.service.peers j).readBuf.readable ++ up ++ (c.client.machine.service.peers i).writeBuf.readable ++
        (c.client.machine.service.peers i).readBuf.readable)
      = (c.client.received i ++ down ++ (c.server.machine.service.peers j).writeBuf.readable ++
        (c.server.machine.service.peers j).readBuf.readable) ++ up ++ (c.client.machine.service.peers i).writeBuf.readable ++
        (c.client.machine.service.peers i).readBuf.readable := by simp only [List.append_assoc]
    _ = c.server.received j ++ up ++ (c.client.machine.service.peers i).writeBuf.readable ++
        (c.client.machine.service.peers i).readBuf.readable := by rw [down_parts,to_server,server_incoming]
    _ = (c.client.greeted i).flatMap encode ++ c.client.received i := by
      rw [up_parts,to_client,List.flatMap_append,List.append_assoc,client_incoming]

-- One program has delivered the first messages that the other has passed to send.
theorem delivered_front {x y : EchoProgram} {first second : Option (List UInt8)} (near : Running first x) (far : Running second y)
    (valid : (x.machine.service.peers i).socket ≠ NetSelect.invalidSocket) (legal : 0 < (y.machine.service.peers j).socket)
    (part : x.received i <+: y.machine.accepted j) (said : ∀ body ∈ y.greeted j, body.length < 2^31) :
    x.delivered i <+: y.greeted j ++ y.delivered j := by
  obtain ⟨incoming,_,_,short⟩ := near.echoing.flows i valid
  obtain ⟨_,passed,outgoing,few⟩ := far.echoing.flows j (legal_valid legal)
  have sent := (outgoing legal).trans passed
  have whole : x.received i <+: (y.greeted j ++ y.delivered j).flatMap encode := by
    rw [← sent]
    exact part.trans (List.prefix_append _ _)
  rw [← incoming] at whole
  refine bodies_prefix short (fun body member => ?_) whole
  rcases List.mem_append.mp member with own | back
  · exact said body own
  · exact few body back

-- The client has said its word once or is about to.
theorem greeted_once (running : Running (some iAmClient) s) (valid : (s.machine.service.peers i).socket ≠ NetSelect.invalidSocket) :
    s.greeted i = [iAmClient] ∨ s.greeted i = [] ∧ s.delivered i = [] := by
  by_cases own : ∃ rest, s.machine.stack = .onCon i :: rest
  · obtain ⟨rest,own⟩ := own
    exact .inr (running.meeting.waits i rest own)
  · exact .inl (running.meeting.greets i valid (not_exists.mp own))

-- Every run of the client and the server, with whatever else they serve: from when onCon
-- of the client has returned, and as long as both ends are open, one message is under way,
-- cut somewhere. It is all that the two deliver, the server once more at most.
theorem one_message_circles (path : Path (CircleStep i j) Circle.new taken c) (here : 0 < (c.client.machine.service.peers i).socket)
    (there : 0 < (c.server.machine.service.peers j).socket) :
    c.client.greeted i = [] ∧ c.underWay i j = [] ∧ c.client.delivered i = [] ∧ c.server.delivered j = [] ∨
    c.client.greeted i = [iAmClient] ∧ (encode iAmClient).IsRotated (c.underWay i j) ∧
      ∃ n, c.client.delivered i = List.replicate n iAmClient ∧
        (c.server.delivered j = List.replicate n iAmClient ∨ c.server.delivered j = List.replicate (n+1) iAmClient) := by
  have circling := path.invariant (Circling i j) (new_circling i j) fun _ _ _ circling step => circling_step circling step
  have bytes := underWay_bytes circling here there
  obtain ⟨client,server,⟨up,down⟩⟩ := circling
  have unsaid := server.meeting.silent (legal_valid there)
  have behind := delivered_front client server (legal_valid here) there down (by rw [unsaid]; exact nofun)
  rw [unsaid,List.nil_append] at behind
  rcases greeted_once client (legal_valid here) with greeted | ⟨greeted,undelivered⟩
  · rw [greeted,List.flatMap_singleton] at bytes
    have ahead := delivered_front server client (legal_valid there) here up (by rw [greeted]; decide)
    rw [greeted] at ahead
    exact .inr ⟨greeted,rotated_of_append bytes.symm,replicate_of_sandwich behind ahead⟩
  · rw [greeted] at bytes
    have ahead := delivered_front server client (legal_valid there) here up (by rw [greeted]; exact nofun)
    rw [greeted,undelivered] at ahead
    exact .inl ⟨greeted,List.append_right_eq_self.mp bytes,undelivered,List.prefix_nil.mp ahead⟩

-- The client gets its connection and says its word, the server reads it and has it on the
-- way back.
def listenAt : EchoEvent := .io (.listen ⟨4,true,true,true,0⟩)
def letIn : EchoEvent := .io (.eventLoop ⟨some (fun _ => true,fun _ => false),⟨5,"127.0.0.1",80⟩,fun _ => none,fun _ => none,0⟩)
def utter : EchoEvent := .io (.eventLoop ⟨some (fun _ => false,fun _ => true),⟨-1,"",0⟩,fun _ => none,fun _ => some 15,0⟩)
def collect : EchoEvent := .io (.eventLoop ⟨some (fun s => s = 5,fun _ => false),⟨-1,"",0⟩,fun _ => some (encode iAmClient),fun _ => none,0⟩)

def meets : EchoProgram := (EchoProgram.new.leads (some iAmClient) join).leads (some iAmClient) .callback
def speaks : EchoProgram := (meets.leads (some iAmClient) utter).leads (some iAmClient) turn
def listens : EchoProgram := EchoProgram.new.leads none listenAt
def letsIn : EchoProgram := (((listens.leads none letIn).leads none .callback).leads none turn).leads none turn
def answers : EchoProgram := ((letsIn.leads none collect).leads none turn).leads none .callback

theorem speaks_path : ∃ taken, Path (CircleStep 0 0) Circle.new taken ⟨speaks,EchoProgram.new⟩ := by
  have first : CircleStep 0 0 Circle.new (.client join) ⟨EchoProgram.new.leads (some iAmClient) join,.new⟩ :=
    .client (.io rfl (.returns ⟨nofun,fun valid => Machine.new_fresh valid⟩ rfl)) ⟨by decide,by decide⟩
  have second : CircleStep 0 0 ⟨EchoProgram.new.leads (some iAmClient) join,.new⟩ (.client .callback) ⟨meets,.new⟩ :=
    .client (.callback rfl) ⟨by decide,by decide⟩
  have third : CircleStep 0 0 ⟨meets,.new⟩ (.client utter) ⟨meets.leads (some iAmClient) utter,.new⟩ :=
    .client (.io rfl (.returns ⟨rfl,fun valid => absurd rfl valid⟩ rfl)) ⟨by decide,by decide⟩
  have fourth : CircleStep 0 0 ⟨meets.leads (some iAmClient) utter,.new⟩ (.client turn) ⟨speaks,.new⟩ :=
    .client (.io trivial (.returns trivial rfl)) ⟨by decide,by decide⟩
  exact ⟨_,.step (.step (.step (.step .nil first) second) third) fourth⟩

theorem answers_path : ∃ taken, Path (CircleStep 0 0) Circle.new taken ⟨speaks,answers⟩ := by
  obtain ⟨taken,path⟩ := speaks_path
  have first : CircleStep 0 0 ⟨speaks,.new⟩ (.server listenAt) ⟨speaks,listens⟩ :=
    .server (.io rfl (.returns ⟨nofun,fun valid => Machine.new_fresh valid⟩ rfl)) ⟨by decide,by decide⟩
  have second : CircleStep 0 0 ⟨speaks,listens⟩ (.server letIn) ⟨speaks,listens.leads none letIn⟩ :=
    .server (.io rfl (.returns ⟨rfl,fun _ => ⟨fun ⟨_,member,_⟩ => (nomatch member),by decide⟩⟩ rfl)) ⟨by decide,by decide⟩
  have third : CircleStep 0 0 ⟨speaks,listens.leads none letIn⟩ (.server .callback) ⟨speaks,(listens.leads none letIn).leads none .callback⟩ :=
    .server (.callback rfl) ⟨by decide,by decide⟩
  have fourth : CircleStep 0 0 ⟨speaks,(listens.leads none letIn).leads none .callback⟩ (.server turn)
      ⟨speaks,((listens.leads none letIn).leads none .callback).leads none turn⟩ :=
    .server (.io trivial (.returns trivial rfl)) ⟨by decide,by decide⟩
  have fifth : CircleStep 0 0 ⟨speaks,((listens.leads none letIn).leads none .callback).leads none turn⟩ (.server turn) ⟨speaks,letsIn⟩ :=
    .server (.io trivial (.returns trivial rfl)) ⟨by decide,by decide⟩
  have sixth : CircleStep 0 0 ⟨speaks,letsIn⟩ (.server collect) ⟨speaks,letsIn.leads none collect⟩ :=
    .server (.io rfl (.returns ⟨rfl,fun valid => absurd rfl valid⟩ rfl)) ⟨by decide,by decide⟩
  have seventh : CircleStep 0 0 ⟨speaks,letsIn.leads none collect⟩ (.server turn) ⟨speaks,(letsIn.leads none collect).leads none turn⟩ :=
    .server (.io trivial (.returns trivial rfl)) ⟨by decide,by decide⟩
  have eighth : CircleStep 0 0 ⟨speaks,(letsIn.leads none collect).leads none turn⟩ (.server .callback) ⟨speaks,answers⟩ :=
    .server (.callback rfl) ⟨by decide,by decide⟩
  exact ⟨_,(((((((path.step first).step second).step third).step fourth).step fifth).step sixth).step seventh).step eighth⟩

theorem one_message_circles_back : answers.delivered 0 = [iAmClient] ∧ speaks.delivered 0 = [] ∧
    (encode iAmClient).IsRotated (Circle.underWay 0 0 ⟨speaks,answers⟩) := by
  obtain ⟨taken,path⟩ := answers_path
  refine ⟨rfl,rfl,?_⟩
  rcases one_message_circles path (by decide) (by decide) with ⟨_,none,_⟩ | ⟨_,one,_⟩
  · cases none
  · exact one

end PcNetwork.NetEvent
