import PcNetwork.Libnet.ReadPath
import PcNetwork.Services.Segmentation

namespace PcNetwork.NetEvent
open SockBuf Libnet

-- The program of libnet: the service with NetEvent as its application, and the bodies that
-- onRead has delivered, each with its slot: taken out of the buffer and given to printf, which
-- stops at a NUL in one. onCon and onDisCon only print the address.
structure Server where
  service : IocpService
  delivered : List (Nat × List UInt8)

namespace Server

def new : Server := ⟨IocpService.new,[]⟩

def onService (f : Throwing IocpService α) : Throwing Server α := fun s =>
  match f s.service with
  | .ok a x => .ok a {s with service := x}
  | .error e x => .error e {s with service := x}

def print (index : Nat) : Option Message → Throwing Server Unit
  | none => pure ()
  | some message => modify fun s => {s with delivered := s.delivered ++ [(index,message.body)]}

-- The callback that was called last, until it has returned.
def callback (sys : System) : Throwing Server Unit := do
  let s ← get
  match s.service.stack with
  | .onRead index _ _ :: _ =>
    let answer ← onService (IocpService.onReadBuf index onReadLibnet)
    print index answer
    onService (IocpService.resume sys 0)
  | _ => onService (IocpService.resume sys 0)

end Server

-- The console thread is a second one, which only calls send, and without a lock. Its calls
-- are steps between others here, as send does not touch what the read path uses. What the
-- callbacks call is in `callback`.
inductive ServerEvent where
  | io (event : IocpEvent)
  | callback

structure ServerInput where
  event : ServerEvent
  sys : System

def outside : IocpEvent → Bool
  | .consume _ | .resume _ => false
  | .connectPeer _ | .listen _ _ | .send _ _ _ | .closePeer _ _ | .acceptTick _ | .eventTick _ => true

inductive ServerStep : Server → ServerInput → Server → Prop where
  | io (external : outside event = true) (step : IocpService.IocpStep s.service ⟨event,sys⟩ x) :
      ServerStep s ⟨.io event,sys⟩ ⟨x,s.delivered⟩
  | callback (ran : Server.callback sys s = .ok () t) : ServerStep s ⟨.callback,sys⟩ t

variable {b c : SockBuf} {s t : Server} {x y : IocpService} {sys : System} {index i : Nat}

-- What a step of the service contributes to a log, for the steps of the program.
def contributes (log : Transition IocpService IocpInput → List UInt8) (t : Transition Server ServerInput) : List UInt8 :=
  match t.event.event with
  | .io event => log ⟨t.before.service,⟨event,t.event.sys⟩,t.after.service⟩
  | .callback => []

def noted (log : Transition IocpService IocpInput → List UInt8) (taken : List (Transition Server ServerInput)) : List UInt8 :=
  taken.flatMap (contributes log)

-- The bytes that the network brings to a slot, and the messages that are delivered for it.
def arrived (i : Nat) (taken : List (Transition Server ServerInput)) : List UInt8 := noted (IocpService.stored_bytes i) taken

def Server.bodies (s : Server) (i : Nat) : List (List UInt8) := (s.delivered.filter fun entry => entry.1 = i).map Prod.snd

theorem onService_returned {f : Throwing IocpService α} (ran : Server.onService f s = .ok a t) :
    f s.service = .ok a t.service ∧ t.delivered = s.delivered := by
  unfold Server.onService at ran
  split at ran
  · rename_i y inner
    cases ran
    exact ⟨inner,rfl⟩
  · cases ran

-- What onRead leaves: the buffer as it is, or without a message, which readMove has taken.
theorem readableBytes_returned {n : UInt32} (ran : readableBytes b = .ok n c) : c = b ∧ n = b.writeIndex-b.readIndex ∧ n.toNat < 2^31 := by
  unfold readableBytes at ran
  dsimp only at ran
  split at ran
  · cases ran
  · rename_i nonneg
    cases ran
    rw [UInt32.toUInt32_toInt32]
    exact ⟨rfl,rfl,Nat.not_le.mp fun large => nonneg (gap_neg.mpr large)⟩

theorem string_returned {bytes made : List UInt8} {n : Int} (ran : string bytes n b = .ok made c) :
    c = b ∧ made.length ≤ n.toNat := by
  unfold string at ran
  split at ran
  · cases ran
  · cases ran
    exact ⟨rfl,List.length_take_le _ _⟩

theorem onReadLibnet_returned {answer : Option Message} (ran : onReadLibnet b = .ok answer c) :
    (answer = none ∧ c = b) ∨ ∃ message, ∃ n : UInt32, answer = some message ∧ message.body.length < 2^31 ∧
      n.toNat < 2^31 ∧ readMove n b = .ok () c := by
  unfold onReadLibnet at ran
  obtain ⟨start,d,started,counted⟩ := bind_returned ran
  cases started
  obtain ⟨readable,d,count,next⟩ := bind_returned counted
  clear ran counted
  obtain ⟨rfl,_,small⟩ := readableBytes_returned count
  split at next
  · cases next
    exact .inl ⟨rfl,rfl⟩
  · split at next
    · cases next
      exact .inl ⟨rfl,rfl⟩
    · rename_i whole
      obtain ⟨_,e,first,rest⟩ := bind_returned next
      obtain ⟨rfl,_⟩ := string_returned first
      obtain ⟨body,f,second,last⟩ := bind_returned rest
      obtain ⟨rfl,made⟩ := string_returned second
      obtain ⟨_,g,moved,ended⟩ := bind_returned last
      cases ended
      have less : (totalMsgLen (f.buf.drop f.readIndex.toNat)).toNat ≤ readable.toNat :=
        Nat.not_lt.mp fun short => whole (UInt32.lt_iff_toNat_lt.mpr short)
      have bound := (len_bounds (f.buf.drop f.readIndex.toNat)).2
      exact .inr ⟨_,_,rfl,by dsimp only; omega,Nat.lt_of_le_of_lt less small,moved⟩

-- The message that a buffer starts with, as the other side has sent it.
theorem front_encode {bytes : List UInt8} (header : 4 ≤ bytes.length) (nonneg : 0 ≤ (len bytes).toInt)
    (whole : 4+(len bytes).toInt.toNat ≤ bytes.length) :
    encode (Block.slice bytes 4 (len bytes).toInt.toNat) = bytes.take (4+(len bytes).toInt.toNat) := by
  have count : (Block.slice bytes 4 (len bytes).toInt.toNat).length = (len bytes).toInt.toNat := Block.length_slice whole
  have four : (bytes.take msgHeaderLen.toNat).length = 4 := List.length_take_of_le header
  have back : Int32.ofInt ((len bytes).toInt.toNat : Int) = len bytes := by
    rw [Int.toNat_of_nonneg nonneg,Int32.ofInt_toInt]
  rw [encode,count,back,len,Endian.ofInt32_toInt32 four,Block.slice,List.take_add]
  rfl

-- What onRead has done when it returns.
theorem onRead_took (program : Program) {answer : Option Message} (ok : Ok b) (ran : onRead program b = .ok answer c) :
    (answer = none ∧ c = b) ∨
    ∃ message, answer = some message ∧ Ok c ∧ b.readable = encode message.body ++ c.readable ∧
      message.sent = sendsBack program (encode message.body) ∧ message.body.length < 2^31 := by
  obtain ⟨waits,throws,takes⟩ := onRead_handles program ok
  by_cases short : b.readable.length ≤ 4 ∨ b.readable.length < (totalMsgLen b.readable).toNat
  · rw [waits short] at ran
    cases ran
    exact .inl ⟨rfl,rfl⟩
  · obtain ⟨some_bytes,whole⟩ := not_or.mp short
    by_cases negative : (len b.readable).toInt < 0
    · obtain ⟨text,d,threw⟩ := throws (Nat.not_le.mp some_bytes) (Nat.not_lt.mp whole) negative
      rw [threw] at ran
      cases ran
    · have nonneg := Int.not_lt.mp negative
      have total := total_nonneg nonneg
      have bound := (len_bounds b.readable).2
      obtain ⟨d,kept,rest,took⟩ := takes (Nat.not_le.mp some_bytes) (Nat.not_lt.mp whole) nonneg
      rw [took] at ran
      cases ran
      have front := front_encode (by omega) nonneg (by omega)
      have count : (Block.slice b.readable 4 (len b.readable).toInt.toNat).length = (len b.readable).toInt.toNat :=
        Block.length_slice (by omega)
      refine .inr ⟨_,rfl,kept,?_,?_,by dsimp only; omega⟩
      · rw [front,rest]
        exact (List.take_append_drop _ _).symm
      · rw [front]

theorem print_returned {answer : Option Message} (ran : Server.print index answer s = .ok () t) :
    t.service = s.service ∧ t.delivered = s.delivered ++ answer.toList.map fun message => (index,message.body) := by
  cases answer with
  | none =>
    cases ran
    exact ⟨rfl,(List.append_nil _).symm⟩
  | some message =>
    cases ran
    exact ⟨rfl,rfl⟩

-- What a callback is made of.
inductive Calling (sys : System) (s t : Server) : Prop where
  | other (apart : ∀ index mark k rest, s.service.stack ≠ .onRead index mark k :: rest)
      (returns : IocpService.resume sys 0 s.service = .ok () t.service) (delivered : t.delivered = s.delivered)
  | read {index k : Nat} {mark : UInt64} {rest : List Frame} {answer : Option Message} {b : SockBuf}
      (stack : s.service.stack = .onRead index mark k :: rest)
      (took : onReadLibnet (s.service.peers index).readBuf = .ok answer b)
      (returns : IocpService.resume sys 0 (s.service.setPeer index {s.service.peers index with readBuf := b}) = .ok () t.service)
      (delivered : t.delivered = s.delivered ++ answer.toList.map fun message => (index,message.body))

theorem callback_calling (ran : Server.callback sys s = .ok () t) : Calling sys s t := by
  unfold Server.callback at ran
  obtain ⟨_,_,looked,next⟩ := bind_returned ran
  cases looked
  have other (apart : ∀ index mark k rest, s.service.stack ≠ .onRead index mark k :: rest)
      (last : Server.onService (IocpService.resume sys 0) s = .ok () t) : Calling sys s t := by
    obtain ⟨returns,delivered⟩ := onService_returned last
    exact .other apart returns delivered
  cases stack : s.service.stack with
  | nil =>
    rw [stack] at next
    exact other (fun _ _ _ _ same => by rw [stack] at same; cases same) next
  | cons frame rest =>
    rw [stack] at next
    cases frame with
    | onCon | onDisCon => exact other (fun _ _ _ _ same => by rw [stack] at same; cases same) next
    | onRead index mark k =>
      obtain ⟨answer,u,reads,printing⟩ := bind_returned next
      obtain ⟨inner,undelivered⟩ := onService_returned reads
      obtain ⟨b,took,after⟩ := IocpService.onReadBuf_returned inner
      obtain ⟨_,v,prints,last⟩ := bind_returned printing
      obtain ⟨same,delivered⟩ := print_returned prints
      obtain ⟨returns,kept⟩ := onService_returned last
      rw [same,after] at returns
      exact .read stack took returns (by rw [kept,delivered,undelivered])

-- A log to which the callbacks contribute nothing.
structure Quiet (log : Transition IocpService IocpInput → List UInt8) : Prop where
  consume : ∀ x n sys y, log ⟨x,⟨.consume n,sys⟩,y⟩ = []
  resume : ∀ x ret sys y, log ⟨x,⟨.resume ret,sys⟩,y⟩ = []

-- A run of the service that the program has made, with what was delivered for each slot and
-- the logs of the program.
structure Tracked (moves : List (Transition IocpService IocpInput)) (x : IocpService) (bodies : Nat → List (List UInt8))
    (total : (Transition IocpService IocpInput → List UInt8) → List UInt8) : Prop where
  path : Path IocpService.IocpStep IocpService.new moves x
  moderate : ∀ move ∈ moves, IocpService.Moderate move
  logs (log : Transition IocpService IocpInput → List UInt8) : Quiet log → moves.flatMap log = total log
  untouched (i : Nat) : IocpService.connections i x = 0 → bodies i = []
  short (i : Nat) : ∀ body ∈ bodies i, body.length < 2^31
  draws (i : Nat) : IocpService.connections i x ≤ 1 → (x.peers i).socket ≠ invalidSocket →
    IocpService.consumed i moves = (bodies i).flatMap encode

-- One step of the service, with the bodies that it stands for.
theorem Tracked.step {moves : List (Transition IocpService IocpInput)} {bodies more : Nat → List (List UInt8)}
    {total : (Transition IocpService IocpInput → List UInt8) → List UInt8} {input : IocpInput} (tracked : Tracked moves x bodies total)
    (step : IocpService.IocpStep x input y) (moderate : IocpService.Moderate ⟨x,input,y⟩)
    (unasked : ∀ i, IocpService.connections i x = 0 → more i = []) (few : ∀ i, ∀ body ∈ more i, body.length < 2^31)
    (taken : ∀ i, IocpService.connections i x ≤ 1 → (x.peers i).socket ≠ invalidSocket →
      IocpService.takes i ⟨x,input,y⟩ = (more i).flatMap encode) :
    Tracked (moves ++ [⟨x,input,y⟩]) y (fun i => bodies i ++ more i) fun log => total log ++ log ⟨x,input,y⟩ := by
  obtain ⟨path,all,logs,untouched,short,draws⟩ := tracked
  have grows (i : Nat) := IocpService.step_connections (i := i) step
  refine ⟨path.step step,?_,fun log quiet => ?_,fun i none => ?_,fun i body member => ?_,fun i once valid => ?_⟩
  · intro move member
    rcases List.mem_append.mp member with old | new
    · exact all move old
    · cases List.mem_singleton.mp new
      exact moderate
  · rw [List.flatMap_append,logs log quiet,List.flatMap_singleton]
  · have before : IocpService.connections i x = 0 := Nat.le_zero.mp (none ▸ grows i)
    rw [untouched i before,unasked i before]
    rfl
  · rcases List.mem_append.mp member with old | new
    · exact short i body old
    · exact few i body new
  · have appended : IocpService.consumed i (moves ++ [⟨x,input,y⟩]) =
        IocpService.consumed i moves ++ IocpService.takes i ⟨x,input,y⟩ := by simp [IocpService.consumed]
    rw [appended,List.flatMap_append]
    by_cases fresh : IocpService.connections i x = 0
    · obtain ⟨_,none⟩ := (IocpService.fetching_path path (Nat.le_trans (grows i) once) all).1 fresh
      obtain ⟨_,_,alone,_,_⟩ := (IocpService.piped_path path (Nat.le_trans (grows i) once)).1 fresh
      rw [untouched i fresh,unasked i fresh,none,IocpService.takes_none alone]
      rfl
    · rcases IocpService.step_opens step valid with open_slot | new
      · rw [draws i (Nat.le_trans (grows i) once) open_slot,taken i (Nat.le_trans (grows i) once) open_slot]
      · omega

theorem takes_outside {event : IocpEvent} (external : outside event = true) (i : Nat) : IocpService.takes i ⟨x,⟨event,sys⟩,y⟩ = [] := by
  unfold IocpService.takes
  cases event with
  | consume => cases external
  | _ => rfl

theorem moderate_outside {event : IocpEvent} (external : outside event = true) : IocpService.Moderate ⟨x,⟨event,sys⟩,y⟩ := by
  unfold IocpService.Moderate
  cases event with
  | consume => cases external
  | _ => trivial

-- The logs of a step of the application.
theorem Tracked.silent {moves : List (Transition IocpService IocpInput)} {bodies : Nat → List (List UInt8)}
    {total added : (Transition IocpService IocpInput → List UInt8) → List UInt8}
    (tracked : Tracked moves x bodies fun log => total log ++ added log) (none : ∀ log, Quiet log → added log = []) :
    Tracked moves x bodies total := by
  obtain ⟨path,all,logs,untouched,short,draws⟩ := tracked
  refine ⟨path,all,fun log quiet => ?_,untouched,short,draws⟩
  rw [logs log quiet,none log quiet,List.append_nil]

theorem resumed {moves : List (Transition IocpService IocpInput)} {bodies : Nat → List (List UInt8)}
    {total : (Transition IocpService IocpInput → List UInt8) → List UInt8} (tracked : Tracked moves x bodies total)
    (ran : IocpService.resume sys 0 x = .ok () y) : Tracked (moves ++ [⟨x,⟨.resume 0,sys⟩,y⟩]) y bodies total := by
  have step : IocpService.IocpStep x ⟨.resume 0,sys⟩ y := .returns trivial ran
  have none : ∀ i, IocpService.connections i x = 0 → (fun _ : Nat => ([] : List (List UInt8))) i = [] := fun _ _ => rfl
  have next := tracked.step step trivial none nofun fun _ _ _ => rfl
  simp only [List.append_nil] at next
  exact next.silent fun log quiet => quiet.resume _ _ _ _

theorem setPeer_self (x : IocpService) (i : Nat) : x.setPeer i (x.peers i) = x := by
  have same : (fun j => if j = i then x.peers i else x.peers j) = x.peers := by
    funext j
    split
    · rename_i equal
      rw [equal]
    · rfl
  unfold IocpService.setPeer
  rw [same]

theorem consume_ok {n : UInt32} {mark : UInt64} {k : Nat} {rest : List Frame} (stack : x.stack = .onRead index mark k :: rest)
    (moved : readMove n (x.peers index).readBuf = .ok () b) :
    IocpService.consume n x = .ok () (x.setPeer index {x.peers index with readBuf := b}) := by
  have looked : IocpService.consume n x = _ := bind_ok rfl _
  rw [looked,stack]
  show IocpService.onReadBuf index (readMove n) x = _
  unfold IocpService.onReadBuf
  rw [moved]

theorem bodies_printed {message : Message} (delivered : t.delivered = s.delivered ++ [(index,message.body)]) (i : Nat) :
    t.bodies i = s.bodies i ++ if index = i then [message.body] else [] := by
  unfold Server.bodies
  rw [delivered,List.filter_append,List.map_append]
  by_cases own : index = i
  · simp [own]
  · simp [own]

theorem bodies_same (delivered : t.delivered = s.delivered) : t.bodies = s.bodies := by
  unfold Server.bodies
  rw [delivered]

-- onRead takes one message at most. For the service that is a readMove, if at all, and the
-- return of the callback.
theorem Tracked.callback {moves : List (Transition IocpService IocpInput)}
    {total : (Transition IocpService IocpInput → List UInt8) → List UInt8} (tracked : Tracked moves s.service s.bodies total)
    (ran : Server.callback sys s = .ok () t) : ∃ more, Tracked more t.service t.bodies total := by
  cases callback_calling ran with
  | other apart returns delivered =>
    rw [bodies_same delivered]
    exact ⟨_,resumed tracked returns⟩
  | @read index k mark rest answer b stack took returns delivered =>
    rcases onReadLibnet_returned took with ⟨rfl,rfl⟩ | ⟨message,n,rfl,short,small,moved⟩
    · have same : s.service.setPeer index {s.service.peers index with readBuf := (s.service.peers index).readBuf} = s.service :=
        setPeer_self _ _
      rw [same] at returns
      rw [bodies_same (delivered.trans (List.append_nil _))]
      exact ⟨_,resumed tracked returns⟩
    · have step : IocpService.IocpStep s.service ⟨.consume n,sys⟩ _ := .returns trivial (consume_ok stack moved)
      have frame : IocpService.slot (.onRead index mark k) = index := rfl
      have drawn (i : Nat) : IocpService.drawn i s.service n =
          if index = i then (s.service.peers i).readBuf.readable.take n.toNat else [] := by
        unfold IocpService.drawn
        rw [stack]
      have unasked : ∀ i, IocpService.connections i s.service = 0 → (if index = i then [message.body] else []) = [] := by
        intro i none
        refine if_neg fun own => ?_
        obtain ⟨_,_,alone,_,_⟩ := (IocpService.piped_path tracked.path (Nat.le_trans (Nat.le_of_eq none) (Nat.zero_le 1))).1 none
        exact IocpService.frames_none alone stack (frame.trans own)
      have few : ∀ i, ∀ body ∈ if index = i then [message.body] else [], body.length < 2^31 := by
        intro i body member
        split at member
        · cases List.mem_singleton.mp member
          exact short
        · cases member
      have next := tracked.step step small unasked few fun i once valid => ?_
      · have same : (fun i => s.bodies i ++ if index = i then [message.body] else []) = t.bodies :=
          funext fun i => (bodies_printed delivered i).symm
        rw [same] at next
        exact ⟨_,resumed (next.silent fun log quiet => quiet.consume _ _ _ _) returns⟩
      · show IocpService.drawn i s.service n = _
        rw [drawn]
        by_cases own : index = i
        · subst own
          have ok := ((IocpService.fetching_path tracked.path once tracked.moderate).2 valid).ok
          obtain ⟨_,parts⟩ := IocpService.readMove_moderate ok small moved
          rcases onRead_took .libnet ok took with ⟨none,_⟩ | ⟨found,same,_,front,_,_⟩
          · cases none
          · cases same
            rw [if_pos rfl,if_pos rfl,List.flatMap_singleton]
            exact List.append_cancel_right (parts.symm.trans front)
        · rw [if_neg own,if_neg own]
          rfl

theorem server_tracked (path : Path ServerStep Server.new taken last) :
    ∃ moves, Tracked moves last.service last.bodies fun log => noted log taken := by
  induction path with
  | nil => exact ⟨[],.nil,nofun,fun _ _ => rfl,fun _ _ => rfl,nofun,fun _ _ valid => absurd rfl valid⟩
  | @step earlier middle input last prior step ih =>
    obtain ⟨moves,tracked⟩ := ih
    have grown (log : Transition IocpService IocpInput → List UInt8) :
        noted log (earlier ++ [⟨middle,input,last⟩]) = noted log earlier ++ contributes log ⟨middle,input,last⟩ := by simp [noted]
    simp only [grown]
    cases step with
    | @io event _ sys x external step =>
      have none : ∀ i, IocpService.connections i middle.service = 0 → (fun _ : Nat => ([] : List (List UInt8))) i = [] :=
        fun _ _ => rfl
      have next := tracked.step step (moderate_outside external) none nofun fun i _ _ => takes_outside external i
      simp only [List.append_nil] at next
      exact ⟨_,next⟩
    | callback ran =>
      have silent (log : Transition IocpService IocpInput → List UInt8) {sys : System} :
          contributes log ⟨middle,⟨.callback,sys⟩,last⟩ = [] := rfl
      simp only [silent,List.append_nil]
      exact tracked.callback ran

theorem stored_quiet (i : Nat) : Quiet (IocpService.stored_bytes i) := ⟨fun _ _ _ _ => rfl,fun _ _ _ _ => rfl⟩

-- What starts with messages and is the front of a stream of messages starts with the first
-- messages of the stream.
theorem bodies_prefix {bodies sent : List (List UInt8)} {rest : List UInt8} (short : ∀ body ∈ bodies, body.length < 2^31)
    (few : ∀ body ∈ sent, body.length < 2^31) (part : bodies.flatMap encode ++ rest <+: sent.flatMap encode) : bodies <+: sent := by
  obtain ⟨done,todo,tail,rfl,split,_⟩ := messages.split_encoded (fun body member => encode_next (few body member)) part
  have whole := messages.split_whole fun body member => encode_next (short body member)
  have start : messages.split (bodies.flatMap encode) = (bodies ++ (messages.split []).1,(messages.split []).2) := by
    rw [whole,messages.split_nil,List.append_nil]
  have extended := messages.split_extend start rest
  rw [split] at extended
  have same := congrArg Prod.fst extended
  rw [show done = bodies ++ (messages.split ([] ++ rest)).1 from same,List.append_assoc]
  exact List.prefix_append _ _

-- Every run of the program in which one connection has had the slot, as long as it is
-- open: what has arrived are the messages that have been delivered and what is buffered. So
-- these are the first messages of the other side, in order.
theorem messages_served (path : Path ServerStep Server.new taken last) (once : IocpService.connections i last.service ≤ 1)
    (valid : (last.service.peers i).socket ≠ invalidSocket) :
    (last.bodies i).flatMap encode ++ (last.service.peers i).readBuf.readable = arrived i taken ∧
    ∀ sent, (∀ body ∈ sent, body.length < 2^31) → arrived i taken <+: sent.flatMap encode → last.bodies i <+: sent := by
  obtain ⟨moves,tracked⟩ := server_tracked path
  have kept := IocpService.read_path_kept tracked.path once tracked.moderate valid
  have bytes : (last.bodies i).flatMap encode ++ (last.service.peers i).readBuf.readable = arrived i taken := by
    rw [← tracked.draws i once valid,arrived,← tracked.logs _ (stored_quiet i)]
    exact kept.bytes
  refine ⟨bytes,fun sent few part => ?_⟩
  rw [← bytes] at part
  exact bodies_prefix (tracked.short i) few part

-- A connection is accepted, a message of one byte arrives and onRead delivers it.
def ServerInput.leads (input : ServerInput) (s : Server) : Server :=
  match input.event with
  | .io event => ⟨final (IocpService.run ⟨event,input.sys⟩ s.service),s.delivered⟩
  | .callback => final (Server.callback input.sys s)

def answer : ServerInput := ⟨.callback,⟨true,0⟩⟩
def accept : ServerInput := ⟨.io (.connectPeer (.ok ⟨5,"127.0.0.1",80⟩)),⟨true,0⟩⟩
def deliver : ServerInput := ⟨.io (.eventTick (.success 0 5 [1,0,0,0,65])),⟨true,0⟩⟩
def greeted : Server := answer.leads (accept.leads Server.new)
def printing : Server := answer.leads (deliver.leads greeted)

theorem messages_served_deliver : ∃ taken, arrived 0 taken = [1,0,0,0,65] ∧ Path ServerStep Server.new taken printing ∧
    printing.bodies 0 <+: [[65],[66]] := by
  have first : ServerStep Server.new accept (accept.leads Server.new) := .io rfl (.returns trivial rfl)
  have second : ServerStep (accept.leads Server.new) answer greeted := .callback rfl
  have third : ServerStep greeted deliver (deliver.leads greeted) := .io rfl (.returns ⟨rfl,_,rfl,rfl,by decide⟩ rfl)
  have fourth : ServerStep (deliver.leads greeted) answer printing := .callback rfl
  have path := Path.step (.step (.step (.step .nil first) second) third) fourth
  exact ⟨_,rfl,path,(messages_served path (i := 0) (by decide) (by decide)).2 [[65],[66]] (by decide) (by decide)⟩

end PcNetwork.NetEvent
