import PcNetwork.Netlib.Closings

namespace PcNetwork.Netlib
variable {T : Type} [Session T]
namespace TcpSocket

-- The loop hands out the frames of the content and leaves what is behind them.
theorem pushLoop_parts {fuel : Nat} {packet : NetPacket} {fs : List (List UInt8)} (ok : packet.Ok)
    (enough : packet.content.length < fuel) (split : frames.split packet.content = (fs,.waiting rest))
    (e : Entry T) (closes : Bool) (times : List UInt32) :
    ∃ next session dangling closing clock, pushLoop fuel packet e closes times =
        some (next,{e with session,delivered := e.delivered ++ fs,dangling},closing,clock) ∧
      ((next = none ∧ rest = []) ∨ ∃ q, next = some q ∧ q.Ok ∧ q.content = rest) := by
  induction fuel generalizing packet fs e closes times with
  | zero => omega
  | succ fuel ih =>
    unfold pushLoop
    rcases NetPacket.isCling_parts ok with ⟨more,cling⟩ | ⟨bad,_⟩ | ⟨left,found,cling,after⟩
    · rw [frames.split_more more] at split
      cases split
      rw [if_neg (by rw [cling]; exact Bool.false_ne_true)]
      exact ⟨_,_,_,_,_,by rw [List.append_nil],.inr ⟨_,rfl,ok,rfl⟩⟩
    · rw [frames.split_bad bad] at split
      cases congrArg Prod.snd split
    · have consumed := frames.consumes found
      rw [frames.split_frame found] at split
      have first : fs = packet.frame :: (frames.split left).1 := (congrArg Prod.fst split).symm
      have waits : (frames.split left).2 = .waiting rest := congrArg Prod.snd split
      rw [if_pos cling,first]
      dsimp only
      rcases after with ⟨none,last⟩ | ⟨q,some,next,fine,content⟩
      · rw [last]
        rw [none,frames.split_nil] at waits ⊢
        exact ⟨_,_,_,_,_,rfl,.inl ⟨rfl,(Tail.waiting.inj waits).symm⟩⟩
      · rw [next]
        dsimp only
        have onward := ih fine (by rw [content]; omega) (by rw [content]; exact Prod.ext rfl waits)
        generalize (if packet.getCmd = nlibpConnect then _ else _ : T × List UInt32) = timed
        obtain ⟨final,session,dangling,closing,clock,ran,stops⟩ := onward _ _ _
        refine ⟨final,session,dangling,closing,clock,ran.trans ?_,stops⟩
        simp only [List.append_assoc,List.singleton_append]

-- Every frame that has come in whole was given to PushRecvPacket.
def Reassembled (s : TcpSocket T) : Prop :=
  ∀ e ∈ s.sessions ++ s.gone, e.delivered = (frames.split e.received).1

-- And none of them to a session that had been deleted.
def Sound (s : TcpSocket T) : Prop := ∀ e ∈ s.sessions ++ s.gone, e.dangling = false

-- A recv that does not fail and ends where a frame ends.
def WholeRead (answer : Option (List UInt8)) : Prop :=
  ∃ bytes, answer = some bytes ∧ (frames.split (bytes.take maxPacketSize.toNat)).2 = .waiting []

structure Whole (s : TcpSocket T) (o : Outside) : Prop where
  reads : ∀ e ∈ (({s with times := o.times} : TcpSocket T).createSession o).sessions, ∀ answer, o.readable e.socket = some answer →
    WholeRead answer
  alive : s.Alive o

-- What a session has been given, when its stream has come in whole frames only.
structure Kept (e : Entry T) : Prop where
  split : frames.split e.received = (e.delivered,.waiting [])
  alive : e.dangling = false

-- The shared packet between two sessions.
structure Empty (p : NetPacket) : Prop where
  ok : p.Ok
  content : p.content = []

theorem new_empty : Empty NetPacket.new := ⟨NetPacket.new_ok,Block.slice_zero _ _⟩

theorem Empty.arriving (empty : Empty p) (bytes : List UInt8) : p.arriving (some bytes) = bytes.take maxPacketSize.toNat := by
  have length := empty.ok.length_content
  rw [empty.content] at length
  have none : p.datalen = 0 := length.symm
  rw [NetPacket.arriving,empty.ok.max,none]
  rfl

theorem readSession_kept {e : Entry T} {shared : NetPacket} (kept : Kept e) (empty : Empty shared)
    (whole : ∀ answer, o.readable e.socket = some answer → WholeRead answer) (times : List UInt32)
    (alive : true ∉ (readAnswers o e shared times).dropLast) :
    ∃ next after closes clock, readSession o e shared times = some (next,after,closes,clock) ∧ Empty next ∧ Kept after := by
  have sound : ∀ next after closes clock, readSession o e shared times = some (next,after,closes,clock) → after.dangling = false := by
    intro next after closes clock ran
    have dangles := (readSession_answers ran).2
    rw [kept.alive] at dangles
    exact Bool.eq_false_iff.mpr fun dangling => (dangles.mp dangling).elim nofun alive
  unfold readSession at sound ⊢
  cases answer : o.readable e.socket with
  | none => exact ⟨shared,e,false,times,rfl,empty,kept⟩
  | some result =>
    obtain ⟨bytes,rfl,ends⟩ := whole result answer
    obtain ⟨size,fine,content⟩ := @NetPacket.recv_ok shared bytes empty.ok
    rw [← empty.arriving bytes] at ends
    rw [empty.content,List.nil_append] at content
    have joined : frames.split (e.received ++ shared.arriving (some bytes)) =
        (e.delivered ++ (frames.split (shared.arriving (some bytes))).1,.waiting []) := by
      have start : frames.split e.received = (e.delivered ++ (frames.split []).1,(frames.split []).2) := by
        rw [frames.split_nil,List.append_nil]
        exact kept.split
      rw [frames.split_extend start,List.nil_append,ends]
    rw [answer] at sound
    dsimp only at sound ⊢
    rw [size] at sound ⊢
    by_cases some : ((shared.arriving (some bytes)).length : Int) > 0
    · have enough : (shared.recv (Option.some bytes)).2.content.length < (shared.recv (Option.some bytes)).2.datalen.toNat+1 := by
        have count := fine.length_content
        omega
      obtain ⟨next,session,dangling,closes,clock,ran,stops⟩ := pushLoop_parts fine enough
        (by rw [content]; exact Prod.ext rfl ends)
        {e with received := e.received ++ shared.arriving (Option.some bytes)} false times
      rw [if_pos some,ran] at sound ⊢
      refine ⟨_,_,_,_,rfl,?_,joined,sound _ _ _ _ rfl⟩
      rcases stops with ⟨rfl,_⟩ | ⟨q,rfl,good,rest⟩
      · exact new_empty
      · exact ⟨good,rest⟩
    · have none : shared.arriving (Option.some bytes) = [] := List.eq_nil_of_length_eq_zero (by omega)
      rw [if_neg some]
      rw [none] at joined content ⊢
      rw [frames.split_nil] at joined
      exact ⟨_,_,_,_,rfl,⟨fine,content⟩,joined.trans (by rw [List.append_nil]),kept.alive⟩

theorem sendNext_kept {e : Entry T} (kept : Kept e) : Kept (sendNext e) := by
  unfold sendNext
  split <;> exact ⟨kept.split,kept.alive⟩

theorem visit_kept {sessions : List (Entry T)} {shared : NetPacket} (kept : ∀ e ∈ sessions, Kept e) (empty : Empty shared)
    (whole : ∀ e ∈ sessions, ∀ answer, o.readable e.socket = some answer → WholeRead answer) (times : List UInt32)
    (alive : ∀ visited ∈ visitAnswers o sessions shared times, true ∉ visited.2.dropLast) :
    ∃ stay close clock, visit o sessions shared times = some (stay,close,clock) ∧
      (∀ e ∈ stay, Kept e) ∧ ∀ e ∈ close, Kept e := by
  induction sessions generalizing shared times with
  | nil => exact ⟨[],[],times,rfl,nofun,nofun⟩
  | cons e rest ih =>
    have ready : Kept (if o.writable e.socket then sendNext e else e) ∧
        (if o.writable e.socket then sendNext e else e).socket = e.socket := by
      split
      · exact ⟨sendNext_kept (kept e List.mem_cons_self),(sendNext_entry e).1⟩
      · exact ⟨kept e List.mem_cons_self,rfl⟩
    unfold visitAnswers at alive
    obtain ⟨first,later⟩ := List.forall_mem_cons.mp alive
    obtain ⟨next,after,closes,clock,read,fine,mine⟩ := readSession_kept ready.1 empty
      (by rw [ready.2]; exact whole e List.mem_cons_self) times first
    rw [read] at later
    obtain ⟨stay,close,late,visited,staying,closing⟩ := ih (fun e member => kept e (List.mem_cons_of_mem _ member)) fine
      (fun e member => whole e (List.mem_cons_of_mem _ member)) clock later
    unfold visit
    rw [read]
    dsimp only
    rw [visited]
    cases closes with
    | false => exact ⟨_,_,_,rfl,List.forall_mem_cons.mpr ⟨mine,staying⟩,closing⟩
    | true => exact ⟨_,_,_,rfl,staying,List.forall_mem_cons.mpr ⟨mine,closing⟩⟩

omit [Session T] in
theorem insertEntry_mem {e x : Entry T} {sessions : List (Entry T)} (member : x ∈ insertEntry e sessions) :
    x = e ∨ x ∈ sessions := by
  induction sessions with
  | nil => exact .inl (List.mem_singleton.mp member)
  | cons y rest ih =>
    unfold insertEntry at member
    split at member
    · exact List.mem_cons.mp member
    · split at member
      · exact .inr member
      · rcases List.mem_cons.mp member with same | later
        · exact .inr (List.mem_cons.mpr (.inl same))
        · exact (ih later).imp_right (List.mem_cons_of_mem _)

-- The sessions of a server whose recvs have all been whole.
structure AllKept (s : TcpSocket T) : Prop where
  stay : ∀ e ∈ s.sessions, Kept e
  gone : ∀ e ∈ s.gone, Kept e

omit [Session T] in
theorem AllKept.reassembled {s : TcpSocket T} (kept : AllKept s) : Reassembled s ∧ Sound s := by
  have mine (e : Entry T) (member : e ∈ s.sessions ++ s.gone) : Kept e := (List.mem_append.mp member).elim (kept.stay e) (kept.gone e)
  refine ⟨fun e member => ?_,fun e member => (mine e member).alive⟩
  rw [(mine e member).split]

theorem createSession_kept {s : TcpSocket T} (kept : AllKept s) (o : Outside) : AllKept (s.createSession o) := by
  unfold createSession
  split
  · exact kept
  · exact kept
  · refine ⟨fun e member => ?_,kept.gone⟩
    rcases insertEntry_mem member with new | old
    · rw [new]
      exact ⟨frames.split_nil,rfl⟩
    · exact kept.stay e old

theorem checkTime_kept {s : TcpSocket T} (kept : AllKept s) : AllKept s.checkTime := by
  have checked : ∀ (s : TcpSocket T) t, AllKept s → AllKept (s.checkConnect t) := by
    intro s t kept
    refine ⟨fun e member => ?_,kept.gone⟩
    obtain ⟨x,inside,rfl⟩ := List.mem_map.mp member
    exact ⟨(kept.stay x inside).split,(kept.stay x inside).alive⟩
  have timed : ∀ (s : TcpSocket T) times last, AllKept s → AllKept {s with times,lastTime := last} :=
    fun _ _ _ kept => ⟨kept.stay,kept.gone⟩
  unfold checkTime getTime
  dsimp only
  split
  · split
    · exact timed _ _ _ (checked _ _ (timed _ _ _ kept))
    · exact timed _ _ _ kept
  · split
    · exact timed _ _ _ (checked _ _ (timed _ _ _ kept))
    · exact timed _ _ _ kept

theorem processServer_kept {s : TcpSocket T} (kept : AllKept s) (whole : Whole s o) :
    ∃ next, s.processServer o = some next ∧ AllKept next := by
  have timed : AllKept ({s with times := o.times} : TcpSocket T) := ⟨kept.stay,kept.gone⟩
  have alive := whole.alive
  unfold Alive answers at alive
  unfold processServer
  dsimp only at alive ⊢
  split
  · rename_i selects
    rw [if_pos selects] at alive
    have ready := createSession_kept timed o
    obtain ⟨stay,close,clock,visited,staying,closing⟩ := visit_kept ready.stay new_empty whole.reads
      (({s with times := o.times} : TcpSocket T).createSession o).times alive
    rw [visited]
    refine ⟨_,rfl,checkTime_kept ⟨staying,fun e member => ?_⟩⟩
    exact (List.mem_append.mp member).elim (ready.gone e) (closing e)
  · exact ⟨_,rfl,checkTime_kept timed⟩

-- A run of a server: ProcessServer calls that return.
inductive ServerStep : TcpSocket T → Outside → TcpSocket T → Prop where
  | call (returned : s.processServer o = some next) : ServerStep s o next

theorem serverStep_kept {s : TcpSocket T} (kept : AllKept s) (whole : Whole s o) (step : ServerStep s o next) :
    AllKept next := by
  cases step with
  | call returned =>
    obtain ⟨after,same,good⟩ := processServer_kept kept whole
    rw [returned] at same
    rw [Option.some.inj same]
    exact good

-- When every recv ends where a frame ends and no frame comes behind one that closes its
-- session, each session is given exactly the frames of its own stream, and ProcessServer
-- always returns.
theorem streams_reassembled (path : Path ServerStep (created : TcpSocket T) taken last)
    (whole : ∀ t ∈ taken, Whole t.before t.event) :
    (Reassembled last ∧ Sound last) ∧ ∀ o, Whole last o → ∃ next, last.processServer o = some next := by
  have start : AllKept (created : TcpSocket T) := ⟨nofun,nofun⟩
  have held := path.guarded AllKept Whole start whole fun _ _ _ kept meets step => serverStep_kept kept meets step
  refine ⟨held.reassembled,fun o meets => ?_⟩
  obtain ⟨next,returned,_⟩ := processServer_kept held meets
  exact ⟨next,returned⟩

-- A session type that accepts every packet, as TCP_Session does with a command that
-- is none of its own.
structure Listener where
  time : UInt32

instance : Session Listener where
  new := ⟨0⟩
  popSendPacket s := (none,s)
  send s _ := s
  timeSet _ time := ⟨time⟩
  pushRecvPacket _ _ time := (false,⟨time⟩)
  checkConnect s _ := s

def accepting (socket : Nat) : Outside := {(default : Outside) with selects := true,accepts := some (some socket)}

def reading (answers : List (Nat × List UInt8)) : Outside :=
  {(default : Outside) with selects := true,readable := fun socket => (answers.lookup socket).map some}

-- A server with the sessions 5 and 6.
def two (first second : Entry Listener) : TcpSocket Listener := ⟨[first,second],[],0,[]⟩

theorem two_accepted : Path ServerStep (created : TcpSocket Listener)
    [⟨created,accepting 5,⟨[⟨5,⟨0⟩,[],[],false⟩],[],0,[]⟩⟩,
      ⟨⟨[⟨5,⟨0⟩,[],[],false⟩],[],0,[]⟩,accepting 6,two ⟨5,⟨0⟩,[],[],false⟩ ⟨6,⟨0⟩,[],[],false⟩⟩]
    (two ⟨5,⟨0⟩,[],[],false⟩ ⟨6,⟨0⟩,[],[],false⟩) := .step (.step .nil (.call rfl)) (.call rfl)

theorem streams_reassembled_two : ∃ taken last, Path ServerStep (created : TcpSocket Listener) taken last ∧
    (Reassembled last ∧ Sound last) ∧ taken.length = 3 := by
  have returned : (two ⟨5,⟨0⟩,[],[],false⟩ ⟨6,⟨0⟩,[],[],false⟩).processServer (reading [(6,[0,0,0,0,0,8,0,1])]) =
      some (two ⟨5,⟨0⟩,[],[],false⟩ ⟨6,⟨0⟩,[0,0,0,0,0,8,0,1],[[0,0,0,0,0,8,0,1]],false⟩) := rfl
  have path := Path.step two_accepted (.call returned)
  refine ⟨_,_,path,(streams_reassembled path ?_).1,rfl⟩
  have next : frames.next [0,0,0,0,0,8,0,1] = .frame _ [] := rfl
  have ends : (frames.split [0,0,0,0,0,8,0,1]).2 = .waiting [] := by
    rw [frames.split_frame next,frames.split_nil]
  intro t member
  rcases List.mem_cons.mp member with rfl | member
  · refine ⟨fun e inside answer readable => ?_,by decide⟩
    cases readable
  · rcases List.mem_cons.mp member with rfl | member
    · refine ⟨fun e inside answer readable => ?_,by decide⟩
      cases readable
    · cases List.mem_singleton.mp member
      refine ⟨fun e inside answer readable => ?_,by decide⟩
      rcases List.mem_cons.mp inside with rfl | inside
      · cases readable
      · cases List.mem_singleton.mp inside
        cases readable
        exact ⟨_,rfl,ends⟩

-- The frames of a stream, the last of them perhaps not complete.
def FrameStream (bytes : List UInt8) : Prop :=
  ∃ fs : List (List UInt8), bytes <+: fs.flatten ∧ ∀ f ∈ fs, NetPacket.ntohs f 4 = f.length ∧ 8 ≤ f.length ∧ f.length ≤ 2000

-- Half a frame of one session stays in the shared packet, and the next session's
-- frame is appended to it.
theorem streams_mixed :
    ¬ ∀ (taken : List (Transition (TcpSocket Listener) Outside)) (last : TcpSocket Listener),
      Path ServerStep created taken last → (∀ e ∈ last.sessions ++ last.gone, FrameStream e.received) → Reassembled last := by
  intro claim
  have returned : (two ⟨5,⟨0⟩,[],[],false⟩ ⟨6,⟨0⟩,[],[],false⟩).processServer (reading [(5,[0,0,0,0]),(6,[0,8,0,0,0,8,4,4])]) =
      some (two ⟨5,⟨0⟩,[0,0,0,0],[],false⟩ ⟨6,⟨0⟩,[0,8,0,0,0,8,4,4],[[0,0,0,0,0,8,0,0]],false⟩) := rfl
  have path := Path.step two_accepted (.call returned)
  have mixed := claim _ _ path ?_ ⟨6,⟨0⟩,[0,8,0,0,0,8,4,4],[[0,0,0,0,0,8,0,0]],false⟩ (.tail _ (.head _))
  · have next : frames.next [0,8,0,0,0,8,4,4] = .frame [0,8,0,0,0,8,4,4] [] := rfl
    rw [frames.split_frame next,frames.split_nil] at mixed
    cases mixed
  · intro e member
    rcases List.mem_cons.mp member with rfl | member
    · refine ⟨[[0,0,0,0,0,8,7,7]],⟨[0,8,7,7],rfl⟩,?_⟩
      intro f inside
      rw [List.mem_singleton.mp inside]
      decide
    · cases List.mem_singleton.mp member
      refine ⟨[[0,8,0,0,0,8,4,4]],⟨[],rfl⟩,?_⟩
      intro f inside
      rw [List.mem_singleton.mp inside]
      decide

end TcpSocket
end PcNetwork.Netlib
