import PcNetwork.Netlib.Streams
import PcNetwork.Netlib.NetSession

namespace PcNetwork.Netlib
variable {T : Type} [Session T]

-- An fd_set of winsock: the sockets in it, FD_SETSIZE of them at most.
def fdSetSize : Nat := 64

def fdSet (socket : Nat) (set : List Nat) : List Nat :=
  if socket ∈ set then set else if set.length < fdSetSize then set ++ [socket] else set

theorem fdSet_mem {set : List Nat} (member : h ∈ fdSet socket set) : h ∈ set ∨ h = socket := by
  unfold fdSet at member
  split at member
  · exact .inl member
  · split at member
    · simpa using member
    · exact .inl member

-- TCP_Socket with its listening socket, where INVALID_SOCKET is `none`, the SELECT_BAK
-- sets, and the handles that are open in the system.
structure Server (T : Type) where
  tcp : TcpSocket T
  socket : Option Nat
  readFDs : List Nat
  writeFDs : List Nat
  exceptFDs : List Nat
  handles : List Nat

-- What the system answers to CreateServer.
structure Opening where
  socket : Option Nat
  binds : Bool
  listens : Bool

namespace Server

def created : Server T := ⟨TcpSocket.created,none,[],[],[],[]⟩

def closeHandles (s : Server T) (closed : List Nat) : Server T := {s with handles := s.handles.filter (· ∉ closed)}

-- Every session sends NLIBP_DISCONNECT and is deleted.
def cleanupAllSession (s : Server T) : Server T :=
  let left := s.tcp.sessions.map fun e =>
    {e with session := Session.send e.session (NetPacket.new.setCmd nlibpDisconnect)}
  {s with tcp := {s.tcp with sessions := [],gone := s.tcp.gone ++ left}}.closeHandles (s.tcp.sessions.map Entry.socket)

def closeListening (s : Server T) : Server T := {s.closeHandles s.socket.toList with socket := none}

def shutdown (s : Server T) : Server T := s.cleanupAllSession.closeListening

-- CreateServer from socket() on.
def listen (s : Server T) (o : Opening) : Bool × Server T :=
  match o.socket with
  | none => (false,{s with socket := none})
  | some socket =>
    let s := {s with socket := some socket,handles := socket :: s.handles}
    if o.binds = false ∨ o.listens = false then (false,s.closeListening)
    else (true,{s with readFDs := fdSet socket s.readFDs})

def createServer (s : Server T) (o : Opening) : Bool × Server T :=
  let s := if s.socket.isSome then s.shutdown else s
  s.listen o

-- The session is named by its socket.
def closeSession (s : Server T) (socket : Nat) : Server T :=
  {s with tcp := {s.tcp with
    sessions := s.tcp.sessions.filter fun e : Entry T => e.socket ≠ socket
    gone := s.tcp.gone ++ s.tcp.sessions.filter fun e : Entry T => e.socket = socket}}.closeHandles [socket]

-- The FD_SETs of CreateSession. `made` is the handle that the constructor of the session
-- takes, which accept's overwrites.
def opens (s : Server T) (made accepted : Option Nat) : Server T :=
  {s with
    readFDs := accepted.toList.foldr fdSet s.readFDs
    writeFDs := accepted.toList.foldr fdSet s.writeFDs
    exceptFDs := accepted.toList.foldr fdSet s.exceptFDs
    handles := accepted.toList ++ made.toList ++ s.handles}

-- `answer` is what accept gives on the listening socket. The handle 0 is an error.
def createSession (s : Server T) (times : List UInt32) (made answer : Option Nat) : Server T :=
  let accepted := if s.socket.isSome then answer.filter (· ≠ 0) else none
  {s with tcp := ({s.tcp with times} : TcpSocket T).createSession {(default : Outside) with accepts := some accepted}}.opens made accepted

-- What ProcessServer finds out about its sockets: select looks at the ones in the sets.
def outside (s : Server T) (o : Outside) : Outside :=
  {o with
    accepts := if s.socket.any (· ∈ s.readFDs) then o.accepts.map (Option.filter (· ≠ 0)) else none
    writable := fun socket => decide (socket ∈ s.writeFDs) && o.writable socket
    readable := fun socket => if socket ∈ s.readFDs then o.readable socket else none}

-- Whether it calls CreateSession, and the handle of the new session.
def makes (s : Server T) (o : Outside) : Bool := o.selects && (s.outside o).accepts.isSome
def accepted (s : Server T) (o : Outside) : Option Nat := if o.selects then (s.outside o).accepts.join else none

def processServer (s : Server T) (o : Outside) (made : Option Nat) : Option (Server T) :=
  match s.tcp.processServer (s.outside o) with
  | none => none
  | some tcp =>
    let closed := (tcp.gone.drop s.tcp.gone.length).map Entry.socket
    some (({s with tcp}.opens (if s.makes o then made else none) (s.accepted o)).closeHandles closed)

end Server

namespace TcpSocket

theorem readAnswers_readable {e : Entry T} {times : List UInt32} (closes : true ∈ readAnswers o e shared times) :
    (o.readable e.socket).isSome := by
  unfold readAnswers at closes
  split at closes
  · cases closes
  · rename_i found
    rw [found]
    rfl

theorem visit_sockets {sessions : List (Entry T)} {shared : NetPacket} {times : List UInt32}
    (ran : visit o sessions shared times = some (stay,close,clock)) :
    (∀ h ∈ sessions.map Entry.socket, h ∈ stay.map Entry.socket ∨ h ∈ close.map Entry.socket) ∧
    ∀ h ∈ close.map Entry.socket, (o.readable h).isSome := by
  induction sessions generalizing shared times stay close clock with
  | nil =>
    cases ran
    exact ⟨nofun,nofun⟩
  | cons e rest ih =>
    have ready : (if o.writable e.socket then sendNext e else e).socket = e.socket := by
      split
      · exact (sendNext_entry e).1
      · rfl
    unfold visit at ran
    split at ran
    · cases ran
    · rename_i next after closes later read
      have same := (readSession_socket read).trans ready
      have closed (closing : closes = true) := readAnswers_readable ((readSession_answers read).1.mp closing)
      rw [ready] at closed
      split at ran
      · cases ran
      · rename_i staying gone last visited
        obtain ⟨kept,readable⟩ := ih visited
        cases closes with
        | false =>
          cases ran
          refine ⟨?_,readable⟩
          simp only [List.map_cons,List.mem_cons,same]
          rintro h (rfl | old)
          · exact .inl (.inl rfl)
          · exact (kept h old).imp_left .inr
        | true =>
          cases ran
          simp only [List.map_cons,List.mem_cons,same]
          constructor
          · rintro h (rfl | old)
            · exact .inr (.inl rfl)
            · exact (kept h old).imp_right .inr
          · rintro h (rfl | old)
            · exact closed rfl
            · exact readable h old

omit [Session T] in
theorem insertEntry_sockets (e : Entry T) (sessions : List (Entry T)) :
    e.socket ∈ (insertEntry e sessions).map Entry.socket ∧
    ∀ h ∈ sessions.map Entry.socket, h ∈ (insertEntry e sessions).map Entry.socket := by
  induction sessions with
  | nil => simp [insertEntry]
  | cons x rest ih =>
    obtain ⟨new,old⟩ := ih
    unfold insertEntry
    split
    · exact ⟨List.mem_cons_self,fun h member => List.mem_cons_of_mem _ member⟩
    · split
      · rename_i same
        simp [same]
      · simp only [List.map_cons,List.mem_cons]
        refine ⟨.inr new,?_⟩
        rintro h (rfl | later)
        · exact .inl rfl
        · exact .inr (old h later)

theorem createSession_sockets (s : TcpSocket T) (o : Outside) :
    (s.createSession o).gone = s.gone ∧
    (∀ h ∈ s.sessions.map Entry.socket, h ∈ (s.createSession o).sessions.map Entry.socket) ∧
    ∀ h, o.accepts.join = some h → h ∈ (s.createSession o).sessions.map Entry.socket := by
  unfold createSession
  cases o.accepts with
  | none => exact ⟨rfl,fun h member => member,nofun⟩
  | some answer =>
    cases answer with
    | none => exact ⟨rfl,fun h member => member,nofun⟩
    | some socket =>
      obtain ⟨new,old⟩ := insertEntry_sockets (⟨socket,Session.timeSet Session.new s.getTime.1,[],[],false⟩ : Entry T) s.sessions
      refine ⟨rfl,old,?_⟩
      intro h found
      cases found
      exact new

theorem checkTime_sockets (s : TcpSocket T) :
    s.checkTime.gone = s.gone ∧ s.checkTime.sessions.map Entry.socket = s.sessions.map Entry.socket := by
  have checked : ∀ (s : TcpSocket T) t, (s.checkConnect t).sessions.map Entry.socket = s.sessions.map Entry.socket := by
    intro s t
    simp [checkConnect]
  unfold checkTime getTime
  dsimp only
  split
  · split
    · exact ⟨rfl,checked _ _⟩
    · exact ⟨rfl,rfl⟩
  · split
    · exact ⟨rfl,checked _ _⟩
    · exact ⟨rfl,rfl⟩

-- The sessions that leave the map are those that a received packet closes.
theorem processServer_sockets {s next : TcpSocket T} (returned : s.processServer o = some next) :
    ∃ close, next.gone = s.gone ++ close ∧ close.map Entry.socket = s.closings o ∧
    (∀ h, h ∈ s.sessions.map Entry.socket ∨ (o.selects = true ∧ o.accepts.join = some h) →
      h ∈ next.sessions.map Entry.socket ∨ h ∈ close.map Entry.socket) ∧
    ∀ h ∈ close.map Entry.socket, (o.readable h).isSome := by
  unfold processServer at returned
  unfold closings answers
  dsimp only at returned ⊢
  split at returned
  · rename_i selects
    rw [if_pos selects]
    obtain ⟨gone,old,new⟩ := createSession_sockets ({s with times := o.times} : TcpSocket T) o
    split at returned
    · cases returned
    · rename_i stay close clock visited
      obtain ⟨kept,readable⟩ := visit_sockets visited
      cases returned
      obtain ⟨later,same⟩ := checkTime_sockets
        ({({s with times := o.times} : TcpSocket T).createSession o with
          sessions := stay,gone := (({s with times := o.times} : TcpSocket T).createSession o).gone ++ close,times := clock} : TcpSocket T)
      refine ⟨close,later.trans (congrArg (· ++ close) gone),visit_closing visited,?_,readable⟩
      intro h member
      rw [same]
      exact kept h (member.elim (old h) fun found => new h found.2)
  · rename_i idle
    rw [if_neg idle]
    cases returned
    obtain ⟨later,same⟩ := checkTime_sockets ({s with times := o.times} : TcpSocket T)
    refine ⟨[],later.trans (List.append_nil _).symm,rfl,?_,nofun⟩
    rintro h (member | ⟨selects,_⟩)
    · rw [same]
      exact .inl member
    · exact absurd selects idle

end TcpSocket

inductive ServerOp where
  | createServer (o : Opening)
  | createSession (times : List UInt32) (made answer : Option Nat)
  | closeSession (socket : Nat)
  | cleanupAllSession
  | shutdown
  | processServer (o : Outside) (made : Option Nat)

-- The system gives no handle that is open.
def Fresh (handles : List Nat) (answer : Option Nat) : Prop := ∀ h, answer = some h → h ∉ handles

inductive ServerCall : Server T → ServerOp → Server T → Prop where
  | createServer (fresh : Fresh (if s.socket.isSome then s.shutdown else s).handles o.socket) :
      ServerCall s (.createServer o) (s.createServer o).2
  | createSession (fresh : Fresh s.handles made) (other : Fresh (made.toList ++ s.handles) answer) :
      ServerCall s (.createSession times made answer) (s.createSession times made answer)
  | closeSession (there : socket ∈ s.tcp.sessions.map Entry.socket) : ServerCall s (.closeSession socket) (s.closeSession socket)
  | cleanupAllSession : ServerCall s .cleanupAllSession s.cleanupAllSession
  | shutdown : ServerCall s .shutdown s.shutdown
  | processServer (fresh : Fresh s.handles made) (other : Fresh (made.toList ++ s.handles) (s.accepted o))
      (returned : s.processServer o made = some next) : ServerCall s (.processServer o made) next

namespace Server

def listed (s : Server T) (h : Nat) : Prop := h ∈ s.readFDs ∨ h ∈ s.writeFDs ∨ h ∈ s.exceptFDs

-- The open listening socket, or the open socket of a session in m_map_session.
structure InUse (s : Server T) (h : Nat) : Prop where
  isOpen : h ∈ s.handles
  owner : s.socket = some h ∨ h ∈ s.tcp.sessions.map Entry.socket

def Listing (s : Server T) : Prop := ∀ h, s.listed h → s.InUse h

-- The handles that a call closes, of those that were open before it.
def closes (s : Server T) : ServerOp → List Nat
  | .createServer _ => if s.socket.isSome then s.tcp.sessions.map Entry.socket ++ s.socket.toList else []
  | .createSession .. => []
  | .closeSession socket => [socket]
  | .cleanupAllSession => s.tcp.sessions.map Entry.socket
  | .shutdown => s.tcp.sessions.map Entry.socket ++ s.socket.toList
  | .processServer o _ => s.tcp.closings (s.outside o)

-- No call closes a handle that is in a set.
def Meets (s : Server T) (op : ServerOp) : Prop := ∀ h ∈ s.closes op, ¬ s.listed h

omit [Session T] in
theorem shutdown_unlisted {s : Server T} (listing : Listing s)
    (meets : ∀ h ∈ s.tcp.sessions.map Entry.socket ++ s.socket.toList, ¬ s.listed h) (h : Nat) : ¬ s.listed h := by
  intro member
  rcases (listing h member).owner with listens | session
  · exact meets h (List.mem_append_right _ (by simp [listens])) member
  · exact meets h (List.mem_append_left _ session) member

theorem cleanupAllSession_listing {s : Server T} (listing : Listing s) (meets : Meets s .cleanupAllSession) :
    Listing s.cleanupAllSession := by
  intro h member
  obtain ⟨there,owner⟩ := listing h member
  have kept : h ∉ s.tcp.sessions.map Entry.socket := fun session => meets h session member
  refine ⟨List.mem_filter.mpr ⟨there,decide_eq_true kept⟩,?_⟩
  exact .inl (owner.resolve_right kept)

theorem closeSession_listing {s : Server T} {socket : Nat} (listing : Listing s) (meets : Meets s (.closeSession socket)) :
    Listing (s.closeSession socket) := by
  intro h member
  obtain ⟨there,owner⟩ := listing h member
  have other : h ≠ socket := by
    rintro rfl
    exact meets h (List.mem_singleton.mpr rfl) member
  refine ⟨List.mem_filter.mpr ⟨there,by simpa using other⟩,owner.imp_right ?_⟩
  intro session
  obtain ⟨e,inside,rfl⟩ := List.mem_map.mp session
  exact List.mem_map.mpr ⟨e,List.mem_filter.mpr ⟨inside,by simpa using other⟩,rfl⟩

-- A handle in a set after an accept is one from before or the new one.
omit [Session T] in
theorem opens_listed {s : Server T} {made accepted : Option Nat} (member : (s.opens made accepted).listed h) : s.listed h ∨ accepted = some h := by
  cases accepted with
  | none => exact .inl member
  | some socket =>
    have new : h = socket → some socket = some h := fun same => by rw [same]
    rcases member with read | write | except
    · exact (fdSet_mem read).imp .inl new
    · exact (fdSet_mem write).imp (fun old => .inr (.inl old)) new
    · exact (fdSet_mem except).imp (fun old => .inr (.inr old)) new

theorem createSession_listing {s : Server T} {answer : Option Nat} (listing : Listing s) : Listing (s.createSession times made answer) := by
  obtain ⟨_,old,new⟩ := TcpSocket.createSession_sockets ({s.tcp with times} : TcpSocket T)
    {(default : Outside) with accepts := some (if s.socket.isSome then answer.filter (· ≠ 0) else none)}
  intro h member
  rcases opens_listed member with before | found
  · obtain ⟨there,owner⟩ := listing h before
    exact ⟨List.mem_append_right _ there,owner.imp_right (old h)⟩
  · refine ⟨List.mem_append_left _ (List.mem_append_left _ ?_),.inr (new h found)⟩
    rw [found]
    exact List.mem_singleton.mpr rfl

theorem processServer_listing {s next : Server T} (listing : Listing s) (meets : Meets s (.processServer o made))
    (other : Fresh (made.toList ++ s.handles) (s.accepted o)) (returned : s.processServer o made = some next) :
    Listing next := by
  unfold processServer at returned
  cases ran : s.tcp.processServer (s.outside o) with
  | none =>
    rw [ran] at returned
    cases returned
  | some tcp =>
    rw [ran] at returned
    cases returned
    obtain ⟨close,gone,closings,kept,readable⟩ := TcpSocket.processServer_sockets ran
    have closed : (tcp.gone.drop s.tcp.gone.length).map Entry.socket = close.map Entry.socket := by
      rw [gone,List.drop_left' rfl]
    rw [closed]
    have stays : ∀ h, h ∉ close.map Entry.socket → h ∈ tcp.sessions.map Entry.socket ∨ h ∈ close.map Entry.socket →
        h ∈ tcp.sessions.map Entry.socket := fun h still session => session.resolve_right still
    intro h member
    have grown : ({s with tcp}.opens (if s.makes o then made else none) (s.accepted o)).listed h := member
    rcases opens_listed grown with before | found
    · obtain ⟨there,owner⟩ := listing h before
      have still : h ∉ close.map Entry.socket := by
        intro leaves
        rw [closings] at leaves
        exact meets h leaves before
      refine ⟨List.mem_filter.mpr ⟨List.mem_append_right _ there,decide_eq_true still⟩,owner.imp_right ?_⟩
      exact fun session => stays h still (kept h (.inl session))
    · -- a new socket is not in the sets yet, so nothing was read from it
      have unknown : h ∉ s.handles := fun there => other h found (List.mem_append_right _ there)
      have still : h ∉ close.map Entry.socket := by
        intro leaves
        have read := readable h leaves
        unfold outside at read
        dsimp only at read
        split at read
        · rename_i inSet
          exact unknown (listing h (.inl inSet)).isOpen
        · cases read
      have answered : o.selects = true ∧ (s.outside o).accepts.join = some h := by
        unfold accepted at found
        split at found
        · rename_i selects
          exact ⟨selects,found⟩
        · cases found
      refine ⟨List.mem_filter.mpr ⟨?_,decide_eq_true still⟩,.inr (stays h still (kept h (.inr answered)))⟩
      refine List.mem_append_left _ (List.mem_append_left _ ?_)
      rw [found]
      exact List.mem_singleton.mpr rfl

-- CreateServer when there is no listening socket, or none any more.
omit [Session T] in
theorem listen_listing {s : Server T} {o : Opening} (listing : Listing s) (idle : s.socket = none) (fresh : Fresh s.handles o.socket) :
    Listing (s.listen o).2 := by
  have session : ∀ h, s.listed h → h ∈ s.handles ∧ h ∈ s.tcp.sessions.map Entry.socket := by
    intro h member
    obtain ⟨there,owner⟩ := listing h member
    refine ⟨there,owner.resolve_left ?_⟩
    rw [idle]
    nofun
  unfold listen
  cases answer : o.socket with
  | none => exact fun h member => ⟨(session h member).1,.inr (session h member).2⟩
  | some socket =>
    dsimp only
    split
    · intro h member
      obtain ⟨there,owner⟩ := session h member
      have other : h ≠ socket := by
        rintro rfl
        exact fresh h answer there
      exact ⟨List.mem_filter.mpr ⟨List.mem_cons_of_mem _ there,by simpa using other⟩,.inr owner⟩
    · intro h member
      have either : s.listed h ∨ h = socket := by
        rcases member with read | write | except
        · exact (fdSet_mem read).imp_left .inl
        · exact .inl (.inr (.inl write))
        · exact .inl (.inr (.inr except))
      rcases either with before | new
      · obtain ⟨there,owner⟩ := session h before
        exact ⟨List.mem_cons_of_mem _ there,.inr owner⟩
      · rw [new]
        exact ⟨List.mem_cons_self,.inl rfl⟩

theorem createServer_listing {s : Server T} (listing : Listing s) (meets : Meets s (.createServer o))
    (fresh : Fresh (if s.socket.isSome then s.shutdown else s).handles o.socket) : Listing (s.createServer o).2 := by
  unfold createServer
  by_cases running : s.socket.isSome
  · have closes : ∀ h ∈ s.tcp.sessions.map Entry.socket ++ s.socket.toList, ¬ s.listed h := by
      unfold Meets Server.closes at meets
      rwa [if_pos running] at meets
    rw [if_pos running] at fresh ⊢
    have none : Listing s.shutdown := fun h member => absurd member (shutdown_unlisted listing closes h)
    exact listen_listing none rfl fresh
  · rw [if_neg running] at fresh ⊢
    exact listen_listing listing (Option.not_isSome_iff_eq_none.mp running) fresh

theorem call_listing {s next : Server T} (listing : Listing s) (meets : Meets s op) (call : ServerCall s op next) :
    Listing next := by
  cases call with
  | createServer fresh => exact createServer_listing listing meets fresh
  | createSession => exact createSession_listing listing
  | closeSession => exact closeSession_listing listing meets
  | cleanupAllSession => exact cleanupAllSession_listing listing meets
  | shutdown => exact fun h member => absurd member (shutdown_unlisted listing meets h)
  | processServer _ other returned => exact processServer_listing listing meets other returned

-- As long as no handle that is in a set is closed, select is given open handles only.
theorem listed_open (path : Path ServerCall (created : Server T) taken last)
    (met : ∀ t ∈ taken, Meets t.before t.event) : Listing last := by
  have start : Listing (created : Server T) := by
    rintro h (read | write | except)
    · cases read
    · cases write
    · cases except
  exact path.guarded Listing Meets start met fun _ _ _ listing meets call => call_listing listing meets call

open TcpSocket (Listener accepting)

-- A server that listens on 3 and has accepted 5.
def serving : Server Listener := ⟨⟨[⟨5,⟨0⟩,[],[],false⟩],[],0,[]⟩,some 3,[3,5],[5],[5],[5,4,3]⟩

theorem serving_path : ∃ taken, Path ServerCall (created : Server Listener) taken serving ∧ ∀ t ∈ taken, Meets t.before t.event := by
  let listening : Server Listener := ⟨TcpSocket.created,some 3,[3],[],[],[3]⟩
  have listens : ServerCall created (.createServer ⟨some 3,true,true⟩) listening := .createServer nofun
  have fresh : Fresh [3] (some 4) := by
    rintro h ⟨rfl⟩
    decide
  have other : Fresh [4,3] (listening.accepted (accepting 5)) := by
    rintro h ⟨rfl⟩
    decide
  have accepts : ServerCall listening (.processServer (accepting 5) (some 4)) serving := .processServer fresh other rfl
  refine ⟨_,(Path.nil.step listens).step accepts,?_⟩
  intro t member
  rcases List.mem_cons.mp member with rfl | member
  · exact nofun
  · cases List.mem_singleton.mp member
    exact nofun

theorem listed_open_accepted : Listing serving := by
  obtain ⟨taken,path,met⟩ := serving_path
  exact listed_open path met

-- CloseSession closes the socket and leaves it in the sets.
theorem listed_closed :
    ¬ ∀ (taken : List (Transition (Server Listener) ServerOp)) (last : Server Listener),
      Path ServerCall created taken last → Listing last := by
  intro claim
  obtain ⟨taken,path,_⟩ := serving_path
  have closes : ServerCall serving (.closeSession 5) (serving.closeSession 5) := .closeSession (List.mem_singleton.mpr rfl)
  have there := (claim _ _ (path.step closes) 5 (.inl (.tail _ (.head _)))).isOpen
  revert there
  decide

end Server
end PcNetwork.Netlib
