import PcNetwork.NetSelect.EventLoop
import PcNetwork.Library.Path

namespace PcNetwork.NetSelect.SelectService

inductive SelectEvent where
  | listen (a : ListenAnswer)
  | connectPeer (c : Option Connection)
  | send (index : Nat) (serial : UInt64) (buf : List UInt8)
  | closePeer (index : Nat) (serial : UInt64)
  | eventLoop (o : Outside)

-- A call of the service, and what the application does in the callbacks within it.
structure SelectInput where
  event : SelectEvent
  scripts : List Script

def run : SelectEvent → Select Unit
  | .listen a => listen a
  | .connectPeer c => do let _ ← connectPeer c
  | .send index serial buf => send index serial buf
  | .closePeer index serial => closePeer index serial
  | .eventLoop o => eventLoop o

def scripted (s : SelectService) (scripts : List Script) : SelectService := {s with scripts}

-- A handle given by socket, connect or accept is not in use.
def Possible (s : SelectService) : SelectEvent → Prop
  | .listen a => a.socket ≠ invalidSocket → Fresh s a.socket
  | .connectPeer (some c) => c.socket ≠ invalidSocket → Fresh s c.socket
  | .eventLoop o => o.accepted.socket ≠ invalidSocket → Fresh s o.accepted.socket
  | .connectPeer none | .send _ _ _ | .closePeer _ _ => True

inductive SelectStep : SelectService → SelectInput → SelectService → Prop where
  | call (possible : Possible s input.event)
      (survives : ∀ t, run input.event (s.scripted input.scripts) ≠ .error .nullPointer t) :
      SelectStep s input (final (run input.event (s.scripted input.scripts)))

-- No callback to come closes a peer or refuses one, and what they send fits.
structure Mild (s : SelectService) : Prop where
  gentle : ∀ script ∈ s.scripts, 0 ≤ script.ret ∧ ∀ call ∈ script.calls, Stale s call
  fits : ∀ i, (s.peers i).writeBuf.writeIndex.toNat+s.load < 2^31

-- The read set takes one socket more, and onCon does not close the new peer.
structure Takes (s : SelectService) : Prop where
  room : s.readBak.length < fdSetSize
  spared : ∀ script ∈ s.scripts, ∀ call ∈ script.calls, call ≠ .closePeer s.getFreeIndex.1 s.serial

def SteadyCall (s : SelectService) : SelectEvent → Prop
  | .listen _ => s.listenSocket ∉ s.readBak
  | .connectPeer none => True
  | .connectPeer (some c) => c.socket ≠ invalidSocket → Mild s ∧ Takes s
  | .send _ _ buf => ∀ i, (s.peers i).writeBuf.writeIndex.toNat+buf.length < 2^31
  | .closePeer index serial => Stale s (.closePeer index serial)
  | .eventLoop o => ∀ reads writes, o.ready = some (reads,writes) →
      Mild (s.polled reads writes) ∧ Answered o (s.polled reads writes) ∧
      (s.listenSocket ∈ (s.polled reads writes).readUse → o.accepted.socket ≠ invalidSocket → Takes (s.polled reads writes))

-- Nothing closes a live peer, the read set never overflows, and listen is not repeated
-- once its socket is in the read set.
def Steady (s : SelectService) (input : SelectInput) : Prop := SteadyCall (s.scripted input.scripts) input.event

theorem Mild.calm (mild : Mild s) (buffers : ∀ i, (s.peers i).writeBuf.Ok) : Calm s :=
  ⟨mild.gentle,fun i => ⟨buffers i,mild.fits i⟩⟩

theorem listen_keeps (a : ListenAnswer) (s : SelectService) : final (listen a s) = {s with listenSocket := a.socket} := by
  have start : listen a s = (if a.socket = invalidSocket then throw (.exception s!"Error at socket(): {a.error}\n")
    else if a.bound = false then throw (.exception "bind failed.")
    else if a.buffered = false then throw (.exception s!"setsockopt(SNDBUF) failed: {a.error}\n")
    else if a.listening = false then throw (.exception s!"listen() failed: {a.error}\n")
    else pure () : Select Unit) {s with listenSocket := a.socket} := rfl
  rw [start]
  split
  · rfl
  split
  · rfl
  split
  · rfl
  split <;> rfl

theorem Books.listen (books : Books s) {socket : Int} (fresh : socket ≠ invalidSocket → Fresh s socket)
    (first : s.listenSocket ∉ s.readBak) : Books {s with listenSocket := socket} where
  once := books.once
  online := books.online
  reads sd := by
    show (sd ∈ s.readBak ∧ sd ≠ socket) ↔ s.Owned sd
    constructor
    · rintro ⟨member,_⟩
      exact (books.reads sd).mp ⟨member,fun same => first (same ▸ member)⟩
    · intro owned
      have member := ((books.reads sd).mpr owned).1
      refine ⟨member,?_⟩
      rintro rfl
      have valid : sd ≠ invalidSocket := fun same => books.valid.1 (same ▸ member)
      exact (fresh valid).unowned owned
  writes := books.writes
  valid := books.valid
  handed := books.handed

theorem run_orderly {event : SelectEvent} (books : Books s) (buffers : ∀ i, (s.peers i).writeBuf.Ok)
    (possible : Possible s event) (steady : SteadyCall s event) : Orderly (run event s) := by
  cases event with
  | listen a =>
    right
    show Sound (final (listen a s))
    rw [listen_keeps]
    exact ⟨books.listen possible steady,buffers⟩
  | connectPeer c =>
    cases c with
    | none => exact .inr ⟨books,buffers⟩
    | some c =>
      by_cases valid : c.socket = invalidSocket
      · have refused : run (.connectPeer (some c)) s = .ok () s := by
          show ((if c.socket = invalidSocket then return false
            else do registerSocket c.socket c.remoteIp c.remotePort; return true : Select Bool) >>= fun _ => pure ()) s = _
          rw [if_pos valid]
          rfl
        rw [refused]
        exact .inr ⟨books,buffers⟩
      · obtain ⟨mild,takes⟩ := steady valid
        have start : run (.connectPeer (some c)) s =
            ((registerSocket c.socket c.remoteIp c.remotePort >>= fun _ => pure true) >>= fun _ => pure () : Select Unit) s := by
          show ((if c.socket = invalidSocket then return false
            else do registerSocket c.socket c.remoteIp c.remotePort; return true : Select Bool) >>= fun _ => pure ()) s = _
          rw [if_neg valid]
        rw [start,bind_assoc]
        rcases registerSocket_books books (mild.calm buffers) valid ⟨possible valid,takes.room,takes.spared⟩ c.remoteIp
          c.remotePort with ⟨t,null⟩ | ⟨t,ran,books,calm,_⟩
        · rw [bind_error null]
          exact .inl ⟨t,rfl⟩
        · rw [bind_ok ran]
          exact .inr ⟨books,fun i => (calm.room i).1⟩
  | send index serial buf =>
    right
    have ran : Ran s 0 none (send index serial buf s) := send_ran (fun i => ⟨buffers i,steady i⟩) index serial none
    exact ⟨books.quiet ran.quiet,fun i => (ran.room i).1⟩
  | closePeer index serial =>
    show Orderly (closePeer index serial s)
    rcases closePeer_stale steady with same | null
    · rw [same]
      exact .inr ⟨books,buffers⟩
    · rw [null]
      exact .inl ⟨s,rfl⟩
  | eventLoop o =>
    refine eventLoop_orderly books buffers fun reads writes ready => ?_
    obtain ⟨mild,answered,takes⟩ := steady reads writes ready
    refine ⟨mild.calm buffers,answered,fun accepts valid => ?_⟩
    obtain ⟨room,spared⟩ := takes accepts valid
    obtain ⟨unowned,apart⟩ := possible valid
    exact ⟨⟨unowned,apart⟩,room,spared⟩

theorem Books.scripted (books : Books s) (scripts : List Script) : Books (s.scripted scripts) :=
  books.quiet ⟨rfl,rfl,rfl,rfl,rfl,rfl,fun _ => rfl,fun _ => rfl,fun _ => .inl,fun _ => id⟩

theorem Possible.scripted {event : SelectEvent} {scripts : List Script} (possible : Possible s event) :
    Possible (s.scripted scripts) event := by
  cases event with
  | listen | eventLoop => exact fun valid => ⟨(possible valid).unowned,(possible valid).apart⟩
  | connectPeer c =>
    cases c with
    | none => exact possible
    | some c => exact fun valid => ⟨(possible valid).unowned,(possible valid).apart⟩
  | send | closePeer => exact possible

theorem selectStep_sound (sound : Sound s) (steady : Steady s input) (step : SelectStep s input t) : Sound t := by
  cases step with
  | call possible survives =>
    rcases run_orderly (sound.books.scripted input.scripts) sound.buffers possible.scripted steady with ⟨u,null⟩ | sound
    · exact absurd null (survives u)
    · exact sound

theorem new_sound : Sound new where
  books := {
    once := List.nodup_nil
    online i := ⟨(nomatch ·),fun ⟨_,valid⟩ => absurd rfl valid⟩
    reads sd := ⟨fun ⟨member,_⟩ => (nomatch member),fun ⟨_,member,_⟩ => (nomatch member)⟩
    writes := nofun
    valid := ⟨nofun,nofun,nofun,nofun⟩
    handed := nofun }
  buffers _ := SockBuf.new_ok (by decide)

-- In every run whose calls are steady the peer list, the sockets and the four sets agree.
theorem select_books (path : Path SelectStep new taken last) (steady : ∀ t ∈ taken, Steady t.before t.event) : Books last :=
  (path.guarded Sound Steady new_sound steady fun _ _ _ sound steady step => selectStep_sound sound steady step).books

def connected : SelectInput := ⟨.connectPeer (some ⟨5,"127.0.0.1",80⟩),[]⟩

theorem connected_step : SelectStep new connected (final (run connected.event (new.scripted []))) := by
  have ran : run connected.event (new.scripted []) = .ok () _ := rfl
  exact .call (fun _ => ⟨fun ⟨_,member,_⟩ => (nomatch member),by decide⟩) (by rw [show connected.scripts = [] from rfl,ran]; nofun)

-- The process survives a call.
def survives : EStateM.Result Fault SelectService Unit → Bool
  | .error .nullPointer _ => false
  | .error (.exception _) _ | .ok _ _ => true

theorem survives_ne {r : EStateM.Result Fault SelectService Unit} (lives : survives r = true) (t : SelectService) :
    r ≠ .error .nullPointer t := by
  rintro rfl
  cases lives

-- onCon of a connection sends two bytes, and the service listens. In a round of the loop a
-- second connection is accepted, a byte is received from the first one and the two are sent.
def greeting : SelectInput := ⟨.connectPeer (some ⟨5,"127.0.0.1",80⟩),[⟨[.send 0 0 [1,2]],0⟩]⟩
def opened : SelectInput := ⟨.listen ⟨3,true,true,true,0⟩,[]⟩
def round : SelectInput := ⟨.eventLoop ⟨some (fun _ => true,fun _ => true),⟨6,"127.0.0.1",81⟩,fun _ => some [9],fun _ => some 2,0⟩,
  [⟨[],0⟩,⟨[],0⟩]⟩
def greeted : SelectService := final (run greeting.event (new.scripted greeting.scripts))
def listening : SelectService := final (run opened.event (greeted.scripted opened.scripts))
def served : SelectService := final (run round.event (listening.scripted round.scripts))

theorem greeting_steady : Steady new greeting := by
  refine fun _ => ⟨⟨fun script member => ?_,fun _ => (by decide : (0 : UInt32).toNat+2 < 2^31)⟩,by decide,fun script member call among => ?_⟩
  · cases List.mem_singleton.mp member
    refine ⟨by decide,fun call among => ?_⟩
    cases List.mem_singleton.mp among
    trivial
  · cases List.mem_singleton.mp member
    cases List.mem_singleton.mp among
    intro same
    cases same

theorem round_steady : Steady listening round := by
  rintro reads writes ⟨⟩
  have idle : ∀ script ∈ round.scripts, script = ⟨[],0⟩ := by
    intro script member
    simpa [round] using member
  refine ⟨⟨fun script member => ?_,fun i => ?_⟩,⟨fun _ _ _ => ⟨[9],rfl,by decide⟩,fun _ _ => Option.some_ne_none _⟩,fun _ _ => ⟨by decide +kernel,?_⟩⟩
  · rw [idle script member]
    exact ⟨Int.le_refl 0,List.forall_mem_nil _⟩
  · show (listening.peers i).writeBuf.writeIndex.toNat+0 < 2^31
    by_cases first : i = 0
    · subst first
      decide +kernel
    · have empty : listening.peers i = default := by
        change (if i = 0 then _ else if i = 0 then _ else if i = 0 then _ else _) = _
        rw [if_neg first,if_neg first,if_neg first]
        rfl
      rw [empty]
      decide +kernel
  · intro script member
    rw [idle script member]
    exact List.forall_mem_nil _

theorem select_books_connected : ∃ taken, Path SelectStep new taken served ∧ served.readBak = [5,3,6] ∧ served.onlinePeerSet = [0,1] ∧
    Books served := by
  have first : SelectStep new greeting greeted :=
    .call (fun _ => ⟨(by decide : ¬ ∃ i ∈ new.onlinePeerSet, (new.peers i).socket = 5),by decide⟩) (survives_ne (by decide +kernel))
  have second : SelectStep greeted opened listening :=
    .call (fun _ => ⟨(by decide +kernel : ¬ ∃ i ∈ greeted.onlinePeerSet, (greeted.peers i).socket = 3),by decide +kernel⟩)
      (survives_ne (by decide +kernel))
  have third : SelectStep listening round served :=
    .call (fun _ => ⟨(by decide +kernel : ¬ ∃ i ∈ listening.onlinePeerSet, (listening.peers i).socket = 6),by decide +kernel⟩)
      (survives_ne (by decide +kernel))
  have path := ((Path.nil.step first).step second).step third
  refine ⟨_,path,by decide +kernel,by decide +kernel,select_books path fun t member => ?_⟩
  simp only [List.mem_append,List.mem_singleton,List.not_mem_nil,false_or] at member
  obtain (rfl | rfl) | rfl := member
  · exact greeting_steady
  · exact (by decide +kernel : (greeted.scripted []).listenSocket ∉ (greeted.scripted []).readBak)
  · exact round_steady

-- A connection is closed again: socket 5 is neither closed nor taken out of the read set.
theorem select_books_broken : ∃ taken last, Path SelectStep new taken last ∧ taken.length = 2 ∧
    5 ∈ last.readBak ∧ 5 ≠ last.listenSocket ∧ ¬ last.Owned 5 ∧ 5 ∈ last.registered ∧ last.closed.count 5 = 0 ∧ ¬ Books last := by
  let s := final (run connected.event (new.scripted []))
  have ran : run (.closePeer 0 0) (s.scripted []) = .ok () _ := rfl
  have closes : SelectStep s ⟨.closePeer 0 0,[]⟩ _ := .call trivial (by rw [ran]; nofun)
  have unowned : ¬ (final (run (.closePeer 0 0) (s.scripted []))).Owned 5 := fun ⟨_,member,_⟩ => (nomatch member)
  refine ⟨_,_,.step (.step .nil connected_step) closes,rfl,by decide,by decide,unowned,by decide,by decide,fun books => ?_⟩
  exact unowned ((books.reads 5).mp ⟨by decide,by decide⟩)

end PcNetwork.NetSelect.SelectService
