import PcNetwork.Session.WriteRing

namespace PcNetwork.TcpSession

-- What SendPacket and the callbacks may change besides the ring: they never touch
-- the receiving side, and the only move they make is from CONNECTED to DEAD.
structure Outgoing (s t : TcpSession) : Prop where
  toReceiver : t.toReceiver = s.toReceiver
  toSocketIn : t.socket.toSocketIn = s.socket.toSocketIn
  state : t.state = s.state ∨ (s.state = .connected ∧ t.state = .dead)

theorem Outgoing.refl (s : TcpSession) : Outgoing s s := ⟨rfl,rfl,.inl rfl⟩

theorem Outgoing.trans (first : Outgoing s t) (second : Outgoing t u) : Outgoing s u := by
  refine ⟨second.toReceiver.trans first.toReceiver,second.toSocketIn.trans first.toSocketIn,?_⟩
  rcases first.state with same | ⟨live,dead⟩
  · rw [← same]; exact second.state
  · rcases second.state with still | ⟨alive,_⟩
    · exact .inr ⟨live,still.trans dead⟩
    · rw [dead] at alive; cases alive

theorem sendFrom_outgoing (live : s.state = .connected) (off len : Int) :
    Outgoing s (s.sendFrom off len).2 ∧ ((s.sendFrom off len).1 → (s.sendFrom off len).2.state = .connected) := by
  refine ⟨⟨sendFrom_toReceiver _ _ _,sendFrom_socketIn _ _ _,?_⟩,?_⟩
  · unfold sendFrom touch
    dsimp only
    split
    · exact .inl rfl
    · exact .inr ⟨live,rfl⟩
  · unfold sendFrom touch
    dsimp only
    split
    · exact fun _ => live
    · intro taken; cases taken

theorem flushData_outgoing (live : s.state = .connected) : Outgoing s s.flushData := by
  unfold flushData
  split
  · exact .refl s
  · split
    · exact (sendFrom_outgoing live _ _).1
    · obtain ⟨first,taken⟩ := sendFrom_outgoing live s.writeBeg (s.writeBufSize-s.writeBeg)
      dsimp only
      split
      · exact first
      · rename_i more
        split
        · exact first
        · exact first.trans (sendFrom_outgoing (taken (by simpa using more)) _ _).1

theorem pushData_outgoing (s : TcpSession) (buf : List UInt8) : Outgoing s (s.pushData buf).2 := by
  rw [pushData_side]
  exact ⟨rfl,rfl,.inl rfl⟩

-- SendPacket in pieces: the next sequence number, the packet on the wire, and what
-- is kept once it is in the ring.
def numbered (s : TcpSession) : TcpSession := {s with seq := if s.seq+1 > maxNetPacketSeq then 1 else s.seq+1}

def wire (s : TcpSession) (packet : CmdPacket) (sys : Bool) : NetPacket :=
  let pkt := (NetPacket.new.addCmdPacket packet).setSeq s.seq
  if sys then pkt.setSysPacket
  else
    let pkt := if s.bEncrypt then pkt.encrypt s.seed s.behindSeed s.seedLen else pkt
    if s.bCompress then pkt.compress.2 else pkt

def noted (s : TcpSession) (packet : CmdPacket) (sys : Bool) : TcpSession :=
  if sys then s else {s with sent := s.sent ++ [packet.content]}

theorem sendPacket_unfold {s : TcpSession} (live : s.state = .connected) (packet : CmdPacket) (flush sys : Bool) :
    s.sendPacket packet flush sys =
      let (pushed,t) := s.numbered.pushData (s.numbered.wire packet sys).bytes
      if pushed = false then (false,t)
      else (true,if flush then (t.noted packet sys).flushData else t.noted packet sys) := by
  unfold sendPacket
  rw [if_neg (by simp [live])]
  rfl

theorem noted_outgoing (s : TcpSession) (packet : CmdPacket) (sys : Bool) : Outgoing s (s.noted packet sys) := by
  cases sys <;> exact ⟨rfl,rfl,.inl rfl⟩

theorem sendPacket_outgoing (s : TcpSession) (packet : CmdPacket) (flush sys : Bool) :
    Outgoing s (s.sendPacket packet flush sys).2 := by
  by_cases live : s.state = .connected
  · have queued := pushData_outgoing s.numbered (s.numbered.wire packet sys).bytes
    have numbered : Outgoing s s.numbered := ⟨rfl,rfl,.inl rfl⟩
    rw [sendPacket_unfold live]
    dsimp only
    split
    · exact numbered.trans queued
    · have kept := (numbered.trans queued).trans (noted_outgoing _ packet sys)
      have still : ((s.numbered.pushData (s.numbered.wire packet sys).bytes).2.noted packet sys).state = .connected := by
        rw [pushData_side]
        cases sys <;> exact live
      split
      · exact kept.trans (flushData_outgoing still)
      · exact kept
  · unfold sendPacket
    rw [if_pos live]
    exact .refl s

theorem sendCalls_outgoing (s : TcpSession) (sends : List SendCall) :
    Outgoing s (sends.foldl (fun s c => (s.sendPacket c.packet c.flush false).2) s) := by
  induction sends generalizing s with
  | nil => exact .refl s
  | cons call rest ih => exact (sendPacket_outgoing _ _ _ _).trans (ih _)

-- A callback adds itself to `calls`; what the application does in it only sends.
theorem callback_outgoing (s : TcpSession) (call : Callback) :
    Outgoing {s with calls := s.calls ++ [call],app := s.app.tail} (s.callback call) := sendCalls_outgoing _ _

theorem sysSend_outgoing (s : TcpSession) (type : Int16) (param : Int32) :
    Outgoing s (s.sendPacket (sysPacket type param) true true).2 := sendPacket_outgoing _ _ _ _

-- The seed that HandleSysPacket finds in a packet.
def seedParam (packet : CmdPacket) : Option Int32 :=
  match packet.readShort with
  | (some type,packet) => if type = sysPacketSetSeed then packet.readLong.1 else none
  | (none,_) => none

-- What HandleSysPacket does to the receiving side, ALIVE_ACK's clock reading apart.
theorem handleSysPacket_noSeed (s : TcpSession) (packet : CmdPacket) (noSeed : seedParam packet = none) :
    ∃ times rtt, Outgoing {s with calls := s.calls ++ [.handleSysPacket packet.readable],times,rtt}
      (s.handleSysPacket packet) := by
  unfold seedParam at noSeed
  unfold handleSysPacket
  dsimp only
  split
  · exact ⟨s.times,s.rtt,.refl _⟩
  · rename_i type rest read
    rw [read] at noSeed
    dsimp only at noSeed
    split
    · split
      · exact ⟨s.times,s.rtt,.refl _⟩
      · exact ⟨s.times,s.rtt,sysSend_outgoing _ _ _⟩
    · split
      · split
        · exact ⟨s.times,s.rtt,.refl _⟩
        · exact ⟨_,_,.refl _⟩
      · split
        · rename_i isSeed
          rw [if_pos isSeed] at noSeed
          split
          · exact ⟨s.times,s.rtt,.refl _⟩
          · rename_i long
            rw [long] at noSeed
            cases noSeed
        · exact ⟨s.times,s.rtt,.refl _⟩

theorem handleSysPacket_seed (s : TcpSession) (packet : CmdPacket) (found : seedParam packet = some seed) :
    s.handleSysPacket packet =
      onConnect {setSeed {s with calls := s.calls ++ [Callback.handleSysPacket packet.readable]} seed with
        state := .connected} true := by
  unfold seedParam at found
  unfold handleSysPacket
  dsimp only
  split
  · rename_i read; rw [read] at found; cases found
  · rename_i type rest read
    rw [read] at found
    dsimp only at found
    split at found
    · rename_i isSeed
      rw [if_neg (by rw [isSeed]; decide),if_neg (by rw [isSeed]; decide),if_pos isSeed]
      split
      · rename_i long; rw [long] at found; cases found
      · rename_i long
        rw [long] at found
        cases found
        rfl
    · cases found

-- While no Send fails, sending leaves a CONNECTED session CONNECTED.
def Flows (k : NetSocket) : Prop := ∀ answer ∈ k.sends, answer ≠ .failed

structure Going (s : TcpSession) : Prop where
  live : s.state = .connected
  flows : Flows s.socket

theorem send_flows {k : NetSocket} (flows : Flows k) (buf : List UInt8) :
    (k.send buf).1 ≥ 0 ∧ Flows (k.send buf).2 := by
  unfold NetSocket.send
  cases sends : k.sends with
  | nil => exact ⟨Int.le_refl 0,flows⟩
  | cons answer rest =>
    have later : ∀ socket : NetSocket, socket.sends = rest → Flows socket := by
      intro socket same a member
      exact flows a (by rw [sends]; exact List.mem_cons_of_mem _ (same ▸ member))
    cases answer with
    | notWritable => exact ⟨Int.le_refl 0,later _ rfl⟩
    | wouldBlock => exact ⟨Int.le_refl 0,later _ rfl⟩
    | sent count => exact ⟨Int.natCast_nonneg _,later _ rfl⟩
    | failed => exact absurd rfl (flows .failed (by rw [sends]; exact List.mem_cons_self))

theorem sendFrom_going (going : Going s) (off len : Int) : Going (s.sendFrom off len).2 := by
  obtain ⟨count,flows⟩ := send_flows going.flows (Block.slice s.writeBuf off.toNat len.toNat)
  unfold sendFrom touch
  dsimp only
  rw [if_pos count]
  exact ⟨going.live,flows⟩

theorem flushData_going (going : Going s) : Going s.flushData := by
  unfold flushData
  split
  · exact going
  · split
    · exact sendFrom_going going _ _
    · dsimp only
      split
      · exact sendFrom_going going _ _
      · split
        · exact sendFrom_going going _ _
        · exact sendFrom_going (sendFrom_going going _ _) _ _

theorem sendPacket_going (going : Going s) (packet : CmdPacket) (flush sys : Bool) :
    Going (s.sendPacket packet flush sys).2 := by
  have queued : Going (s.numbered.pushData (s.numbered.wire packet sys).bytes).2 := by
    rw [pushData_side]; exact ⟨going.live,going.flows⟩
  have noted : Going ((s.numbered.pushData (s.numbered.wire packet sys).bytes).2.noted packet sys) := by
    unfold noted
    split
    · exact queued
    · exact ⟨queued.live,queued.flows⟩
  rw [sendPacket_unfold going.live]
  dsimp only
  split
  · exact queued
  · split
    · exact flushData_going noted
    · exact noted

theorem callback_going (going : Going s) (call : Callback) : Going (s.callback call) := by
  have sends : ∀ (calls : List SendCall) (t : TcpSession), Going t →
      Going (calls.foldl (fun s c => (s.sendPacket c.packet c.flush false).2) t) := by
    intro calls
    induction calls with
    | nil => exact fun _ going => going
    | cons call rest ih => exact fun t going => ih _ (sendPacket_going going _ _ _)
  exact sends _ _ ⟨going.live,going.flows⟩

theorem handleSysPacket_going (going : Going s) (packet : CmdPacket) : Going (s.handleSysPacket packet) := by
  unfold handleSysPacket
  dsimp only
  have here : Going {s with calls := s.calls ++ [.handleSysPacket packet.readable]} := ⟨going.live,going.flows⟩
  split
  · exact here
  · split
    · split
      · exact here
      · exact sendPacket_going here _ _ _
    · split
      · split
        · exact here
        · exact ⟨going.live,going.flows⟩
      · split
        · split
          · exact here
          · refine callback_going ?_ _
            exact ⟨rfl,going.flows⟩
        · exact here

end PcNetwork.TcpSession
