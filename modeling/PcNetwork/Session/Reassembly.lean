import PcNetwork.Session.Ticks
import PcNetwork.Session.Crypt

namespace PcNetwork

theorem Keys.opened_known {k : Keys} (full : k.seedLen = 16) (raw : NetPacket) : k.known.opened raw = k.opened raw := by
  have same := NetPacket.crypt_full full raw
  have known := NetPacket.crypt_full (k := k.known) full raw
  unfold opened NetPacket.decrypt
  simp only [same,known]
  rfl

theorem Keys.setSeed_known (k : Keys) (seed : Int32) : (k.setSeed seed).known = k.known.setSeed seed := by
  unfold known setSeed
  split <;> rfl

namespace TcpSession

-- A tick in which nothing but Recv decides: no Send fails and the timeout is not reached.
structure Calm (s : TcpSession) (o : Outside) : Prop where
  sends : ∀ answer ∈ o.sends, answer ≠ .failed
  inTime : o.times.headD 0-s.lastRecvTime ≤ netTimeout

-- A stream handed to a CONNECTED session in chunks, one Recv result a tick, with
-- ticks in between in which nothing can be read. A DEAD session reads no more.
inductive Fed : TcpSession → List (List UInt8) → TcpSession → Prop where
  | done {s : TcpSession} : Fed s [] s
  | dead {s : TcpSession} : s.state = .dead → Fed s chunks s
  | quiet {s t : TcpSession} : s.state = .connected → Calm s o → o.recvs = [.notReadable] →
      Fed (s.meet o).process chunks t → Fed s chunks t
  | recv {s t : TcpSession} : s.state = .connected → Calm s o → chunk ≠ [] →
      (chunk.length : Int) ≤ s.readBufSize-s.readLen → o.recvs = [.data chunk] →
      Fed (s.meet o).process chunks t → Fed s (chunk :: chunks) t

theorem take_known {v : View} (full : v.keys.seedLen = 16) (raw : NetPacket) :
    (v.take raw).known = v.known.take raw ∧ (v.take raw).keys.seedLen = 16 := by
  have same := Keys.opened_known full raw
  by_cases sys : (v.keys.opened raw).isSysPacket
  · have sys' : (v.known.keys.opened raw).isSysPacket := (congrArg NetPacket.isSysPacket same).trans sys
    have packet := congrArg (fun p : NetPacket => p.attachCmdPacket recvCmdPkt) same
    cases found : seedParam ((v.keys.opened raw).attachCmdPacket recvCmdPkt) with
    | none =>
      rw [View.take_sys sys found,View.take_sys sys' ((congrArg seedParam packet).trans found)]
      exact ⟨by simp only [View.known,same],full⟩
    | some seed =>
      rw [View.take_seed sys found,View.take_seed sys' ((congrArg seedParam packet).trans found)]
      refine ⟨?_,Keys.setSeed_seedLen full seed⟩
      simp only [View.known,same,Keys.setSeed_known]
  · have user := Bool.eq_false_iff.mpr sys
    rw [View.take_user user,View.take_user (v := v.known) ((congrArg NetPacket.isSysPacket same).trans user)]
    exact ⟨by simp only [View.known,same],full⟩

theorem fold_known {v : View} (full : v.keys.seedLen = 16) (raws : List NetPacket) :
    (raws.foldl View.take v).known = raws.foldl View.take v.known ∧ (raws.foldl View.take v).keys.seedLen = 16 := by
  induction raws generalizing v with
  | nil => exact ⟨rfl,full⟩
  | cons raw rest ih =>
    obtain ⟨same,kept⟩ := take_known full raw
    rw [List.foldl_cons,List.foldl_cons,← same]
    exact ih kept

theorem recv_quiet {k : NetSocket} (answer : k.recvs = [.notReadable]) (len : Int) :
    (k.recv len).1 = 0 ∧ (k.recv len).2.1 = [] := by
  simp [NetSocket.recv,answer]

theorem recv_chunk {k : NetSocket} {chunk : List UInt8} (answer : k.recvs = [.data chunk]) (some : chunk ≠ [])
    (fits : (chunk.length : Int) ≤ len) : (k.recv len).1 = chunk.length ∧ (k.recv len).2.1 = chunk := by
  unfold NetSocket.recv
  rw [answer]
  have whole : chunk.take len.toNat = chunk := List.take_of_length_le (by omega)
  simp only [whole,if_neg some,and_self]

-- After a calm tick the session is where the framing says.
structure Settled (s : TcpSession) (v : View) (frames : List NetPacket) (tail : Tail UInt8) : Prop where
  read : ReadOk s
  view : s.view.known = frames.foldl View.take v.known
  full : s.seedLen = 16
  left : (∃ rest, tail = .waiting rest ∧ s.unread = rest ∧ s.state = .connected) ∨ (tail = .broken ∧ s.state = .dead)

theorem tick_settled (ok : ReadOk s) (live : s.state = .connected) (full : s.seedLen = 16) (calm : Calm s o)
    (got : ∀ k : NetSocket, k.recvs = o.recvs →
      (k.recv (s.readBufSize-s.readLen)).1 ≥ 0 ∧ (k.recv (s.readBufSize-s.readLen)).2.1 = bytes) :
    Settled (s.meet o).process s.view (frames.split (s.unread ++ bytes)).1 (frames.split (s.unread ++ bytes)).2 := by
  obtain ⟨last,proc⟩ := defProc_inTime (s := s.meet o) live (UInt32.not_lt.mpr calm.inTime)
  let start : TcpSession := {s.meet o with times := (s.meet o).times.tail,lastSendTime := last}
  have going : Going start := ⟨live,calm.sends⟩
  have flushed := flushData_going going
  have outgoing : Outgoing start start.flushData := flushData_outgoing live
  have side : start.flushData.toReadSide = s.toReadSide := by rw [outgoing.toReceiver]; rfl
  obtain ⟨ready,same⟩ := ok.congr side
  obtain ⟨read,times,recvTime,filled,fine,grown⟩ := readData_parts ready
  have recvs : start.flushData.socket.recvs = o.recvs := by
    rw [show start.flushData.socket.recvs = start.flushData.socket.toSocketIn.recvs from rfl,outgoing.toSocketIn]; rfl
  obtain ⟨count,taken⟩ := got _ recvs
  have capacity : start.flushData.readBufSize-start.flushData.readLen = s.readBufSize-s.readLen := by rw [side]
  rw [capacity,if_neg (by omega)] at filled
  rw [capacity,taken,same] at grown
  have going : Going start.flushData.readData := by
    rw [filled]
    refine ⟨flushed.live,?_⟩
    rw [Flows,(recv_parts _ _).2.1]
    exact flushed.flows
  have pumped := receiveLoop_pump (start.flushData.readData.readLen.toNat+1) fine
    (by have := fine.len_nonneg; omega)
  have whole : (s.meet o).process = receiveLoop (start.flushData.readData.readLen.toNat+1) start.flushData.readData := by
    unfold process
    rw [proc]
    simp only [start,going.live]
  rw [whole]
  obtain ⟨read,_,seen,_,tail⟩ := pump_frames fine pumped
  have alive := pump_going fine going pumped
  rw [grown] at seen tail alive
  have keys : start.flushData.readData.view = ⟨{s.toKeys with behindSeed := o.behindSeed},s.calls⟩ := by
    rw [filled,view,outgoing.toReceiver]; rfl
  have usable : start.flushData.readData.view.keys.seedLen = 16 := by rw [keys]; exact full
  have known : start.flushData.readData.view.known = s.view.known := by rw [keys]; rfl
  obtain ⟨folded,kept⟩ := fold_known usable (frames.split (s.unread ++ bytes)).1
  rw [← seen] at folded kept
  refine ⟨read,folded.trans (by rw [known]),kept,?_⟩
  rcases tail with ⟨rest,waits,left⟩ | broken
  · rcases alive with alive | ⟨broken,_⟩
    · exact .inl ⟨rest,waits,left,alive.live⟩
    · rw [broken] at waits; cases waits
  · exact .inr broken

theorem fed_dead (dead : s.state = .dead) (run : Fed s chunks t) : t = s := by
  cases run with
  | done => rfl
  | dead => rfl
  | quiet live => rw [dead] at live; cases live
  | recv live => rw [dead] at live; cases live

-- The first tick of a run and the rest of it.
theorem settled_onward (got : List UInt8)
    (settled : Settled u v (frames.split (bytes ++ got)).1 (frames.split (bytes ++ got)).2)
    (rest : Fed u chunks t)
    (ih : ReadOk u → u.state = .connected → u.seedLen = 16 → (frames.next u.unread = .more ∨ chunks.flatten ≠ []) →
      Settled t u.view (frames.split (u.unread ++ chunks.flatten)).1 (frames.split (u.unread ++ chunks.flatten)).2) :
    Settled t v (frames.split (bytes ++ (got ++ chunks.flatten))).1
      (frames.split (bytes ++ (got ++ chunks.flatten))).2 := by
  have join := frames.absorb_split (bytes ++ got) chunks.flatten
  rw [List.append_assoc] at join
  rw [← join]
  obtain ⟨read,seen,keyed,left⟩ := settled
  rcases left with ⟨tail,waits,unread,live⟩ | ⟨broken,dead⟩
  · obtain ⟨read,after,keyed,left⟩ := ih read live keyed (.inl (unread ▸ frames.split_waiting waits))
    rw [seen,unread] at after
    rw [unread] at left
    simp only [Framing.absorb,waits]
    exact ⟨read,by rw [after,List.foldl_append],keyed,left⟩
  · rw [fed_dead dead rest]
    simp only [Framing.absorb,broken]
    exact ⟨read,seen,keyed,.inr ⟨rfl,dead⟩⟩

-- A whole run ends where the framing of everything it was offered says.
theorem fed_settled (run : Fed s chunks t) (ok : ReadOk s) (live : s.state = .connected) (full : s.seedLen = 16)
    (ready : frames.next s.unread = .more ∨ chunks.flatten ≠ []) :
    Settled t s.view (frames.split (s.unread ++ chunks.flatten)).1 (frames.split (s.unread ++ chunks.flatten)).2 := by
  induction run with
  | done =>
    rcases ready with more | some
    · rw [List.flatten_nil,List.append_nil,frames.split_more more]
      exact ⟨ok,rfl,full,.inl ⟨_,rfl,rfl,live⟩⟩
    · exact absurd rfl some
  | dead dead => rw [dead] at live; cases live
  | quiet live calm answer rest ih =>
    have got := fun (k : NetSocket) (len : Int) (same : k.recvs = _) => recv_quiet (same.trans answer) len
    exact settled_onward [] (tick_settled ok live full calm fun k same =>
      ⟨Int.le_of_eq (got k _ same).1.symm,(got k _ same).2⟩) rest ih
  | recv live calm some fits answer rest ih =>
    have got := fun (k : NetSocket) (same : k.recvs = _) => recv_chunk (same.trans answer) some fits
    exact settled_onward _ (tick_settled ok live full calm fun k same =>
      ⟨by have := (got k same).1; omega,(got k same).2⟩) rest ih

-- Reassembly does not depend on how the stream is cut: two runs over the same bytes
-- make the same callbacks and end alike.
theorem reassembly_independent (ok : ReadOk s) (live : s.state = .connected) (full : s.seedLen = 16)
    (ready : frames.next s.unread = .more ∨ cuts₁.flatten ≠ []) (same : cuts₁.flatten = cuts₂.flatten)
    (first : Fed s cuts₁ t₁) (second : Fed s cuts₂ t₂) :
    t₁.calls = t₂.calls ∧
    ((t₁.state = .dead ∧ t₂.state = .dead) ∨
      (t₁.state = .connected ∧ t₂.state = .connected ∧ t₁.unread = t₂.unread ∧
        t₁.unread <:+ s.unread ++ cuts₁.flatten)) := by
  have one := fed_settled first ok live full ready
  have two := fed_settled second ok live full (same ▸ ready)
  rw [← same] at two
  refine ⟨congrArg View.calls (one.view.trans two.view.symm),?_⟩
  rcases one.left with ⟨rest,waits,unread,alive⟩ | ⟨broken,dead⟩
  · rcases two.left with ⟨other,waits',unread',alive'⟩ | ⟨broken,_⟩
    · rw [waits] at waits'
      cases waits'
      refine .inr ⟨alive,alive',unread.trans unread'.symm,?_⟩
      rw [unread]
      exact frames.split_suffix frames_suffix waits
    · rw [waits] at broken; cases broken
  · rcases two.left with ⟨other,waits,_,_⟩ | ⟨_,dead'⟩
    · rw [waits] at broken; cases broken
    · exact .inl ⟨dead,dead'⟩

-- A packet of one byte, in one chunk and in three.
theorem reassembly_independent_packet :
    ∃ t₁ t₂ : TcpSession, Fed (new.attach.setSeed 5) [[80,2,0,1,0,7]] t₁ ∧ Fed (new.attach.setSeed 5) [[80,2],[0,1,0],[7]] t₂ ∧
      t₁.calls = [.onReceive [7]] ∧ t₁.calls = t₂.calls := by
  have ok : ReadOk (new.attach.setSeed 5) := ReadOk.congr (s := new) (t := new.attach.setSeed 5) (reset_read _) rfl |>.1
  let chunk (bytes : List UInt8) : Outside := ⟨[.data bytes],[],[],[],[],[],[],fun _ => 0⟩
  have calm : ∀ (s : TcpSession) bytes, s.lastRecvTime = 0 → Calm s (chunk bytes) :=
    fun s bytes clock => ⟨by simp [chunk],by rw [clock]; exact (by decide : (0 : UInt32)-0 ≤ netTimeout)⟩
  let start := new.attach.setSeed 5
  have whole : Fed start [[80,2,0,1,0,7]] (start.meet (chunk [80,2,0,1,0,7])).process :=
    .recv rfl (calm _ _ rfl) (by decide) (by decide) rfl .done
  let first := (start.meet (chunk [80,2])).process
  let second := (first.meet (chunk [0,1,0])).process
  have pieces : Fed start [[80,2],[0,1,0],[7]] (second.meet (chunk [7])).process :=
    .recv rfl (calm _ _ rfl) (by decide) (by decide) rfl
      (.recv (by decide +kernel) (calm first _ (by decide +kernel)) (by decide) (by decide +kernel) rfl
        (.recv (by decide +kernel) (calm second _ (by decide +kernel)) (by decide) (by decide +kernel) rfl .done))
  have same : ([[80,2,0,1,0,7]] : List (List UInt8)).flatten = [[80,2],[0,1,0],[7]].flatten := rfl
  have some : ([[80,2,0,1,0,7]] : List (List UInt8)).flatten ≠ [] := by decide
  exact ⟨_,_,whole,pieces,by decide +kernel,(reassembly_independent ok rfl rfl (.inr some) same whole pieces).1⟩

end TcpSession
end PcNetwork
