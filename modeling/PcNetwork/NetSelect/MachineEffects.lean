import PcNetwork.NetSelect.Machine
import PcNetwork.NetSelect.Runs

namespace PcNetwork.NetSelect.Machine
open SelectService (Outside Connection ListenAnswer getPeer onReadBuf onWriteBuf sockRead sockWrite)
variable {m n : Machine} {s : SelectService} {index i : Nat} {serial : UInt64} {p : Peer} {o : Outside}

def called (m : Machine) (c : Callback) (frame : Frame) : Machine :=
  {m with service := {m.service with callbacks := m.service.callbacks ++ [c]},stack := frame :: m.stack}

-- The service in a state of its own, the rest as it was.
def on (m : Machine) (s : SelectService) : Machine := {m with service := s}

@[simp] theorem on_service (m : Machine) (s : SelectService) : (m.on s).service = s := rfl

theorem call_returned {f : Select α} (ran : call f m = .ok a n) : ∃ s, f m.service = .ok a s ∧ n = m.on s := by
  unfold call at ran
  split at ran
  · rename_i s inner
    cases ran
    exact ⟨s,inner,rfl⟩
  · cases ran

theorem getPeer_got {t : SelectService} (ran : getPeer index s = .ok p t) : index < maxPeerNum ∧ p = s.peers index ∧ t = s := by
  unfold getPeer at ran
  split at ran
  · cases ran
  · rename_i inside
    cases ran
    exact ⟨Nat.not_le.mp inside,rfl,rfl⟩

theorem getPeer_returned (ran : call (getPeer index) m = .ok p n) : index < maxPeerNum ∧ p = m.service.peers index ∧ n = m := by
  obtain ⟨s,got,rfl⟩ := call_returned ran
  obtain ⟨bound,same,rfl⟩ := getPeer_got got
  exact ⟨bound,same,rfl⟩

theorem not_live (m : Machine) (index : Nat) (serial : UInt64) :
    ((m.service.peers index).serial ≠ serial ∨ (m.service.peers index).socket = invalidSocket) ↔ ¬ m.Live index serial := by
  unfold Live
  rw [not_and_or,not_not]

inductive Closing (m : Machine) (index : Nat) (serial : UInt64) : Machine → Prop where
  | stale (dead : ¬ m.Live index serial) : Closing m index serial m
  | called (live : m.Live index serial) (ip : String) (port : UInt32) :
      Closing m index serial (m.called (.onDisCon index serial ip port) (.onDisCon index))

theorem closePeer_closing (ran : closePeer index serial m = .ok () n) : Closing m index serial n := by
  unfold closePeer at ran
  obtain ⟨p,u,got,rest⟩ := bind_returned ran
  obtain ⟨_,rfl,rfl⟩ := getPeer_returned got
  split at rest
  · rename_i dead
    cases rest
    exact .stale ((not_live _ _ _).mp dead)
  · rename_i live
    cases rest
    exact .called (not_not.mp fun dead => live ((not_live _ _ _).mpr dead)) _ _

-- What sockWrite does to the buffer when it returns 0.
inductive Wrote (answer : Option Nat) (b : SockBuf) : SockBuf → Prop where
  | empty (count : SockBuf.readableBytes b = .ok k b) (nothing : ¬ k.toInt32 > 0) : Wrote answer b b
  | moved (count : SockBuf.readableBytes b = .ok k b) (something : k.toInt32 > 0) (took : answer = some bytes)
      (moves : SockBuf.readMove (UInt32.ofNat (min bytes k.toNat)) b = .ok () after) : Wrote answer b after

theorem onWriteBuf_returned {f : Throwing SockBuf α} (ran : onWriteBuf index f s = .ok a t) :
    ∃ b, f (s.peers index).writeBuf = .ok a b ∧ t = s.setPeer index {s.peers index with writeBuf := b} := by
  unfold onWriteBuf at ran
  split at ran
  · rename_i b inner
    cases ran
    exact ⟨b,inner,rfl⟩
  · cases ran

theorem onReadBuf_returned {f : Throwing SockBuf α} (ran : onReadBuf index f s = .ok a t) :
    ∃ b, t = s.setPeer index {s.peers index with readBuf := b} := by
  unfold onReadBuf at ran
  split at ran
  · rename_i b inner
    cases ran
    exact ⟨b,rfl⟩
  · cases ran

theorem readableBytes_returned {b c : SockBuf} {k : UInt32} (ran : SockBuf.readableBytes b = .ok k c) : c = b := by
  unfold SockBuf.readableBytes at ran
  dsimp only at ran
  split at ran
  · cases ran
  · cases ran
    rfl

theorem writeBuf_counted {k : UInt32} (ran : onWriteBuf index SockBuf.readableBytes s = .ok k t) :
    t = s ∧ SockBuf.readableBytes (s.peers index).writeBuf = .ok k (s.peers index).writeBuf := by
  obtain ⟨b,count,after⟩ := onWriteBuf_returned ran
  obtain rfl := readableBytes_returned count
  exact ⟨after.trans (SelectService.setPeer_same s index),count⟩

theorem sockWrite_returned {answer : Option Nat} {ret : Int} (ran : sockWrite index answer s = .ok ret t) :
    ret ≠ 0 ∧ t = s ∨
    ret = 0 ∧ ∃ b, Wrote answer (s.peers index).writeBuf b ∧ t = s.setPeer index {s.peers index with writeBuf := b} := by
  unfold sockWrite at ran
  obtain ⟨k,u,counted,rest⟩ := bind_returned ran
  clear ran
  obtain ⟨rfl,count⟩ := writeBuf_counted counted
  split at rest
  · rename_i something
    cases answer with
    | none =>
      cases rest
      exact .inl ⟨by decide,rfl⟩
    | some bytes =>
      obtain ⟨_,v,moved,last⟩ := bind_returned rest
      obtain ⟨b,moves,rfl⟩ := onWriteBuf_returned moved
      cases last
      exact .inr ⟨rfl,b,.moved count something rfl moves,rfl⟩
  · rename_i nothing
    cases rest
    exact .inr ⟨rfl,_,.empty count nothing,(SelectService.setPeer_same _ _).symm⟩

theorem setPeer_setPeer (s : SelectService) (index : Nat) (p q : Peer) : (s.setPeer index p).setPeer index q = s.setPeer index q := by
  have same : (fun i => if i = index then q else if i = index then p else s.peers i) =
      fun i => if i = index then q else s.peers i := by
    funext i
    by_cases equal : i = index
    · rw [if_pos equal,if_pos equal]
    · rw [if_neg equal,if_neg equal,if_neg equal]
  unfold SelectService.setPeer
  dsimp only
  rw [same]

theorem setPeer_at (s : SelectService) (index : Nat) (p : Peer) : (s.setPeer index p).peers index = p := if_pos rfl

theorem setPeer_off (s : SelectService) {index i : Nat} (p : Peer) (apart : i ≠ index) : (s.setPeer index p).peers i = s.peers i :=
  if_neg apart

theorem sockRead_returned {answer : Option (List UInt8)} {ret : Int} (ran : sockRead index answer s = .ok ret t) :
    ∃ b, t = s.setPeer index {s.peers index with readBuf := b} := by
  unfold sockRead at ran
  obtain ⟨_,u,ensured,rest⟩ := bind_returned ran
  clear ran
  obtain ⟨b,rfl⟩ := onReadBuf_returned ensured
  obtain ⟨room,v,counted,last⟩ := bind_returned rest
  clear rest
  obtain ⟨c,rfl⟩ := onReadBuf_returned counted
  rw [setPeer_setPeer,setPeer_at] at last
  split at last
  · cases last
    exact ⟨c,rfl⟩
  · cases last
    exact ⟨c,rfl⟩
  · obtain ⟨_,w,filled,rest⟩ := bind_returned last
    obtain ⟨d,rfl⟩ := onReadBuf_returned filled
    obtain ⟨_,x,moved,ended⟩ := bind_returned rest
    obtain ⟨e,rfl⟩ := onReadBuf_returned moved
    cases ended
    rw [setPeer_setPeer,setPeer_setPeer,setPeer_at,setPeer_at]
    exact ⟨e,rfl⟩

-- The half of a round that writes.
def wrote (m : Machine) (o : Outside) (index : Nat) (b : SockBuf) : Machine :=
  accept index (sendTakes (o.sends (m.service.peers index).socket) (m.service.peers index).writeBuf)
    (m.on (m.service.setPeer index {m.service.peers index with writeBuf := b}))

def drained (m : Machine) (socket : Int) : Machine :=
  m.on {m.service with writeBak := fdClr socket m.service.writeBak,writeUse := fdClr socket m.service.writeUse}

inductive Writing (m : Machine) (o : Outside) (index : Nat) : Machine → Prop where
  | unready : Writing m o index m
  | failed (closing : Closing m index (m.service.peers index).serial after) : Writing m o index after
  | left (wrote : Wrote (o.sends (m.service.peers index).socket) (m.service.peers index).writeBuf b)
      (count : SockBuf.readableBytes b = .ok k b) (some_left : k ≠ 0) : Writing m o index (m.wrote o index b)
  | drained (wrote : Wrote (o.sends (m.service.peers index).socket) (m.service.peers index).writeBuf b)
      (count : SockBuf.readableBytes b = .ok k b) (none_left : k = 0) :
      Writing m o index ((m.wrote o index b).drained (m.service.peers index).socket)

theorem serveWrite_writing (ran : serveWrite o index m = .ok () n) : Writing m o index n := by
  unfold serveWrite at ran
  obtain ⟨p,u,got,rest⟩ := bind_returned ran
  clear ran
  obtain ⟨_,rfl,rfl⟩ := getPeer_returned got
  obtain ⟨_,_,looked,rest⟩ := bind_returned rest
  cases looked
  split at rest
  · obtain ⟨ret,v,writes,rest⟩ := bind_returned rest
    obtain ⟨s,written,rfl⟩ := call_returned writes
    rcases sockWrite_returned written with ⟨failed,rfl⟩ | ⟨rfl,b,wrote,rfl⟩
    · rw [if_pos failed] at rest
      exact .failed (closePeer_closing rest)
    · rw [if_neg (not_not.mpr rfl)] at rest
      obtain ⟨_,w,taken,rest⟩ := bind_returned rest
      cases taken
      obtain ⟨k,x,counted,rest⟩ := bind_returned rest
      obtain ⟨s,counts,rfl⟩ := call_returned counted
      obtain ⟨rfl,count⟩ := writeBuf_counted counts
      have count : SockBuf.readableBytes b = .ok k b := by
        simp only [accept,on_service,setPeer_at] at count
        exact count
      split at rest
      · rename_i none_left
        cases rest
        exact .drained wrote count none_left
      · rename_i some_left
        cases rest
        exact .left wrote count some_left
  · cases rest
    exact .unready

inductive Reading (m : Machine) (o : Outside) (index : Nat) : Machine → Prop where
  | unready (writing : Writing m o index after) : Reading m o index after
  | failed (b : SockBuf) (closing : Closing (m.on (m.service.setPeer index {m.service.peers index with readBuf := b})) index
      (m.service.peers index).serial after) : Reading m o index after
  | read (b : SockBuf) : Reading m o index
      ((m.on (m.service.setPeer index {m.service.peers index with readBuf := b})).called
        (.onRead index (m.service.peers index).serial) (.onRead index o))

theorem serveRead_reading (ran : serveRead o index m = .ok () n) : Reading m o index n := by
  unfold serveRead at ran
  obtain ⟨p,u,got,rest⟩ := bind_returned ran
  clear ran
  obtain ⟨_,rfl,rfl⟩ := getPeer_returned got
  obtain ⟨_,_,looked,rest⟩ := bind_returned rest
  cases looked
  split at rest
  · obtain ⟨ret,v,reads,rest⟩ := bind_returned rest
    obtain ⟨s,read,rfl⟩ := call_returned reads
    obtain ⟨b,rfl⟩ := sockRead_returned read
    split at rest
    · exact .failed b (closePeer_closing rest)
    · cases rest
      exact .read b
  · exact .unready (serveWrite_writing rest)

-- The service when a slot has been given to a connection.
def joined (s : SelectService) (index : Nat) (c : Connection) : SelectService :=
  {s.setPeer index {s.peers index with
      serial := s.serial
      socket := c.socket
      readBuf := final (SockBuf.reset (s.peers index).readBuf)
      writeBuf := final (SockBuf.reset (s.peers index).writeBuf)
      remoteIp := c.remoteIp
      remotePort := c.remotePort} with
    serial := s.serial+1
    onlinePeerSet := s.onlinePeerSet ++ [index]
    registered := s.registered ++ [c.socket]}

inductive Registered (m : Machine) (c : Connection) : Machine → Prop where
  | given (slot : Nat) (bound : slot < maxPeerNum) (free : (m.service.peers slot).socket = invalidSocket) :
      Registered m c ((forget slot (m.on (joined m.service slot c))).called
        (.onCon slot m.service.serial c.remoteIp c.remotePort) (.onCon slot))

theorem getFreeIndex_given {u : SelectService} (made : s.getFreeIndex = (index,u)) (bound : index < maxPeerNum) (c : Connection) :
    (s.peers index).socket = invalidSocket ∧
    {u.setPeer index {u.peers index with remoteIp := c.remoteIp,remotePort := c.remotePort,socket := c.socket} with
      onlinePeerSet := u.onlinePeerSet ++ [index]
      registered := u.registered ++ [c.socket]} = joined s index c := by
  unfold SelectService.getFreeIndex at made
  split at made
  · cases made
    exact absurd bound (by decide)
  · rename_i i found
    obtain ⟨_,free⟩ := SelectService.freeIndex_some found
    cases made
    refine ⟨free,?_⟩
    unfold joined
    dsimp only
    have shape := setPeer_setPeer s index {s.peers index with
      serial := s.serial
      readBuf := final (SockBuf.reset (s.peers index).readBuf)
      writeBuf := final (SockBuf.reset (s.peers index).writeBuf)} {s.peers index with
      serial := s.serial
      socket := c.socket
      readBuf := final (SockBuf.reset (s.peers index).readBuf)
      writeBuf := final (SockBuf.reset (s.peers index).writeBuf)
      remoteIp := c.remoteIp
      remotePort := c.remotePort}
    rw [← shape]
    unfold SelectService.setPeer
    simp only [if_true]

theorem registerSocket_registered {c : Connection} (ran : registerSocket c.socket c.remoteIp c.remotePort m = .ok () n) :
    Registered m c n := by
  unfold registerSocket at ran
  obtain ⟨index,v,given,found⟩ := bind_returned ran
  clear ran
  obtain ⟨u,took,rfl⟩ := call_returned given
  have made : m.service.getFreeIndex = (index,u) := by cases took; rfl
  clear took given
  obtain ⟨p,v,got,rest⟩ := bind_returned found
  clear found
  obtain ⟨bound,_,rfl⟩ := getPeer_returned got
  obtain ⟨free,same⟩ := getFreeIndex_given made bound c
  obtain ⟨_,w,opens,last⟩ := bind_returned rest
  clear rest
  have opens := opens.symm.trans (show _ = EStateM.Result.ok () (m.on (joined m.service index c)) from by rw [← same]; rfl)
  cases opens
  obtain ⟨_,x,forgot,rest⟩ := bind_returned last
  cases forgot
  obtain ⟨q,y,again,ended⟩ := bind_returned rest
  obtain ⟨_,rfl,rfl⟩ := getPeer_returned again
  cases ended
  have mark : (((forget index (m.on (joined m.service index c))).service.peers index)).serial = m.service.serial :=
    congrArg Peer.serial (setPeer_at m.service index _)
  rw [mark]
  exact .given index bound free

def shut (s : SelectService) (index : Nat) : SelectService :=
  let t := {s with onlinePeerSet := s.onlinePeerSet.erase index}.setPeer index {s.peers index with socket := invalidSocket}
  {t with
    closed := t.closed ++ [(t.peers index).socket]
    readBak := fdClr (t.peers index).socket t.readBak
    readUse := fdClr (t.peers index).socket t.readUse}

theorem onDisConDone_shut (index : Nat) (m : Machine) : onDisConDone index m = .ok () (m.on (shut m.service index)) := rfl

def push (m : Machine) (index : Nat) (bytes : List UInt8) (b : SockBuf) : Machine :=
  pass index bytes (m.on {m.service.setPeer index {m.service.peers index with writeBuf := b} with
    writeBak := fdSet (m.service.peers index).socket m.service.writeBak})

inductive Sending (m : Machine) (index : Nat) (serial : UInt64) (bytes : List UInt8) : Machine → Prop where
  | stale (dead : ¬ m.Live index serial) : Sending m index serial bytes m
  | dropped (live : m.Live index serial) (illegal : (m.service.peers index).socket ≤ 0) :
      Sending m index serial bytes (pass index bytes m)
  | pushed (live : m.Live index serial) (legal : ¬ (m.service.peers index).socket ≤ 0)
      (grown : SockBuf.push bytes (m.service.peers index).writeBuf = .ok () b) : Sending m index serial bytes (m.push index bytes b)

theorem send_sending {bytes : List UInt8} (ran : send index serial bytes m = .ok () n) : Sending m index serial bytes n := by
  unfold send at ran
  obtain ⟨_,u,noted,rest⟩ := bind_returned ran
  clear ran
  have noted : u = if m.Live index serial then m.pass index bytes else m := by cases noted; rfl
  obtain ⟨t,sent,rfl⟩ := call_returned rest
  clear rest
  have service : u.service = m.service := by
    rw [noted]
    split <;> rfl
  rw [service] at sent
  unfold SelectService.send at sent
  obtain ⟨p,v,got,last⟩ := bind_returned sent
  clear sent
  obtain ⟨_,rfl,rfl⟩ := getPeer_got got
  by_cases live : m.Live index serial
  · rw [if_pos live] at noted
    subst noted
    obtain ⟨same,valid⟩ := live
    split at last
    · rename_i off
      cases last
      exact .dropped ⟨same,valid⟩ (off.resolve_left (not_not.mpr same))
    · rename_i legal
      obtain ⟨_,w,pushes,ended⟩ := bind_returned last
      obtain ⟨b,grown,rfl⟩ := onWriteBuf_returned pushes
      cases ended
      exact .pushed ⟨same,valid⟩ (not_or.mp legal).2 grown
  · rw [if_neg live] at noted
    have off : (m.service.peers index).serial ≠ serial ∨ (m.service.peers index).socket ≤ 0 := by
      rcases (not_live m index serial).mpr live with other | closed
      · exact .inl other
      · exact .inr (closed ▸ by decide)
    rw [if_pos off] at last
    cases last
    rw [noted]
    exact .stale live

-- What an event can do: one constructor for each way a call ends.
inductive Effect (m : Machine) : MachineEvent → Machine → Prop where
  | listening (a : ListenAnswer) : Effect m (.listen a) (m.on {m.service with listenSocket := a.socket})
  | refused (c : Option Connection) : Effect m (.connectPeer c) m
  | connected (valid : c.socket ≠ invalidSocket) (registered : Registered m c after) : Effect m (.connectPeer (some c)) after
  | sent (sending : Sending m slot mark buf.bytes after) : Effect m (.send slot mark buf) after
  | closing (closing : Closing m slot mark after) : Effect m (.closePeer slot mark) after
  | popped {rest : List Frame} (stack : m.stack = .onRead slot from_loop :: rest) (b : SockBuf) (len : UInt32) : Effect m (.pop len)
      (m.on (m.service.setPeer slot {m.service.peers slot with readBuf := b}))
  | unasked (len : UInt32) : Effect m (.pop len) m
  | waiting (ret : Int) : Effect m (.resume ret) m
  | onConRefused {rest : List Frame} (stack : m.stack = .onCon slot :: rest) (negative : ret < 0)
      (closing : Closing {m with stack := rest} slot (m.service.peers slot).serial after) : Effect m (.resume ret) after
  | onConDone {rest : List Frame} (stack : m.stack = .onCon slot :: rest) (ret : Int) : Effect m (.resume ret)
      {m with service := {m.service with readBak := fdSet (m.service.peers slot).socket m.service.readBak},stack := rest}
  | onDisConDone {rest : List Frame} (stack : m.stack = .onDisCon slot :: rest) (ret : Int) : Effect m (.resume ret)
      {m with service := shut m.service slot,stack := rest}
  | onReadRefused {rest : List Frame} (stack : m.stack = .onRead slot turn :: rest) (negative : ret < 0)
      (closing : Closing {m with stack := rest} slot (m.service.peers slot).serial after) : Effect m (.resume ret) after
  | onReadDone {rest : List Frame} (stack : m.stack = .onRead slot turn :: rest)
      (writing : Writing {m with stack := rest} turn slot after) : Effect m (.resume ret) after
  | timeout (turn : Outside) (reads writes : Int → Bool) : Effect m (.eventLoop turn) (m.on (m.service.polled reads writes))
  | polled (turn : Outside) (reads writes : Int → Bool) : Effect m (.eventLoop turn)
      {m with service := m.service.polled reads writes,stack := .loop turn 0 :: m.stack}
  | accepted {turn : Outside} (reads writes : Int → Bool) (valid : turn.accepted.socket ≠ invalidSocket)
      (registered : Registered {m with service := m.service.polled reads writes,stack := .loop turn 0 :: m.stack} turn.accepted after) :
      Effect m (.eventLoop turn) after
  | idle : Effect m .round m
  | ended {rest : List Frame} (stack : m.stack = .loop turn k :: rest) : Effect m .round {m with stack := rest}
  | served {rest : List Frame} (stack : m.stack = .loop turn k :: rest) (member : slot ∈ m.service.onlinePeerSet)
      (reading : Reading {m with stack := .loop turn (k+1) :: rest} turn slot after) : Effect m .round after

theorem discard {q : Moves α} (ran : (q >>= fun _ => (pure () : Moves Unit)) m = .ok () n) : ∃ a, q m = .ok a n := by
  obtain ⟨a,u,first,last⟩ := bind_returned ran
  cases last
  exact ⟨a,first⟩

theorem listen_effect {a : ListenAnswer} (ran : call (SelectService.listen a) m = .ok () n) : Effect m (.listen a) n := by
  obtain ⟨s,listens,rfl⟩ := call_returned ran
  have kept := SelectService.listen_keeps a m.service
  rw [listens] at kept
  obtain rfl : s = _ := kept
  exact .listening a

theorem connectPeer_effect {c : Option Connection} (ran : connectPeer c m = .ok done n) : Effect m (.connectPeer c) n := by
  cases c with
  | none => cases ran
  | some c =>
    unfold connectPeer at ran
    dsimp only at ran
    split at ran
    · cases ran
      exact .refused _
    · rename_i valid
      obtain ⟨_,u,registers,last⟩ := bind_returned ran
      cases last
      exact .connected valid (registerSocket_registered registers)

theorem pop_effect {len : UInt32} (ran : pop len m = .ok () n) : Effect m (.pop len) n := by
  unfold pop at ran
  obtain ⟨_,_,looked,rest⟩ := bind_returned ran
  cases looked
  clear ran
  cases stack : m.stack with
  | nil =>
    rw [stack] at rest
    cases rest
    exact .unasked len
  | cons frame older =>
    rw [stack] at rest
    cases frame with
    | onRead slot o =>
      obtain ⟨a,taken⟩ := discard rest
      obtain ⟨s,popped,rfl⟩ := call_returned taken
      obtain ⟨b,rfl⟩ := onReadBuf_returned popped
      exact .popped stack b len
    | onCon | onDisCon | loop =>
      cases rest
      exact .unasked len

theorem resume_effect {ret : Int} (ran : resume ret m = .ok () n) : Effect m (.resume ret) n := by
  unfold resume at ran
  obtain ⟨_,_,looked,rest⟩ := bind_returned ran
  cases looked
  clear ran
  cases stack : m.stack with
  | nil =>
    rw [stack] at rest
    cases rest
    exact .waiting ret
  | cons frame older =>
    rw [stack] at rest
    cases frame with
    | loop =>
      cases rest
      exact .waiting ret
    | onCon slot =>
      obtain ⟨_,u,popped,next⟩ := bind_returned rest
      cases popped
      obtain ⟨p,v,got,last⟩ := bind_returned next
      obtain ⟨_,rfl,rfl⟩ := getPeer_returned got
      split at last
      · rename_i negative
        exact .onConRefused stack negative (closePeer_closing last)
      · cases last
        exact .onConDone stack ret
    | onDisCon slot =>
      obtain ⟨_,u,popped,next⟩ := bind_returned rest
      cases popped
      rw [onDisConDone_shut] at next
      cases next
      exact .onDisConDone stack ret
    | onRead slot o =>
      obtain ⟨_,u,popped,next⟩ := bind_returned rest
      cases popped
      obtain ⟨p,v,got,last⟩ := bind_returned next
      obtain ⟨_,rfl,rfl⟩ := getPeer_returned got
      split at last
      · rename_i negative
        exact .onReadRefused stack negative (closePeer_closing last)
      · exact .onReadDone stack (serveWrite_writing last)

theorem eventLoop_effect (ran : eventLoop o m = .ok () n) : Effect m (.eventLoop o) n := by
  unfold eventLoop at ran
  obtain ⟨_,u,inits,rest⟩ := bind_returned ran
  clear ran
  obtain ⟨s,sets,rfl⟩ := call_returned inits
  rw [SelectService.initSets_ok] at sets
  cases sets
  cases ready : o.ready with
  | none =>
    rw [ready] at rest
    cases rest
  | some pair =>
    obtain ⟨reads,writes⟩ := pair
    rw [ready] at rest
    obtain ⟨_,v,polls,next⟩ := bind_returned rest
    obtain ⟨s,polled,rfl⟩ := call_returned polls
    cases polled
    obtain ⟨_,_,looked,last⟩ := bind_returned next
    cases looked
    split at last
    · obtain ⟨_,w,enters,accepts⟩ := bind_returned last
      cases enters
      unfold acceptNew at accepts
      obtain ⟨_,_,looked,found⟩ := bind_returned accepts
      cases looked
      split at found
      · split at found
        · rename_i valid
          exact .accepted reads writes valid (registerSocket_registered found)
        · cases found
      · cases found
        exact .polled o reads writes
    · cases last
      exact .timeout o reads writes

theorem round_effect (ran : round m = .ok () n) : Effect m .round n := by
  unfold round at ran
  obtain ⟨_,_,looked,rest⟩ := bind_returned ran
  cases looked
  clear ran
  cases stack : m.stack with
  | nil =>
    rw [stack] at rest
    cases rest
    exact .idle
  | cons frame older =>
    rw [stack] at rest
    cases frame with
    | onCon | onDisCon | onRead =>
      cases rest
      exact .idle
    | loop o k =>
      cases found : m.service.onlinePeerSet[k]? with
      | none =>
        dsimp only at rest
        rw [found] at rest
        cases rest
        exact .ended stack
      | some slot =>
        dsimp only at rest
        rw [found] at rest
        obtain ⟨_,u,turned,next⟩ := bind_returned rest
        cases turned
        exact .served stack (List.mem_of_getElem? found) (serveRead_reading next)

-- Every call that returns has one of the effects.
theorem step_effect {event : MachineEvent} (step : MachineStep m event n) : Effect m event n := by
  cases step with
  | returns genuine ran =>
    cases event with
    | listen a => exact listen_effect ran
    | connectPeer c =>
      obtain ⟨done,ran⟩ := discard ran
      exact connectPeer_effect ran
    | send slot mark buf => exact .sent (send_sending ran)
    | closePeer slot mark => exact .closing (closePeer_closing ran)
    | pop len => exact pop_effect ran
    | resume ret => exact resume_effect ran
    | eventLoop o => exact eventLoop_effect ran
    | round => exact round_effect ran

end PcNetwork.NetSelect.Machine
