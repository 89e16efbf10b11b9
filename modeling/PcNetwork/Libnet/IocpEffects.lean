import PcNetwork.Libnet.IocpService
import PcNetwork.Library.Path
import Mathlib.Data.List.Perm.Basic

namespace PcNetwork.Libnet.IocpService
variable {s t u : IocpService} {index i : Nat} {serial : UInt64} {context : Option Nat} {sys : System} {p : Peer}

-- The connection (index, serial) is open.
def Live (s : IocpService) (index : Nat) (serial : UInt64) : Prop :=
  (s.peers index).serial = serial ∧ (s.peers index).socket ≠ invalidSocket

def released (s : IocpService) : Option Nat → IocpService
  | none => s
  | some context => {s with freed := s.freed ++ [context]}

def called (s : IocpService) (c : Callback) (frame : Frame) : IocpService :=
  {s with callbacks := s.callbacks ++ [c],stack := frame :: s.stack}

-- A new context has gone out with an operation.
def outstanding (s : IocpService) (index : Nat) (serial : UInt64) (request : Request) : IocpService :=
  {s with issued := s.issued+1,pending := s.pending ++ [⟨s.issued,index,serial,request⟩]}

-- A new context has been given and no operation was started with it.
def leaked (s : IocpService) : IocpService := {s with issued := s.issued+1}

-- A completion has been taken out of the queue.
def dequeued (s : IocpService) (k : Nat) : IocpService := {s with pending := s.pending.eraseIdx k}

@[simp] theorem released_peers (s : IocpService) (k : Option Nat) : (s.released k).peers = s.peers := by cases k <;> rfl
@[simp] theorem released_serial (s : IocpService) (k : Option Nat) : (s.released k).serial = s.serial := by cases k <;> rfl
@[simp] theorem released_issued (s : IocpService) (k : Option Nat) : (s.released k).issued = s.issued := by cases k <;> rfl
@[simp] theorem released_stack (s : IocpService) (k : Option Nat) : (s.released k).stack = s.stack := by cases k <;> rfl
@[simp] theorem released_callbacks (s : IocpService) (k : Option Nat) : (s.released k).callbacks = s.callbacks := by cases k <;> rfl
@[simp] theorem called_peers (s : IocpService) (c : Callback) (frame : Frame) : (s.called c frame).peers = s.peers := rfl
@[simp] theorem called_pending (s : IocpService) (c : Callback) (frame : Frame) : (s.called c frame).pending = s.pending := rfl
@[simp] theorem called_issued (s : IocpService) (c : Callback) (frame : Frame) : (s.called c frame).issued = s.issued := rfl
@[simp] theorem called_freed (s : IocpService) (c : Callback) (frame : Frame) : (s.called c frame).freed = s.freed := rfl
@[simp] theorem called_stack (s : IocpService) (c : Callback) (frame : Frame) : (s.called c frame).stack = frame :: s.stack := rfl
@[simp] theorem called_callbacks (s : IocpService) (c : Callback) (frame : Frame) : (s.called c frame).callbacks = s.callbacks ++ [c] := rfl
@[simp] theorem outstanding_peers (s : IocpService) (i : Nat) (n : UInt64) (r : Request) : (s.outstanding i n r).peers = s.peers := rfl
@[simp] theorem outstanding_stack (s : IocpService) (i : Nat) (n : UInt64) (r : Request) : (s.outstanding i n r).stack = s.stack := rfl
@[simp] theorem outstanding_callbacks (s : IocpService) (i : Nat) (n : UInt64) (r : Request) : (s.outstanding i n r).callbacks = s.callbacks := rfl
@[simp] theorem leaked_peers (s : IocpService) : s.leaked.peers = s.peers := rfl
@[simp] theorem dequeued_issued (s : IocpService) (k : Nat) : (s.dequeued k).issued = s.issued := rfl
@[simp] theorem setPeer_serial (s : IocpService) (i : Nat) (p : Peer) : (s.setPeer i p).serial = s.serial := rfl
@[simp] theorem setPeer_callbacks (s : IocpService) (i : Nat) (p : Peer) : (s.setPeer i p).callbacks = s.callbacks := rfl

theorem setPeer_setPeer (s : IocpService) (index : Nat) (p q : Peer) :
    (s.setPeer index p).setPeer index q = s.setPeer index q := by
  have same : (fun i => if i = index then q else if i = index then p else s.peers i) =
      fun i => if i = index then q else s.peers i := by
    funext i
    by_cases equal : i = index
    · rw [if_pos equal,if_pos equal]
    · rw [if_neg equal,if_neg equal,if_neg equal]
  unfold setPeer
  dsimp only
  rw [same]

theorem setPeer_at (s : IocpService) (index : Nat) (p : Peer) : (s.setPeer index p).peers index = p := if_pos rfl

theorem setPeer_off (s : IocpService) {index i : Nat} (p : Peer) (apart : i ≠ index) : (s.setPeer index p).peers i = s.peers i :=
  if_neg apart

theorem getPeer_ok (bound : index < maxPeerNum) (s : IocpService) : getPeer index s = .ok (s.peers index) s :=
  if_neg (Nat.not_le.mpr bound)

theorem getPeer_returned {index : Nat} (ran : getPeer index s = .ok p t) : index < maxPeerNum ∧ p = s.peers index ∧ t = s := by
  unfold getPeer at ran
  split at ran
  · cases ran
  · rename_i inside
    cases ran
    exact ⟨Nat.not_le.mp inside,rfl,rfl⟩

theorem modifyPeer_returned {f : Peer → Peer} (ran : modifyPeer index f s = .ok a t) : t = s.setPeer index (f (s.peers index)) := by
  cases ran
  rfl

theorem onReadBuf_returned {f : Throwing SockBuf α} (ran : onReadBuf index f s = .ok a t) :
    ∃ b, f (s.peers index).readBuf = .ok a b ∧ t = s.setPeer index {s.peers index with readBuf := b} := by
  unfold onReadBuf at ran
  split at ran
  · rename_i b inner
    cases ran
    exact ⟨b,inner,rfl⟩
  · cases ran

theorem onWriteBuf_returned {f : Throwing SockBuf α} (ran : onWriteBuf index f s = .ok a t) :
    ∃ b, f (s.peers index).writeBuf = .ok a b ∧ t = s.setPeer index {s.peers index with writeBuf := b} := by
  unfold onWriteBuf at ran
  split at ran
  · rename_i b inner
    cases ran
    exact ⟨b,inner,rfl⟩
  · cases ran

theorem onBackup_returned {f : Throwing SockBuf α} (ran : onBackup index f s = .ok a t) :
    ∃ b, f (s.peers index).writeBufBackup = .ok a b ∧ t = s.setPeer index {s.peers index with writeBufBackup := b} := by
  unfold onBackup at ran
  split at ran
  · rename_i b inner
    cases ran
    exact ⟨b,inner,rfl⟩
  · cases ran

theorem deleteIOCxt_released (context : Option Nat) (s : IocpService) : deleteIOCxt context s = .ok () (s.released context) := by
  cases context <;> rfl

theorem not_live (s : IocpService) (index : Nat) (serial : UInt64) :
    ((s.peers index).serial ≠ serial ∨ (s.peers index).socket = invalidSocket) ↔ ¬ Live s index serial := by
  unfold Live
  rw [not_and_or,not_not]

-- closePeer with a handle that is out of use deletes the context of its caller. Else it
-- calls onDisCon.
inductive Closing (s : IocpService) (index : Nat) (serial : UInt64) (context : Option Nat) : IocpService → Prop where
  | stale (dead : ¬ Live s index serial) : Closing s index serial context (s.released context)
  | called (live : Live s index serial) (ip : String) (port : UInt32) :
      Closing s index serial context (s.called (.onDisCon index serial ip port) (.onDisCon index serial context))

theorem closePeer_closing (ran : closePeer index serial context s = .ok () t) :
    index < maxPeerNum ∧ Closing s index serial context t := by
  unfold closePeer at ran
  obtain ⟨p,u,got,ran⟩ := bind_returned ran
  obtain ⟨bound,rfl,rfl⟩ := getPeer_returned got
  refine ⟨bound,?_⟩
  split at ran
  · rename_i dead
    rw [deleteIOCxt_released] at ran
    cases ran
    exact .stale ((not_live _ _ _).mp dead)
  · rename_i live
    cases ran
    exact .called (not_not.mp fun dead => live ((not_live _ _ _).mpr dead)) _ _

inductive Receiving (sys : System) (s : IocpService) (index : Nat) (serial : UInt64) (context : Option Nat) : IocpService → Prop where
  | stale (dead : ¬ Live s index serial) : Receiving sys s index serial context (s.released context)
  | posted (live : Live s index serial) (b : SockBuf) : Receiving sys s index serial context
      (((s.setPeer index {s.peers index with readBuf := b}).outstanding index serial (.recv b)).released context)
  | refused (no : sys.accepts = false) (live : Live s index serial) (b : SockBuf) (ip : String) (port : UInt32) : Receiving sys s index serial context
      ((s.setPeer index {s.peers index with readBuf := b}).leaked.called (.onDisCon index serial ip port)
        (.onDisCon index serial context))

theorem live_setPeer (serial_same : p.serial = (s.peers index).serial) (socket_same : p.socket = (s.peers index).socket) :
    Live (s.setPeer index p) i serial ↔ Live s i serial := by
  unfold Live
  by_cases same : i = index
  · subst same
    rw [setPeer_at,serial_same,socket_same]
  · rw [setPeer_off s p same]

theorem postRecvRequest_receiving (ran : postRecvRequest sys index serial context s = .ok () t) :
    index < maxPeerNum ∧ Receiving sys s index serial context t := by
  unfold postRecvRequest at ran
  obtain ⟨p,u,got,ran⟩ := bind_returned ran
  obtain ⟨bound,rfl,rfl⟩ := getPeer_returned got
  refine ⟨bound,?_⟩
  split at ran
  · rename_i dead
    rw [deleteIOCxt_released] at ran
    cases ran
    exact .stale ((not_live _ _ _).mp dead)
  · rename_i live
    have live : Live u index serial := not_not.mp fun dead => live ((not_live _ _ _).mpr dead)
    obtain ⟨io,v,issued,ran⟩ := bind_returned ran
    cases issued
    obtain ⟨_,w,ensured,ran⟩ := bind_returned ran
    obtain ⟨b,_,rfl⟩ := onReadBuf_returned ensured
    obtain ⟨_,x,room,ran⟩ := bind_returned ran
    obtain ⟨c,_,rfl⟩ := onReadBuf_returned room
    rw [setPeer_setPeer,setPeer_at] at ran
    split at ran
    · obtain ⟨_,y,posted,ran⟩ := bind_returned ran
      cases posted
      rw [deleteIOCxt_released] at ran
      cases ran
      dsimp only
      rw [setPeer_at]
      exact .posted live c
    · rename_i no
      obtain ⟨_,closing⟩ := closePeer_closing ran
      cases closing with
      | stale dead => exact absurd ((live_setPeer (s := u.leaked) (p := {u.peers index with readBuf := c}) rfl rfl).mpr live) dead
      | called _ ip port => exact .refused (Bool.eq_false_iff.mpr no) live c ip port

inductive Sending (s : IocpService) (index : Nat) (serial : UInt64) (buf : List UInt8) : IocpService → Prop where
  | stale (dead : ¬ Live s index serial) : Sending s index serial buf s
  | queued (live : Live s index serial) (busy : (s.peers index).wsaSend = true) (b : SockBuf)
      (appended : SockBuf.apendBuf buf (s.peers index).writeBufBackup = .ok () b) :
      Sending s index serial buf (s.setPeer index {s.peers index with writeBufBackup := b})
  | kicked (live : Live s index serial) (idle : (s.peers index).wsaSend = false) (b : SockBuf)
      (appended : SockBuf.apendBuf buf (s.peers index).writeBufBackup = .ok () b) :
      Sending s index serial buf
        ((s.setPeer index {s.peers index with writeBufBackup := b,wsaSend := true}).outstanding index serial .posted)

theorem send_sending {buf : List UInt8} (ran : send sys index serial buf s = .ok () t) :
    index < maxPeerNum ∧ Sending s index serial buf t := by
  unfold send at ran
  obtain ⟨p,u,got,ran⟩ := bind_returned ran
  obtain ⟨bound,rfl,rfl⟩ := getPeer_returned got
  refine ⟨bound,?_⟩
  split at ran
  · rename_i dead
    cases ran
    exact .stale ((not_live _ _ _).mp dead)
  · rename_i live
    have live : Live u index serial := not_not.mp fun dead => live ((not_live _ _ _).mpr dead)
    obtain ⟨_,v,pushed,ran⟩ := bind_returned ran
    obtain ⟨b,appended,rfl⟩ := onBackup_returned pushed
    split at ran
    · rename_i busy
      cases ran
      exact .queued live busy b appended
    · rename_i idle
      have idle : (u.peers index).wsaSend = false := Bool.eq_false_iff.mpr idle
      obtain ⟨_,w,flagged,ran⟩ := bind_returned ran
      obtain rfl := modifyPeer_returned flagged
      rw [setPeer_at,setPeer_setPeer] at ran
      obtain ⟨io,x,issued,ran⟩ := bind_returned ran
      cases issued
      split at ran
      · cases ran
        exact .kicked live idle b appended
      · cases ran

theorem freePeer_some {peers : Nat → Peer} {count start : Nat} (found : freePeer peers count start = some index) :
    index < start+count ∧ (peers index).socket = invalidSocket := by
  induction count generalizing start with
  | zero => cases found
  | succ count ih =>
    unfold freePeer at found
    split at found
    · rename_i free
      cases found
      exact ⟨by omega,free⟩
    · obtain ⟨bound,free⟩ := ih found
      exact ⟨by omega,free⟩

-- The slot of a new connection.
def joined (s : IocpService) (index : Nat) (c : Connection) : Peer :=
  {s.peers index with
    serial := s.serial
    socket := c.socket
    readBuf := final (SockBuf.reset (s.peers index).readBuf)
    writeBuf := final (SockBuf.reset (s.peers index).writeBuf)
    writeBufBackup := final (SockBuf.reset (s.peers index).writeBufBackup)
    wsaSend := false
    remoteIp := c.remoteIp
    remotePort := c.remotePort}

inductive Registered (s : IocpService) (c : Connection) : IocpService → Prop where
  | given (index : Nat) (bound : index < maxPeerNum) (free : (s.peers index).socket = invalidSocket) : Registered s c
      ({s.setPeer index (s.joined index c) with serial := s.serial+1}.called
        (.onCon index s.serial c.remoteIp c.remotePort) (.onCon index s.serial))

theorem newPeer_returned (made : s.newPeer = (index,t)) (bound : index < maxPeerNum) :
    (s.peers index).socket = invalidSocket ∧ ∀ c : Connection,
      t.setPeer index {t.peers index with remoteIp := c.remoteIp,remotePort := c.remotePort,socket := c.socket} =
        {s.setPeer index (s.joined index c) with serial := s.serial+1} := by
  unfold newPeer at made
  split at made
  · cases made
    exact absurd bound (by decide)
  · rename_i i found
    obtain ⟨_,free⟩ := freePeer_some found
    cases made
    refine ⟨free,fun c => ?_⟩
    have again := setPeer_setPeer s index {s.peers index with
      serial := s.serial
      socket := invalidSocket
      readBuf := final (SockBuf.reset (s.peers index).readBuf)
      writeBuf := final (SockBuf.reset (s.peers index).writeBuf)
      writeBufBackup := final (SockBuf.reset (s.peers index).writeBufBackup)
      wsaSend := false
      remoteIp := ""
      remotePort := 0} (s.joined index c)
    unfold joined at again ⊢
    rw [← again]
    show IocpService.mk _ _ _ _ _ _ _ _ _ = IocpService.mk _ _ _ _ _ _ _ _ _
    unfold setPeer
    simp only [if_true]

theorem registerSocket_registered (ran : registerSocket sys c s = .ok () t) : Registered s c t := by
  unfold registerSocket at ran
  obtain ⟨index,v,made,found⟩ := bind_returned ran
  obtain ⟨p,u,got,ran⟩ := bind_returned found
  clear found
  obtain ⟨bound,_,rfl⟩ := getPeer_returned got
  have made : s.newPeer = (index,u) := by cases made; rfl
  obtain ⟨free,same⟩ := newPeer_returned made bound
  have serial : (u.peers index).serial = s.serial := by
    have field := congrArg (fun t => (peers t index).serial) (same c)
    simp only [setPeer,if_true,joined] at field
    exact field
  obtain ⟨_,w,port,ran⟩ := bind_returned ran
  unfold updateCompletionPort at port
  split at port
  · obtain ⟨_,x,set,ran⟩ := bind_returned ran
    obtain rfl := modifyPeer_returned set
    obtain ⟨q,y,again,ran⟩ := bind_returned ran
    obtain ⟨_,rfl,rfl⟩ := getPeer_returned again
    cases port
    rw [setPeer_at,same c] at ran
    cases ran
    rw [serial]
    exact .given index bound free
  · cases port

-- The two write buffers when a send of `size` bytes has been completed.
inductive Merged (size : UInt32) (p : Peer) : SockBuf → SockBuf → Prop where
  | rest (moved : SockBuf.readMove size p.writeBuf = .ok () b) (count : SockBuf.readableBytes p.writeBufBackup = .ok n c)
      (nothing : ¬ n > 0) : Merged size p b p.writeBufBackup
  | both (moved : SockBuf.readMove size p.writeBuf = .ok () w) (count : SockBuf.readableBytes p.writeBufBackup = .ok n d)
      (something : n > 0)
      (appended : SockBuf.apendBuf (Block.slice p.writeBufBackup.buf p.writeBufBackup.readIndex.toNat n.toNat) w = .ok () b)
      (taken : SockBuf.readMove n p.writeBufBackup = .ok () c) : Merged size p b c

theorem readableBytes_returned {b c : SockBuf} (ran : SockBuf.readableBytes b = .ok n c) : c = b := by
  unfold SockBuf.readableBytes at ran
  dsimp only at ran
  split at ran
  · cases ran
  · cases ran
    rfl

theorem setPeer_same (s : IocpService) (index : Nat) : s.setPeer index (s.peers index) = s := by
  have same : (fun i => if i = index then s.peers index else s.peers i) = s.peers := by
    funext i
    split
    · rename_i equal
      rw [equal]
    · rfl
  unfold setPeer
  rw [same]

theorem writeBuf_counted (ran : onWriteBuf index SockBuf.readableBytes s = .ok n t) :
    t = s ∧ SockBuf.readableBytes (s.peers index).writeBuf = .ok n (s.peers index).writeBuf := by
  obtain ⟨b,count,after⟩ := onWriteBuf_returned ran
  obtain rfl := readableBytes_returned count
  exact ⟨after.trans (setPeer_same s index),count⟩

theorem backup_counted (ran : onBackup index SockBuf.readableBytes s = .ok n t) :
    t = s ∧ SockBuf.readableBytes (s.peers index).writeBufBackup = .ok n (s.peers index).writeBufBackup := by
  obtain ⟨b,count,after⟩ := onBackup_returned ran
  obtain rfl := readableBytes_returned count
  exact ⟨after.trans (setPeer_same s index),count⟩

theorem takeBackup_returned (ran : takeBackup index s = .ok () t) :
    ∃ b c, t = s.setPeer index {s.peers index with writeBuf := b,writeBufBackup := c} ∧
      ∀ size (p : Peer), SockBuf.readMove size p.writeBuf = .ok () (s.peers index).writeBuf →
        p.writeBufBackup = (s.peers index).writeBufBackup → Merged size p b c := by
  unfold takeBackup at ran
  obtain ⟨n,u,counted,found⟩ := bind_returned ran
  clear ran
  obtain ⟨rfl,count⟩ := backup_counted counted
  split at found
  · rename_i something
    obtain ⟨_,_,looked,ran⟩ := bind_returned found
    cases looked
    obtain ⟨_,v,pushed,ended⟩ := bind_returned ran
    obtain ⟨b,appended,rfl⟩ := onWriteBuf_returned pushed
    obtain ⟨c,taken,rfl⟩ := onBackup_returned ended
    rw [setPeer_at] at taken
    rw [setPeer_setPeer,setPeer_at]
    refine ⟨b,c,rfl,fun size p moved backup => ?_⟩
    rw [← backup] at count appended taken
    exact .both moved count something appended taken
  · rename_i nothing
    cases found
    refine ⟨_,_,(setPeer_same _ _).symm,fun size p moved backup => ?_⟩
    rw [← backup] at count ⊢
    exact .rest moved count nothing

-- processWrite of an open slot.
inductive Writing (sys : System) (s : IocpService) (index : Nat) (size : UInt32) (context : Nat) : IocpService → Prop where
  | done (merged : Merged size (s.peers index) b c) (count : SockBuf.readableBytes b = .ok n d) (nothing : ¬ n > 0) :
      Writing sys s index size context
        ((s.setPeer index {s.peers index with wsaSend := false,writeBuf := b,writeBufBackup := c}).released (some context))
  | posted (merged : Merged size (s.peers index) b c) (count : SockBuf.readableBytes b = .ok n d) (something : n > 0) :
      Writing sys s index size context
        (((s.setPeer index {s.peers index with wsaSend := true,writeBuf := b,writeBufBackup := c}).outstanding index
          (s.peers index).serial (.send b)).released (some context))
  | refused (no : sys.accepts = false) (merged : Merged size (s.peers index) b c) (count : SockBuf.readableBytes b = .ok n d) (something : n > 0)
      (ip : String) (port : UInt32) : Writing sys s index size context
        ((s.setPeer index {s.peers index with wsaSend := true,writeBuf := b,writeBufBackup := c}).leaked.called
          (.onDisCon index (s.peers index).serial ip port) (.onDisCon index (s.peers index).serial (some context)))

theorem postSendRequest_returned (ran : postSendRequest sys index serial context s = .ok () t) (live : Live s index serial) :
    t = ((s.setPeer index {s.peers index with wsaSend := true}).outstanding index serial
      (.send (s.peers index).writeBuf)).released context ∨
    sys.accepts = false ∧ ∃ ip port, t = (s.setPeer index {s.peers index with wsaSend := true}).leaked.called
      (.onDisCon index serial ip port) (.onDisCon index serial context) := by
  unfold postSendRequest at ran
  obtain ⟨p,u,got,found⟩ := bind_returned ran
  clear ran
  obtain ⟨bound,rfl,rfl⟩ := getPeer_returned got
  rw [if_neg fun dead => (not_live _ _ _).mp dead live] at found
  obtain ⟨_,v,flagged,rest⟩ := bind_returned found
  obtain rfl := modifyPeer_returned flagged
  obtain ⟨io,w,issued,next⟩ := bind_returned rest
  cases issued
  obtain ⟨_,x,counted,last⟩ := bind_returned next
  obtain ⟨rfl,_⟩ := writeBuf_counted counted
  split at last
  · obtain ⟨_,y,posted,ended⟩ := bind_returned last
    rw [deleteIOCxt_released] at ended
    cases ended
    cases posted
    left
    dsimp only
    rw [setPeer_at]
    rfl
  · rename_i no
    obtain ⟨_,closing⟩ := closePeer_closing last
    cases closing with
    | stale dead => exact absurd ((live_setPeer (s := u) (p := {u.peers index with wsaSend := true}) rfl rfl).mpr live) dead
    | called _ ip port => exact .inr ⟨Bool.eq_false_iff.mpr no,ip,port,rfl⟩

theorem processWrite_writing {k : Nat} (ran : processWrite sys index size k s = .ok () t)
    (valid : (s.peers index).socket ≠ invalidSocket) : Writing sys s index size k t := by
  unfold processWrite at ran
  obtain ⟨p,u,got,found⟩ := bind_returned ran
  clear ran
  obtain ⟨bound,rfl,rfl⟩ := getPeer_returned got
  rw [if_neg valid] at found
  obtain ⟨_,v,flagged,rest⟩ := bind_returned found
  obtain rfl := modifyPeer_returned flagged
  obtain ⟨_,w,moves,next⟩ := bind_returned rest
  obtain ⟨b,moved,rfl⟩ := onWriteBuf_returned moves
  obtain ⟨_,x,joins,last⟩ := bind_returned next
  obtain ⟨c,d,rfl,merges⟩ := takeBackup_returned joins
  rw [setPeer_setPeer,setPeer_setPeer,setPeer_at,setPeer_at] at last
  rw [setPeer_at] at moved
  simp only [setPeer_at] at merges
  have merged : Merged size (u.peers index) c d := merges size _ moved rfl
  obtain ⟨n,y,counted,ended⟩ := bind_returned last
  obtain ⟨rfl,count⟩ := writeBuf_counted counted
  rw [setPeer_at] at count
  split at ended
  · rename_i something
    have live := (live_setPeer (s := u) (p := {u.peers index with wsaSend := false,writeBuf := c,writeBufBackup := d})
      rfl rfl).mpr ⟨rfl,valid⟩
    rcases postSendRequest_returned ended live with rfl | ⟨no,ip,port,rfl⟩
    · rw [setPeer_setPeer,setPeer_at]
      exact .posted merged count something
    · rw [setPeer_setPeer,setPeer_at]
      exact .refused no merged count something ip port
  · rename_i nothing
    rw [deleteIOCxt_released] at ended
    cases ended
    exact .done merged count nothing

-- What the dequeued completion of `op` does.
inductive Completing (sys : System) (s : IocpService) (op : Operation) (size : UInt32) : IocpService → Prop where
  | ignored (shut : (s.peers op.index).socket = invalidSocket) : Completing sys s op size s
  | ended (valid : (s.peers op.index).socket ≠ invalidSocket) (read : op.request = .recv d) (zero : size = 0) (b : SockBuf)
      (ip : String) (port : UInt32) : Completing sys s op size
        ((s.setPeer op.index {s.peers op.index with readBuf := b}).called
          (.onDisCon op.index (s.peers op.index).serial ip port)
          (.onDisCon op.index (s.peers op.index).serial (some op.context)))
  | read (valid : (s.peers op.index).socket ≠ invalidSocket) (read : op.request = .recv d) (some_bytes : size ≠ 0) (b : SockBuf) :
      Completing sys s op size
        ((s.setPeer op.index {s.peers op.index with readBuf := b}).called (.onRead op.index (s.peers op.index).serial)
          (.onRead op.index (s.peers op.index).serial op.context))
  | wrote (valid : (s.peers op.index).socket ≠ invalidSocket) (write : ∀ d, op.request ≠ .recv d)
      (writing : Writing sys s op.index size op.context after) : Completing sys s op size after

-- What an event can do: one constructor for each way a call of the service ends.
inductive Effect (sys : System) (s : IocpService) : IocpEvent → IocpService → Prop where
  | refused (answer : Except String Connection) : Effect sys s (.connectPeer answer) s
  | connected (valid : c.socket ≠ invalidSocket) (registered : Registered s c after) : Effect sys s (.connectPeer (.ok c)) after
  | listening (sd : Int) (created : Except String Int) (failure : Option String) :
      Effect sys s (.listen created failure) {s with listenSd := sd}
  | sent (sending : Sending s slot mark buf.bytes after) : Effect sys s (.send slot mark buf) after
  | closing (closing : Closing s slot mark none after) : Effect sys s (.closePeer slot mark) after
  | consumed {slot : Nat} {mark : UInt64} {k : Nat} {rest : List Frame} (stack : s.stack = .onRead slot mark k :: rest) (b : SockBuf) (len : UInt32) :
      Effect sys s (.consume len) (s.setPeer slot {s.peers slot with readBuf := b})
  | outside (len : UInt32) : Effect sys s (.consume len) s
  | unasked (empty : s.stack = []) (ret : Int) : Effect sys s (.resume ret) s
  | onConDone {slot : Nat} {mark : UInt64} {rest : List Frame} (stack : s.stack = .onCon slot mark :: rest)
      (receiving : Receiving sys {s with stack := rest} slot (s.peers slot).serial none after) : Effect sys s (.resume ret) after
  | onDisConDone {slot : Nat} {mark : UInt64} {k : Option Nat} {rest : List Frame} (stack : s.stack = .onDisCon slot mark k :: rest) (ret : Int) : Effect sys s (.resume ret)
      (({s with stack := rest,closed := s.closed ++ [(s.peers slot).socket]}.setPeer slot
        {s.peers slot with socket := invalidSocket}).released k)
  | onReadRefused {slot : Nat} {mark : UInt64} {k : Nat} {rest : List Frame} (stack : s.stack = .onRead slot mark k :: rest) (negative : ret < 0)
      (closing : Closing {s with stack := rest} slot (s.peers slot).serial (some k) after) : Effect sys s (.resume ret) after
  | onReadDone {slot : Nat} {mark : UInt64} {k : Nat} {rest : List Frame} (stack : s.stack = .onRead slot mark k :: rest) (nonneg : ¬ ret < 0)
      (receiving : Receiving sys {s with stack := rest} slot (s.peers slot).serial (some k) after) : Effect sys s (.resume ret) after
  | quiet : Effect sys s (.acceptTick (.ok none)) s
  | accepted (registered : Registered s c after) : Effect sys s (.acceptTick (.ok (some c))) after
  | timeout : Effect sys s (.eventTick .timeout) s
  | unknown (absent : s.pending[k]? = none) : Effect sys s (.eventTick (.deleted k)) s
  | missing (absent : s.pending[k]? = none) : Effect sys s (.eventTick (.success k size stored)) s
  | deleted {k : Nat} {op : Operation} (found : s.pending[k]? = some op)
      (closing : Closing (s.dequeued k) op.index (s.peers op.index).serial (some op.context) after) :
      Effect sys s (.eventTick (.deleted k)) after
  | completed {k : Nat} {op : Operation} {size : UInt32} (found : s.pending[k]? = some op) (completing : Completing sys (s.dequeued k) op size after) :
      Effect sys s (.eventTick (.success k size stored)) after

theorem dequeued_perm {k : Nat} {op : Operation} (found : s.pending[k]? = some op) : (op :: (s.dequeued k).pending).Perm s.pending := by
  obtain ⟨inside,same⟩ := List.getElem?_eq_some_iff.mp found
  exact same ▸ List.getElem_cons_eraseIdx_perm inside

theorem dequeued_none {k : Nat} (absent : s.pending[k]? = none) : s.dequeued k = s := by
  have same : s.pending.eraseIdx k = s.pending := List.eraseIdx_of_length_le (List.getElem?_eq_none_iff.mp absent)
  unfold dequeued
  rw [same]

theorem discard {q : Throwing IocpService α} (ran : (q >>= fun _ => (pure () : Throwing IocpService Unit)) s = .ok () t) :
    ∃ a, q s = .ok a t := by
  obtain ⟨a,u,first,last⟩ := bind_returned ran
  cases last
  exact ⟨a,first⟩

theorem connectPeer_effect {answer : Except String Connection} (ran : connectPeer sys answer s = .ok done t) :
    Effect sys s (.connectPeer answer) t := by
  cases answer with
  | error text => cases ran
  | ok c =>
    unfold connectPeer at ran
    dsimp only at ran
    split at ran
    · cases ran
      exact .refused _
    · rename_i valid
      obtain ⟨_,u,registered,last⟩ := bind_returned ran
      cases last
      exact .connected valid (registerSocket_registered registered)

theorem listen_effect {created : Except String Int} {failure : Option String} (ran : listen created failure s = .ok () t) :
    Effect sys s (.listen created failure) t := by
  cases created with
  | error text => cases ran
  | ok sd =>
    cases failure with
    | none =>
      cases ran
      exact .listening sd _ _
    | some text => cases ran

theorem onAcceptTick_effect {answer : Except String (Option Connection)} (ran : onAcceptTick sys answer s = .ok () t) :
    Effect sys s (.acceptTick answer) t := by
  unfold onAcceptTick at ran
  obtain ⟨_,_,looked,rest⟩ := bind_returned ran
  cases looked
  split at rest
  · cases rest
  · split at rest
    · cases rest
    · cases rest
      exact .quiet
    · exact .accepted (registerSocket_registered rest)

theorem consume_effect {len : UInt32} (ran : consume len s = .ok () t) : Effect sys s (.consume len) t := by
  unfold consume at ran
  obtain ⟨_,_,looked,rest⟩ := bind_returned ran
  cases looked
  cases stack : s.stack with
  | nil =>
    rw [stack] at rest
    cases rest
    exact .outside len
  | cons frame older =>
    rw [stack] at rest
    cases frame with
    | onRead slot mark k =>
      obtain ⟨b,_,rfl⟩ := onReadBuf_returned rest
      exact .consumed stack b len
    | onCon | onDisCon =>
      cases rest
      exact .outside len

theorem resume_effect {ret : Int} (ran : resume sys ret s = .ok () t) : Effect sys s (.resume ret) t := by
  unfold resume at ran
  obtain ⟨_,_,looked,found⟩ := bind_returned ran
  cases looked
  clear ran
  cases stack : s.stack with
  | nil =>
    rw [stack] at found
    cases found
    exact .unasked stack ret
  | cons frame rest =>
    rw [stack] at found
    obtain ⟨_,u,popped,next⟩ := bind_returned found
    cases popped
    cases frame with
    | onCon slot mark =>
      obtain ⟨p,v,got,last⟩ := bind_returned next
      obtain ⟨_,rfl,rfl⟩ := getPeer_returned got
      exact .onConDone stack (postRecvRequest_receiving last).2
    | onDisCon slot mark k =>
      obtain ⟨_,v,closes,last⟩ := bind_returned next
      cases closes
      obtain ⟨_,w,deletes,ended⟩ := bind_returned last
      obtain ⟨p,x,got,shut⟩ := bind_returned deletes
      obtain ⟨_,rfl,rfl⟩ := getPeer_returned got
      obtain rfl := modifyPeer_returned shut
      rw [deleteIOCxt_released] at ended
      cases ended
      exact .onDisConDone stack ret
    | onRead slot mark k =>
      obtain ⟨p,v,got,last⟩ := bind_returned next
      obtain ⟨_,rfl,rfl⟩ := getPeer_returned got
      split at last
      · rename_i negative
        exact .onReadRefused stack negative (closePeer_closing last).2
      · rename_i nonneg
        exact .onReadDone stack nonneg (postRecvRequest_receiving last).2

theorem processRead_returned {k : Nat} (ran : processRead index size k s = .ok () t)
    (valid : (s.peers index).socket ≠ invalidSocket) :
    ∃ b, t = (s.setPeer index {s.peers index with readBuf := b}).called (.onRead index (s.peers index).serial)
      (.onRead index (s.peers index).serial k) := by
  unfold processRead at ran
  obtain ⟨p,u,got,found⟩ := bind_returned ran
  clear ran
  obtain ⟨_,rfl,rfl⟩ := getPeer_returned got
  rw [if_neg valid] at found
  obtain ⟨_,v,moves,last⟩ := bind_returned found
  obtain ⟨b,_,rfl⟩ := onReadBuf_returned moves
  cases last
  exact ⟨b,rfl⟩

theorem dispatch_completing {op : Operation} {size : UInt32} {stored : List UInt8}
    (ran : dispatch sys op size stored s = .ok () t) : Completing sys s op size t := by
  unfold dispatch at ran
  obtain ⟨p,u,got,next⟩ := bind_returned ran
  clear ran
  obtain ⟨_,rfl,rfl⟩ := getPeer_returned got
  split at next
  · rename_i shut
    cases next
    exact .ignored shut
  · rename_i valid
    cases request : op.request with
    | recv d =>
      rw [request] at next
      obtain ⟨_,w,stores,ended⟩ := bind_returned next
      obtain rfl := modifyPeer_returned stores
      split at ended
      · rename_i zero
        obtain ⟨_,closing⟩ := closePeer_closing ended
        cases closing with
        | stale dead =>
          refine absurd ?_ dead
          rw [live_setPeer]
          · exact ⟨rfl,valid⟩
          · rfl
          · rfl
        | called _ ip port => exact .ended valid request zero _ ip port
      · rename_i some_bytes
        obtain ⟨b,rfl⟩ := processRead_returned ended (by rw [setPeer_at]; exact valid)
        rw [setPeer_setPeer,setPeer_at]
        exact .read valid request some_bytes b
    | send d | posted =>
      rw [request] at next
      refine .wrote valid (fun d same => ?_) (processWrite_writing next valid)
      rw [request] at same
      cases same

theorem onEventTick_effect {completion : Completion} (ran : onEventTick sys completion s = .ok done t) :
    Effect sys s (.eventTick completion) t := by
  cases completion with
  | timeout =>
    cases ran
    exact .timeout
  | failed => cases ran
  | deleted k =>
    cases found : s.pending[k]? with
    | none =>
      have start : dequeue k s = .ok none (s.dequeued k) := by rw [← found]; rfl
      unfold onEventTick at ran
      dsimp only at ran
      rw [bind_ok start] at ran
      cases ran
      rw [dequeued_none found]
      exact .unknown found
    | some op =>
      have start : dequeue k s = .ok (some op) (s.dequeued k) := by rw [← found]; rfl
      unfold onEventTick at ran
      dsimp only at ran
      rw [bind_ok start] at ran
      obtain ⟨p,u,got,next⟩ := bind_returned ran
      clear ran start
      obtain ⟨_,rfl,rfl⟩ := getPeer_returned got
      obtain ⟨_,v,closes,last⟩ := bind_returned next
      cases last
      exact .deleted found (closePeer_closing closes).2
  | success k size stored =>
    cases found : s.pending[k]? with
    | none =>
      have start : dequeue k s = .ok none (s.dequeued k) := by rw [← found]; rfl
      unfold onEventTick at ran
      dsimp only at ran
      rw [bind_ok start] at ran
      cases ran
      rw [dequeued_none found]
      exact .missing found
    | some op =>
      have start : dequeue k s = .ok (some op) (s.dequeued k) := by rw [← found]; rfl
      unfold onEventTick at ran
      dsimp only at ran
      rw [bind_ok start] at ran
      obtain ⟨_,v,handled,last⟩ := bind_returned ran
      cases last
      exact .completed found (dispatch_completing handled)

theorem IocpStep.genuine {input : IocpInput} (step : IocpStep s input t) : Genuine s input.event := by
  cases step with
  | returns genuine ran => exact genuine

-- Every call that returns has one of the effects.
theorem step_effect {input : IocpInput} (step : IocpStep s input t) : Effect input.sys s input.event t := by
  obtain ⟨event,sys⟩ := input
  cases step with
  | returns genuine ran =>
    cases event with
    | connectPeer answer =>
      obtain ⟨done,ran⟩ := discard ran
      exact connectPeer_effect ran
    | listen created failure => exact listen_effect ran
    | send slot mark buf => exact .sent (send_sending ran).2
    | closePeer slot mark => exact .closing (closePeer_closing ran).2
    | consume len => exact consume_effect ran
    | resume ret => exact resume_effect ran
    | acceptTick answer => exact onAcceptTick_effect ran
    | eventTick completion =>
      obtain ⟨done,ran⟩ := discard ran
      exact onEventTick_effect ran

end PcNetwork.Libnet.IocpService
