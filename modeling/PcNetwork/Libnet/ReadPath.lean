import PcNetwork.Libnet.Pipeline

namespace PcNetwork.Libnet.IocpService
variable {s t u : IocpService} {p q : Peer} {index i k : Nat} {serial : UInt64} {context : Option Nat} {size : UInt32} {sys : System}
  {op : Operation} {ops more : List Operation} {frame : Frame} {waits : List Frame} {reading : Nat} {out arrived : List UInt8} {b c d : SockBuf}

-- The bytes that a completion brings to a slot, and those that the application takes
-- out of its buffer in onRead.
def stored_bytes (i : Nat) (t : Transition IocpService IocpInput) : List UInt8 :=
  match t.event.event with
  | .eventTick (.success k _ stored) =>
    match t.before.pending[k]? with
    | some op => if op.index = i then stored else []
    | none => []
  | _ => []

def drawn (i : Nat) (s : IocpService) (len : UInt32) : List UInt8 :=
  match s.stack with
  | .onRead index _ _ :: _ => if index = i then (s.peers i).readBuf.readable.take len.toNat else []
  | _ => []

def takes (i : Nat) (t : Transition IocpService IocpInput) : List UInt8 :=
  match t.event.event with
  | .consume len => drawn i t.before len
  | _ => []

def received (i : Nat) (taken : List (Transition IocpService IocpInput)) : List UInt8 := taken.flatMap (stored_bytes i)
def consumed (i : Nat) (taken : List (Transition IocpService IocpInput)) : List UInt8 := taken.flatMap (takes i)

-- A readMove of 2^31 bytes or more may wrap around and go back.
def Moderate (t : Transition IocpService IocpInput) : Prop :=
  match t.event.event with
  | .consume len => len.toNat < 2^31
  | _ => True

-- The read buffer of an open slot, with `reading` completions in hand: the outstanding
-- WSARecv has been given the buffer as it is, and nothing else uses it.
structure Inlet (p : Peer) (ops : List Operation) (waits : List Frame) (reading : Nat) (out arrived : List UInt8) : Prop where
  ok : SockBuf.Ok p.readBuf
  current : ∀ op ∈ ops, ∀ b, op.request = .recv b → b = p.readBuf ∧ 512 ≤ b.size.toNat-b.writeIndex.toNat
  serving : waits.all serves = true → ops.countP recvs+waits.length+reading = 1
  top : ∀ frame rest, waits = frame :: rest → serves frame = true → waits.all serves = true
  quiet : ∀ frame ∈ waits, serves frame = true → ops.countP recvs+reading = 0
  bytes : out ++ p.readBuf.readable = arrived

theorem unreceived (none : ops.countP recvs = 0) (member : op ∈ ops) (d : SockBuf) : op.request ≠ .recv d := by
  intro given
  have kind := List.countP_eq_zero.mp none op member
  unfold recvs at kind
  rw [given] at kind
  exact kind rfl

theorem Inlet.perm (inlet : Inlet p ops waits reading out arrived) (same : more.Perm ops) : Inlet p more waits reading out arrived := by
  obtain ⟨ok,current,serving,top,quiet,bytes⟩ := inlet
  rw [← same.countP_eq] at serving quiet
  exact ⟨ok,fun op member => current op (same.mem_iff.mp member),serving,top,quiet,bytes⟩

-- Only what is not of the read buffer has been changed.
theorem Inlet.peer (inlet : Inlet p ops waits reading out arrived) (same : q.readBuf = p.readBuf) :
    Inlet q ops waits reading out arrived := by
  obtain ⟨ok,current,serving,top,quiet,bytes⟩ := inlet
  rw [← same] at ok current bytes
  exact ⟨ok,current,serving,top,quiet,bytes⟩

-- While no WSARecv is outstanding, the buffer may be moved to where there is room.
theorem Inlet.relocated (inlet : Inlet p ops waits reading out arrived) (none : ops.countP recvs = 0) (ok : SockBuf.Ok b)
    (same : b.readable = p.readBuf.readable) : Inlet {p with readBuf := b} ops waits reading out arrived := by
  obtain ⟨_,_,serving,top,quiet,bytes⟩ := inlet
  rw [← same] at bytes
  exact ⟨ok,fun op member d given => absurd given (unreceived none member d),serving,top,quiet,bytes⟩

theorem Inlet.unread (inlet : Inlet p ops waits 1 out arrived) (all : waits.all serves = true) :
    ops.countP recvs = 0 ∧ waits = [] := by
  have one := inlet.serving all
  exact ⟨by omega,List.length_eq_zero_iff.mp (by omega)⟩

theorem Inlet.posted (inlet : Inlet p ops [] 1 out arrived) (room : 512 ≤ p.readBuf.size.toNat-p.readBuf.writeIndex.toNat)
    (read : op.request = .recv p.readBuf) : Inlet p (ops ++ [op]) [] 0 out arrived := by
  have none := (inlet.unread rfl).1
  obtain ⟨ok,current,serving,top,quiet,bytes⟩ := inlet
  have kind : recvs op = true := by
    unfold recvs
    rw [read]
  have counts := (recv_counts ops kind).2
  refine ⟨ok,fun o member d given => ?_,fun _ => ?_,top,List.forall_mem_nil _,bytes⟩
  · rcases List.mem_append.mp member with old | new
    · exact absurd given (unreceived none old d)
    · rw [List.mem_singleton.mp new,read] at given
      cases given
      exact ⟨rfl,room⟩
  · rw [List.length_nil]
    omega

-- A write is outstanding.
theorem Inlet.writes (inlet : Inlet p ops waits reading out arrived) (kind : recvs op = false) :
    Inlet p (ops ++ [op]) waits reading out arrived := by
  obtain ⟨ok,current,serving,top,quiet,bytes⟩ := inlet
  rw [← (write_counts ops kind).2] at serving quiet
  refine ⟨ok,fun o member d given => ?_,serving,top,quiet,bytes⟩
  rcases List.mem_append.mp member with old | new
  · exact current o old d given
  · rw [List.mem_singleton.mp new] at given
    unfold recvs at kind
    rw [given] at kind
    cases kind

-- A completion is dequeued while no callback is waited for.
theorem Inlet.dequeued (inlet : Inlet p (op :: ops) [] 0 out arrived) :
    Inlet p ops [] (if recvs op then 1 else 0) out arrived := by
  obtain ⟨ok,current,serving,top,quiet,bytes⟩ := inlet
  refine ⟨ok,fun o member => current o (List.mem_cons_of_mem _ member),fun all => ?_,top,List.forall_mem_nil _,bytes⟩
  have one := serving all
  rw [List.countP_cons] at one
  omega

theorem Inlet.filled (inlet : Inlet p ops [] 1 out arrived) {stored : List UInt8} (ok : SockBuf.Ok b)
    (grown : b.readable = p.readBuf.readable ++ stored) : Inlet {p with readBuf := b} ops [] 1 out (arrived ++ stored) := by
  have none := (inlet.unread rfl).1
  obtain ⟨_,_,serving,top,quiet,bytes⟩ := inlet
  refine ⟨ok,fun op member d given => absurd given (unreceived none member d),serving,top,quiet,?_⟩
  rw [← bytes,grown,List.append_assoc]

-- The completion in hand waits for its callback, and goes on.
theorem Inlet.calls (inlet : Inlet p ops [] 1 out arrived) (serve : serves frame = true) : Inlet p ops [frame] 0 out arrived := by
  have none := (inlet.unread rfl).1
  obtain ⟨ok,current,serving,top,quiet,bytes⟩ := inlet
  refine ⟨ok,current,fun _ => ?_,fun _ _ _ _ => ?_,fun _ _ _ => by rw [none],bytes⟩
  · rw [none,List.length_singleton]
  · rw [List.all_cons,serve,List.all_nil,Bool.and_true]

theorem Inlet.resumed (inlet : Inlet p ops (frame :: waits) 0 out arrived) (serve : serves frame = true) :
    waits = [] ∧ Inlet p ops [] 1 out arrived := by
  obtain ⟨ok,current,serving,top,quiet,bytes⟩ := inlet
  have one := serving (top frame waits rfl serve)
  rw [List.length_cons] at one
  have last : waits = [] := List.length_eq_zero_iff.mp (by omega)
  refine ⟨last,ok,current,fun _ => ?_,nofun,List.forall_mem_nil _,bytes⟩
  rw [List.length_nil]
  omega

-- closePeer is called: the completion in hand comes to nothing.
theorem Inlet.shut (inlet : Inlet p ops waits reading out arrived) (closing : serves frame = false) :
    Inlet p ops (frame :: waits) 0 out arrived := by
  obtain ⟨ok,current,_,_,quiet,bytes⟩ := inlet
  refine ⟨ok,current,fun all => ?_,fun _ _ same serve => ?_,fun f member serve => ?_,bytes⟩
  · rw [List.all_cons,closing,Bool.false_and] at all
    cases all
  · cases same
    rw [closing] at serve
    cases serve
  · rcases List.mem_cons.mp member with rfl | below
    · rw [closing] at serve
      cases serve
    · have none := quiet f below serve
      omega

-- The application takes bytes in onRead.
theorem Inlet.taken (inlet : Inlet p ops (frame :: waits) 0 out arrived) (serve : serves frame = true) (ok : SockBuf.Ok b)
    {bytes : List UInt8} (parts : p.readBuf.readable = bytes ++ b.readable) :
    Inlet {p with readBuf := b} ops (frame :: waits) 0 (out ++ bytes) arrived := by
  obtain ⟨_,_,serving,top,quiet,joined⟩ := inlet
  have one := serving (top frame waits rfl serve)
  rw [List.length_cons] at one
  have none : ops.countP recvs = 0 := by omega
  refine ⟨ok,fun op member d given => absurd given (unreceived none member d),serving,top,quiet,?_⟩
  rw [List.append_assoc,← parts,joined]

-- The read buffer of slot i in a state of the service.
def Fetching (i reading : Nat) (out arrived : List UInt8) (s : IocpService) : Prop :=
  Inlet (s.peers i) (operations s i) (frames s i) reading out arrived

theorem Fetching.apart (fetching : Fetching i reading out arrived s) (apart : Apart i s t) : Fetching i reading out arrived t := by
  unfold Fetching
  rw [apart.peer,apart.frames]
  exact Inlet.perm fetching apart.operations

theorem Fetching.released (fetching : Fetching i reading out arrived s) (context : Option Nat) :
    Fetching i reading out arrived (s.released context) := fetching.apart ((Apart.refl s).released context)

theorem Fetching.called (fetching : Fetching i reading out arrived s) (c : Callback) (own : slot frame = i)
    (closing : serves frame = false) : Fetching i 0 out arrived (s.called c frame) := by
  unfold Fetching
  rw [frames_called s c own]
  exact Inlet.shut fetching closing

theorem Fetching.refused (fetching : Fetching i reading out arrived s) (c : Callback) (own : slot frame = i)
    (closing : serves frame = false) : Fetching i 0 out arrived (s.leaked.called c frame) :=
  Fetching.called (fetching.apart (Apart.refl s).leaked) c own closing

theorem Fetching.setPeer (fetching : Fetching i reading out arrived s) {p : Peer} (same : p.readBuf = (s.peers i).readBuf) :
    Fetching i reading out arrived (s.setPeer i p) := by
  unfold Fetching
  rw [setPeer_at]
  exact Inlet.peer fetching same

theorem Fetching.writes {request : Request} (fetching : Fetching i reading out arrived s)
    (write : recvs ⟨s.issued,i,serial,request⟩ = false) : Fetching i reading out arrived (s.outstanding i serial request) := by
  unfold Fetching
  rw [operations_outstanding]
  exact Inlet.writes fetching write

theorem Fetching.closing (fetching : Fetching i reading out arrived s) (closing : Closing s i serial context t)
    (live : Live s i serial) : Fetching i 0 out arrived t := by
  cases closing with
  | stale dead => exact absurd live dead
  | called _ ip port => exact fetching.called _ rfl rfl

theorem Fetching.sending {buf : List UInt8} (fetching : Fetching i reading out arrived s) (sending : Sending s i serial buf t) :
    Fetching i reading out arrived t := by
  cases sending with
  | stale dead => exact fetching
  | queued _ busy b appended => exact fetching.setPeer rfl
  | kicked _ idle b appended =>
    apply Fetching.writes
    · exact fetching.setPeer rfl
    · rfl

theorem Fetching.wrote (fetching : Fetching i 0 out arrived s) (writing : Writing sys s i size k t) : Fetching i 0 out arrived t := by
  cases writing with
  | done merged count nothing =>
    apply Fetching.released
    exact fetching.setPeer rfl
  | posted merged count something =>
    apply Fetching.released
    apply Fetching.writes
    · exact fetching.setPeer rfl
    · rfl
  | refused no merged count something ip port =>
    refine Fetching.refused (?_ : Fetching i 0 out arrived _) _ rfl rfl
    exact fetching.setPeer rfl

theorem writableBytes_same {n : UInt32} (ran : SockBuf.writableBytes b = .ok n c) : c = b := by
  unfold SockBuf.writableBytes at ran
  dsimp only at ran
  split at ran
  · cases ran
  · cases ran
    rfl

-- postRecvRequest makes room for 512 bytes, and nothing else of the buffer.
theorem postRecvRequest_room (ran : postRecvRequest sys index serial context s = .ok () t) (live : Live s index serial) :
    SockBuf.ensureWritableBytes 512 (s.peers index).readBuf = .ok () (t.peers index).readBuf := by
  unfold postRecvRequest at ran
  obtain ⟨p,u,got,next⟩ := bind_returned ran
  clear ran
  obtain ⟨_,rfl,rfl⟩ := getPeer_returned got
  rw [if_neg fun dead => (not_live _ _ _).mp dead live] at next
  obtain ⟨io,v,issued,rest⟩ := bind_returned next
  cases issued
  obtain ⟨_,w,ensured,last⟩ := bind_returned rest
  obtain ⟨b,made,rfl⟩ := onReadBuf_returned ensured
  obtain ⟨_,x,room,ended⟩ := bind_returned last
  obtain ⟨c,counted,rfl⟩ := onReadBuf_returned room
  rw [setPeer_at] at counted
  obtain rfl := writableBytes_same counted
  rw [setPeer_setPeer,setPeer_at] at ended
  split at ended
  · obtain ⟨_,y,posted,released⟩ := bind_returned ended
    cases posted
    rw [deleteIOCxt_released] at released
    cases released
    rw [released_peers]
    dsimp only
    rw [setPeer_at]
    exact made
  · obtain ⟨_,closing⟩ := closePeer_closing ended
    cases closing with
    | stale dead =>
      rw [released_peers,setPeer_at]
      exact made
    | called _ ip port =>
      rw [called_peers,setPeer_at]
      exact made

theorem resume_connects {ret : Int} {mark : UInt64} {rest : List Frame} (ran : resume sys ret s = .ok () t)
    (stack : s.stack = .onCon index mark :: rest) :
    postRecvRequest sys index (s.peers index).serial none {s with stack := rest} = .ok () t := by
  unfold resume at ran
  obtain ⟨_,_,looked,found⟩ := bind_returned ran
  cases looked
  clear ran
  rw [stack] at found
  obtain ⟨_,u,popped,next⟩ := bind_returned found
  cases popped
  obtain ⟨p,v,got,last⟩ := bind_returned next
  obtain ⟨_,rfl,rfl⟩ := getPeer_returned got
  exact last

theorem resume_reads {ret : Int} {mark : UInt64} {rest : List Frame} (ran : resume sys ret s = .ok () t)
    (stack : s.stack = .onRead index mark k :: rest) (nonneg : ¬ ret < 0) :
    postRecvRequest sys index (s.peers index).serial (some k) {s with stack := rest} = .ok () t := by
  unfold resume at ran
  obtain ⟨_,_,looked,found⟩ := bind_returned ran
  cases looked
  clear ran
  rw [stack] at found
  obtain ⟨_,u,popped,next⟩ := bind_returned found
  cases popped
  obtain ⟨p,v,got,last⟩ := bind_returned next
  obtain ⟨_,rfl,rfl⟩ := getPeer_returned got
  rw [if_neg nonneg] at last
  exact last

theorem Fetching.receiving (fetching : Fetching i 1 out arrived s) (idle : frames s i = [])
    (ran : postRecvRequest sys i serial context s = .ok () t) (live : Live s i serial) : Fetching i 0 out arrived t := by
  have made := postRecvRequest_room ran live
  unfold Fetching at fetching
  rw [idle] at fetching
  have none := (fetching.unread rfl).1
  have small : (512 : UInt32).toNat < 2^31 := by decide
  rcases SockBuf.ensureWritableBytes_spaced fetching.ok small with ⟨c,same,kept,readable,room,_⟩ | ⟨_,text,threw⟩
  · rw [same] at made
    have moved := fetching.relocated none kept readable
    obtain ⟨_,receiving⟩ := postRecvRequest_receiving ran
    cases receiving with
    | stale dead => exact absurd live dead
    | posted _ b =>
      rw [released_peers,outstanding_peers,setPeer_at] at made
      cases made
      apply Fetching.released
      unfold Fetching
      rw [operations_outstanding,outstanding_peers,setPeer_at]
      have quiet : frames ((s.setPeer i {s.peers i with readBuf := b}).outstanding i serial (.recv b)) i = [] := idle
      rw [quiet]
      exact moved.posted room rfl
    | refused no _ b ip port =>
      rw [called_peers,leaked_peers,setPeer_at] at made
      cases made
      refine Fetching.refused (?_ : Fetching i 1 out arrived _) _ rfl rfl
      unfold Fetching
      rw [setPeer_at]
      have quiet : frames (s.setPeer i {s.peers i with readBuf := b}) i = [] := idle
      rw [quiet]
      exact moved
  · rw [threw] at made
    cases made

theorem patch_nothing (bytes : List UInt8) (off : Nat) : Block.patch bytes off [] = bytes := by
  unfold Block.patch
  rw [List.append_nil]
  exact List.take_append_drop off bytes

-- What a completed WSARecv does to the buffer.
theorem dispatch_read {stored : List UInt8} (ran : dispatch sys op size stored s = .ok () t)
    (valid : (s.peers op.index).socket ≠ invalidSocket) (read : op.request = .recv d) (some_bytes : size ≠ 0) :
    SockBuf.writeMove size {(s.peers op.index).readBuf with
      buf := Block.patch (s.peers op.index).readBuf.buf d.writeIndex.toNat stored} = .ok () (t.peers op.index).readBuf := by
  unfold dispatch at ran
  obtain ⟨p,u,got,next⟩ := bind_returned ran
  clear ran
  obtain ⟨_,rfl,rfl⟩ := getPeer_returned got
  rw [if_neg valid,read] at next
  obtain ⟨_,w,stores,ended⟩ := bind_returned next
  obtain rfl := modifyPeer_returned stores
  rw [if_neg some_bytes] at ended
  unfold processRead at ended
  obtain ⟨q,v,again,found⟩ := bind_returned ended
  obtain ⟨_,rfl,rfl⟩ := getPeer_returned again
  rw [setPeer_at,if_neg valid] at found
  obtain ⟨_,x,moves,last⟩ := bind_returned found
  obtain ⟨b,moved,rfl⟩ := onReadBuf_returned moves
  cases last
  rw [setPeer_at] at moved
  dsimp only
  rw [setPeer_at]
  exact moved

theorem dispatch_ended {stored : List UInt8} (ran : dispatch sys op 0 stored s = .ok () t)
    (valid : (s.peers op.index).socket ≠ invalidSocket) (read : op.request = .recv d) :
    (t.peers op.index).readBuf = {(s.peers op.index).readBuf with
      buf := Block.patch (s.peers op.index).readBuf.buf d.writeIndex.toNat stored} := by
  unfold dispatch at ran
  obtain ⟨p,u,got,next⟩ := bind_returned ran
  clear ran
  obtain ⟨_,rfl,rfl⟩ := getPeer_returned got
  rw [if_neg valid,read] at next
  obtain ⟨_,w,stores,ended⟩ := bind_returned next
  obtain rfl := modifyPeer_returned stores
  rw [if_pos rfl] at ended
  obtain ⟨_,closing⟩ := closePeer_closing ended
  cases closing with
  | stale dead => rw [released_peers,setPeer_at]
  | called _ ip port => rw [called_peers,setPeer_at]

-- A completion of slot i that stays open.
theorem Fetching.completing {stored : List UInt8} (fetching : Fetching i 0 out arrived s) (idle : frames s i = [])
    (found : s.pending[k]? = some op) (own : op.index = i) (ran : dispatch sys op size stored (s.dequeued k) = .ok () t)
    (reported : Reports op size stored) (valid : (s.peers i).socket ≠ invalidSocket) :
    Fetching i 0 out (arrived ++ stored) t := by
  subst own
  unfold Fetching at fetching
  rw [idle] at fetching
  have parts := dequeued_operations found op.index
  rw [List.filter_cons_of_pos (by simp)] at parts
  have shared := fetching.current op (operations_dequeued found rfl)
  have start := Inlet.dequeued (fetching.perm parts)
  unfold recvs at start
  unfold Reports at reported
  have completing := dispatch_completing ran
  cases completing with
  | ignored shut => exact absurd shut valid
  | @ended d _ read zero b ip port =>
    subst zero
    rw [read] at start reported
    have nothing : stored = [] := List.length_eq_zero_iff.mp reported.1
    have same := dispatch_ended ran valid read
    rw [nothing,patch_nothing,called_peers,setPeer_at] at same
    rw [nothing,List.append_nil]
    refine Fetching.called (?_ : Fetching op.index 1 out arrived _) _ rfl rfl
    unfold Fetching
    rw [setPeer_at]
    have quiet : frames ((s.dequeued k).setPeer op.index {(s.dequeued k).peers op.index with readBuf := b}) op.index = [] := idle
    rw [quiet]
    exact start.peer same
  | @read d _ read some_bytes b =>
    rw [read] at start reported
    obtain ⟨same,_⟩ := shared d read
    obtain ⟨count,room⟩ := reported
    subst same
    have moved := dispatch_read ran valid read some_bytes
    rw [called_peers,setPeer_at] at moved
    have free := (SockBuf.writableBytes_ok fetching.ok).2
    have fits := UInt32.le_iff_toNat_le.mp room
    obtain ⟨c,filled,kept,grown⟩ := SockBuf.writeMove_ok fetching.ok count.symm (by omega)
    have joined : SockBuf.writeMove size {(s.peers op.index).readBuf with
      buf := Block.patch (s.peers op.index).readBuf.buf (s.peers op.index).readBuf.writeIndex.toNat stored} = .ok () c := filled
    cases joined.symm.trans moved
    have waits : slot (.onRead op.index ((s.dequeued k).peers op.index).serial op.context) = op.index := rfl
    unfold Fetching
    rw [frames_called _ _ waits,called_peers,setPeer_at]
    have quiet : frames ((s.dequeued k).setPeer op.index {(s.dequeued k).peers op.index with readBuf := b}) op.index = [] := idle
    rw [quiet]
    exact (start.filled kept grown).calls rfl
  | wrote _ write writing =>
    have write_kind : ∀ kept : Inlet (s.peers op.index) (operations (s.dequeued k) op.index) [] 0 out arrived,
        stored = [] → Fetching op.index 0 out (arrived ++ stored) t := by
      intro kept nothing
      rw [nothing,List.append_nil]
      refine Fetching.wrote (s := s.dequeued k) ?_ writing
      unfold Fetching
      have quiet : frames (s.dequeued k) op.index = [] := idle
      rw [quiet]
      exact kept
    cases request : op.request with
    | recv d => exact absurd request (write d)
    | send d | posted =>
      rw [request] at start reported
      exact write_kind start reported.1

-- readMove of fewer than 2^31 bytes does not wrap around.
theorem readMove_moderate {len : UInt32} (ok : SockBuf.Ok b) (small : len.toNat < 2^31) (ran : SockBuf.readMove len b = .ok () c) :
    SockBuf.Ok c ∧ b.readable = b.readable.take len.toNat ++ c.readable := by
  refine readMove_returned ok ?_ ran
  obtain ⟨read,write,bound,_⟩ := id ok
  have moved : (b.readIndex+len).toNat = b.readIndex.toNat+len.toNat := SockBuf.toNat_add (by omega)
  unfold SockBuf.readMove at ran
  dsimp only at ran
  split at ran
  · cases ran
  · rename_i inside
    have within := Nat.not_lt.mp fun less => inside (UInt32.lt_iff_toNat_lt.mpr less)
    rw [ok.length_readable]
    omega

theorem consume_returned {len : UInt32} (ran : consume len s = .ok () t) :
    (t = s ∧ ∀ i, drawn i s len = []) ∨
    ∃ index mark k rest b, s.stack = .onRead index mark k :: rest ∧ SockBuf.readMove len (s.peers index).readBuf = .ok () b ∧
      t = s.setPeer index {s.peers index with readBuf := b} := by
  unfold consume at ran
  obtain ⟨_,_,looked,next⟩ := bind_returned ran
  cases looked
  unfold drawn
  cases stack : s.stack with
  | nil =>
    rw [stack] at next
    cases next
    exact .inl ⟨rfl,fun _ => rfl⟩
  | cons frame rest =>
    rw [stack] at next
    cases frame with
    | onCon | onDisCon =>
      cases next
      exact .inl ⟨rfl,fun _ => rfl⟩
    | onRead index mark k =>
      obtain ⟨b,moved,rfl⟩ := onReadBuf_returned next
      exact .inr ⟨index,mark,k,rest,b,rfl,moved,rfl⟩

theorem Fetching.draws {len : UInt32} (fetching : Fetching i 0 out arrived s) (ran : consume len s = .ok () t)
    (small : len.toNat < 2^31) : Fetching i 0 (out ++ drawn i s len) arrived t := by
  rcases consume_returned ran with ⟨rfl,none⟩ | ⟨index,mark,k,rest,b,stack,moved,rfl⟩
  · rw [none,List.append_nil]
    exact fetching
  · unfold drawn
    rw [stack]
    dsimp only
    by_cases own : index = i
    · subst own
      rw [if_pos rfl]
      obtain ⟨kept,parts⟩ := readMove_moderate fetching.ok small moved
      have waits : slot (.onRead index mark k) = index := rfl
      unfold Fetching at fetching ⊢
      have frames_same : frames (s.setPeer index {s.peers index with readBuf := b}) index = frames s index := rfl
      rw [setPeer_at,frames_same]
      rw [frames_popped stack waits] at fetching ⊢
      exact fetching.taken rfl kept parts
    · rw [if_neg own,List.append_nil]
      exact fetching.apart ((Apart.refl s).setPeer own _)

-- The call of a tick that finds its completion.
theorem onEventTick_dispatch {stored : List UInt8} {done : Bool} (ran : onEventTick sys (.success k size stored) s = .ok done t)
    (found : s.pending[k]? = some op) : dispatch sys op size stored (s.dequeued k) = .ok () t := by
  have start : dequeue k s = .ok (some op) (s.dequeued k) := by rw [← found]; rfl
  unfold onEventTick at ran
  dsimp only at ran
  rw [bind_ok start] at ran
  obtain ⟨_,v,handled,last⟩ := bind_returned ran
  cases last
  exact handled

theorem Fetching.registered {c : Connection} (fetching : Fetching i 0 out arrived s) (registered : Registered s c t)
    (valid : (s.peers i).socket ≠ invalidSocket) : Fetching i 0 out arrived t := by
  cases registered with
  | given index bound free =>
    have other : index ≠ i := fun same => valid (same ▸ free)
    exact fetching.apart (registered_apart other)

theorem Fetching.popped {rest : List Frame} (fetching : Fetching i 0 out arrived s) (stack : s.stack = frame :: rest)
    (own : slot frame = i) (serve : serves frame = true) :
    frames {s with stack := rest} i = [] ∧ Fetching i 1 out arrived {s with stack := rest} := by
  unfold Fetching at fetching
  rw [frames_popped stack own] at fetching
  obtain ⟨idle,open_slot⟩ := fetching.resumed serve
  refine ⟨idle,?_⟩
  unfold Fetching
  rw [idle]
  exact open_slot

-- The completion of a slot is in hand and comes to nothing.
theorem Fetching.dequeued (fetching : Fetching i 0 out arrived s) (idle : frames s i = []) (found : s.pending[k]? = some op)
    (own : op.index = i) : Fetching i (if recvs op then 1 else 0) out arrived (s.dequeued k) := by
  unfold Fetching at fetching ⊢
  have quiet : frames (s.dequeued k) i = [] := idle
  have parts := dequeued_operations found i
  rw [List.filter_cons_of_pos (by simpa using own)] at parts
  rw [idle] at fetching
  rw [quiet]
  exact Inlet.dequeued (fetching.perm parts)

-- What a step does to the read buffer of a slot that stays open.
theorem fetching_step {input : IocpInput} (step : IocpStep s input t) (fetching : Fetching i 0 out arrived s)
    (moderate : Moderate ⟨s,input,t⟩) (valid : (s.peers i).socket ≠ invalidSocket) (still : (t.peers i).socket ≠ invalidSocket) :
    Fetching i 0 (out ++ takes i ⟨s,input,t⟩) (arrived ++ stored_bytes i ⟨s,input,t⟩) t := by
  have effect := step_effect step
  obtain ⟨genuine,ran⟩ := step
  obtain ⟨event,sys⟩ := input
  dsimp only at effect genuine
  have plain (silent : takes i ⟨s,⟨event,sys⟩,t⟩ = []) (quiet : stored_bytes i ⟨s,⟨event,sys⟩,t⟩ = [])
      (kept : Fetching i 0 out arrived t) :
      Fetching i 0 (out ++ takes i ⟨s,⟨event,sys⟩,t⟩) (arrived ++ stored_bytes i ⟨s,⟨event,sys⟩,t⟩) t := by
    rw [silent,quiet,List.append_nil,List.append_nil]
    exact kept
  cases event with
  | consume len =>
    have small : len.toNat < 2^31 := moderate
    show Fetching i 0 (out ++ drawn i s len) (arrived ++ []) t
    rw [List.append_nil]
    exact fetching.draws ran small
  | connectPeer answer =>
    cases effect with
    | refused => exact plain rfl rfl fetching
    | connected _ registered => exact plain rfl rfl (fetching.registered registered valid)
  | acceptTick answer =>
    cases effect with
    | quiet => exact plain rfl rfl fetching
    | accepted registered => exact plain rfl rfl (fetching.registered registered valid)
  | listen created failure =>
    cases effect with
    | listening => exact plain rfl rfl (fetching.apart ⟨rfl,.refl _,rfl⟩)
  | send number mark buf =>
    cases effect with
    | sent sending =>
      by_cases own : number = i
      · subst own
        exact plain rfl rfl (fetching.sending sending)
      · exact plain rfl rfl (fetching.apart (sending.apart own))
  | closePeer number mark =>
    cases effect with
    | closing closing =>
      by_cases own : number = i
      · subst own
        cases closing with
        | stale dead => exact plain rfl rfl (fetching.released _)
        | called live ip port => exact plain rfl rfl (fetching.called _ rfl rfl)
      · exact plain rfl rfl (fetching.apart (closing.apart own))
  | resume ret =>
    cases effect with
    | unasked => exact plain rfl rfl fetching
    | @onConDone _ _ number mark rest stack receiving =>
      by_cases own : number = i
      · subst own
        obtain ⟨idle,popped⟩ := fetching.popped stack rfl rfl
        exact plain rfl rfl (popped.receiving idle (resume_connects ran stack) ⟨rfl,valid⟩)
      · exact plain rfl rfl (fetching.apart ((popped_apart stack own).trans (receiving.apart own)))
    | @onReadDone _ _ number mark k rest stack nonneg receiving =>
      by_cases own : number = i
      · subst own
        obtain ⟨idle,popped⟩ := fetching.popped stack rfl rfl
        exact plain rfl rfl (popped.receiving idle (resume_reads ran stack nonneg) ⟨rfl,valid⟩)
      · exact plain rfl rfl (fetching.apart ((popped_apart stack own).trans (receiving.apart own)))
    | @onDisConDone number mark k rest stack =>
      have other : number ≠ i := by
        rintro rfl
        rw [released_peers,setPeer_at] at still
        exact still rfl
      have left : Apart i s {s with stack := rest,closed := s.closed ++ [(s.peers number).socket]} :=
        (popped_apart stack other).trans ⟨rfl,.refl _,rfl⟩
      exact plain rfl rfl (fetching.apart ((left.setPeer other _).released k))
    | @onReadRefused _ _ number mark k rest stack negative closing =>
      by_cases own : number = i
      · subst own
        exact plain rfl rfl ((fetching.popped stack rfl rfl).2.closing closing ⟨rfl,valid⟩)
      · exact plain rfl rfl (fetching.apart ((popped_apart stack own).trans (closing.apart own)))
  | eventTick completion =>
    have idle (empty : s.stack = []) : frames s i = [] := by
      unfold frames
      rw [empty]
      rfl
    cases completion with
    | timeout =>
      cases effect with
      | timeout => exact plain rfl rfl fetching
    | failed => cases effect
    | deleted k =>
      cases effect with
      | unknown => exact plain rfl rfl fetching
      | @deleted _ _ op found closing =>
        by_cases own : op.index = i
        · subst own
          have start := fetching.dequeued (idle genuine.1) found rfl
          exact plain rfl rfl (start.closing closing ⟨rfl,valid⟩)
        · exact plain rfl rfl (fetching.apart ((dequeued_apart found own).trans (closing.apart own)))
    | success k size stored =>
      obtain ⟨empty,op,known,reported⟩ := genuine
      obtain ⟨done,tick⟩ := discard ran
      have dispatched := onEventTick_dispatch tick known
      have stores : stored_bytes i ⟨s,⟨.eventTick (.success k size stored),sys⟩,t⟩ = if op.index = i then stored else [] := by
        unfold stored_bytes
        dsimp only
        rw [known]
      by_cases own : op.index = i
      · rw [stores,if_pos own]
        show Fetching i 0 (out ++ []) (arrived ++ stored) t
        rw [List.append_nil]
        exact fetching.completing (idle empty) known own dispatched reported valid
      · have completing := dispatch_completing dispatched
        refine plain rfl ?_ (fetching.apart ((dequeued_apart known own).trans (completing.apart own)))
        rw [stores,if_neg own]

theorem registered_fetching {c : Connection} (fresh : s.peers i = default) (idle : operations s i = []) (alone : frames s i = []) :
    Fetching i 0 [] [] ({s.setPeer i (s.joined i c) with serial := s.serial+1}.called
      (.onCon i s.serial c.remoteIp c.remotePort) (.onCon i s.serial)) := by
  have peer : (s.setPeer i (s.joined i c)).peers i = s.joined i c := setPeer_at s i _
  have empty : (SockBuf.new 100).readable = [] := Block.slice_zero _ _
  have ok : SockBuf.Ok (SockBuf.new 100) := SockBuf.new_ok (by decide)
  have own : slot (.onCon i s.serial) = i := rfl
  unfold Fetching
  rw [frames_called _ _ own]
  show Inlet ((s.setPeer i (s.joined i c)).peers i) (operations s i) (_ :: frames s i) 0 [] []
  rw [peer,idle,alone]
  unfold joined
  rw [fresh]
  exact ⟨ok,nofun,fun _ => rfl,fun _ _ _ _ => rfl,fun _ _ _ => rfl,empty⟩

theorem stored_bytes_none {t : Transition IocpService IocpInput} (none : operations t.before i = []) : stored_bytes i t = [] := by
  unfold stored_bytes
  split
  · split
    · rename_i op found
      refine if_neg fun own => ?_
      have member := operations_dequeued found own
      rw [none] at member
      cases member
    · rfl
  · rfl

theorem takes_none {t : Transition IocpService IocpInput} (none : frames t.before i = []) : takes i t = [] := by
  unfold takes
  split
  · rename_i len
    unfold drawn
    split
    · rename_i index mark k rest stack
      exact if_neg (frames_none none stack)
    · rfl
  · rfl

theorem fetching_path (path : Path IocpStep new taken last) (once : connections i last ≤ 1) (moderate : ∀ t ∈ taken, Moderate t) :
    (connections i last = 0 → received i taken = [] ∧ consumed i taken = []) ∧
    ((last.peers i).socket ≠ invalidSocket → Fetching i 0 (consumed i taken) (received i taken) last) := by
  induction path with
  | nil => exact ⟨fun _ => ⟨rfl,rfl⟩,fun valid => absurd rfl valid⟩
  | @step earlier middle input last prior step ih =>
    have more := step_connections (i := i) step
    obtain ⟨none,open_slot⟩ := ih (Nat.le_trans more once) fun t member => moderate t (List.mem_append_left _ member)
    have grown : received i (earlier ++ [⟨middle,input,last⟩]) = received i earlier ++ stored_bytes i ⟨middle,input,last⟩ := by
      simp [received]
    have left : consumed i (earlier ++ [⟨middle,input,last⟩]) = consumed i earlier ++ takes i ⟨middle,input,last⟩ := by
      simp [consumed]
    have last_moderate : Moderate ⟨middle,input,last⟩ := moderate _ (List.mem_append_right _ (List.mem_singleton.mpr rfl))
    by_cases fresh : connections i middle = 0
    · obtain ⟨peer,idle,alone,_,_⟩ := (piped_path prior (Nat.le_trans more once)).1 fresh
      obtain ⟨none_received,none_consumed⟩ := none fresh
      have shut : (middle.peers i).socket = invalidSocket := by rw [peer]; rfl
      rw [none_received,stored_bytes_none idle] at grown
      rw [none_consumed,takes_none alone] at left
      refine ⟨fun _ => ⟨grown,left⟩,fun valid => ?_⟩
      rw [grown,left]
      rcases (step_effect step).unused shut idle alone with apart | ⟨c,rfl⟩
      · rw [apart.peer] at valid
        exact absurd shut valid
      · exact registered_fetching peer idle alone
    · refine ⟨fun zero => by omega,fun valid => ?_⟩
      rw [grown,left]
      rcases step_opens step valid with before | new
      · exact fetching_step step (open_slot before) last_moderate before valid
      · omega

-- What holds of the read buffer of a connection in its slot.
structure ReadPath (taken : List (Transition IocpService IocpInput)) (s : IocpService) (i : Nat) : Prop where
  current : ∀ op ∈ operations s i, ∀ b, op.request = .recv b →
    b = (s.peers i).readBuf ∧ 512 ≤ b.size.toNat-b.writeIndex.toNat
  exclusive : ∀ mark k, .onRead i mark k ∈ s.stack → reads s i = 0
  bytes : consumed i taken ++ (s.peers i).readBuf.readable = received i taken

theorem Fetching.readPath (fetching : Fetching i 0 (consumed i taken) (received i taken) s) : ReadPath taken s i := by
  obtain ⟨_,current,_,_,quiet,bytes⟩ := fetching
  refine ⟨current,fun mark k member => ?_,bytes⟩
  have own : slot (.onRead i mark k) = i := rfl
  exact quiet (.onRead i mark k) (List.mem_filter.mpr ⟨member,decide_eq_true own⟩) rfl

-- Every run in which one connection has had the slot, as long as it is open: the bytes
-- that completions have brought are those that the application took and those still
-- readable, in order, and the buffer that the system writes to is left alone meanwhile: no
-- WSARecv is outstanding from the call of onRead to its return.
theorem read_path_kept (path : Path IocpStep new taken s) (once : connections i s ≤ 1) (moderate : ∀ t ∈ taken, Moderate t)
    (valid : (s.peers i).socket ≠ invalidSocket) : ReadPath taken s i :=
  ((fetching_path path once moderate).2 valid).readPath

-- Two bytes arrive, onRead takes one of them and closes the peer, and onDisCon is called.
def arrive : IocpInput := ⟨.eventTick (.success 0 2 [7,8]),⟨true,0⟩⟩
def draw : IocpInput := ⟨.consume 1,⟨true,0⟩⟩
def leaving : IocpService := ((waiting.after arrive).after draw).after leave

theorem read_path_kept_draw : reads leaving 0 = 0 ∧ [7] ++ (leaving.peers 0).readBuf.readable = [7,8] := by
  have third : IocpStep waiting arrive (waiting.after arrive) := .returns ⟨rfl,_,rfl,rfl,by decide⟩ rfl
  have fourth : IocpStep (waiting.after arrive) draw ((waiting.after arrive).after draw) := .returns trivial rfl
  have fifth : IocpStep ((waiting.after arrive).after draw) leave leaving := .returns trivial rfl
  have path := ((waiting_path.step third).step fourth).step fifth
  have kept := read_path_kept path (i := 0) (by decide) ?_ (by decide)
  · exact ⟨kept.exclusive 0 0 (List.mem_cons_of_mem _ List.mem_cons_self),kept.bytes⟩
  · have none := List.forall_mem_nil Moderate
    simp only [List.forall_mem_append,List.forall_mem_cons]
    exact ⟨⟨⟨⟨trivial,trivial,none⟩,trivial,none⟩,(by decide : (1 : UInt32).toNat < 2^31),none⟩,trivial,none⟩

end PcNetwork.Libnet.IocpService
