import PcNetwork.Libnet.Contexts

namespace PcNetwork.Libnet.IocpService
variable {s t u : IocpService} {p : Peer} {index i k : Nat} {serial : UInt64} {context : Option Nat} {size : UInt32} {sys : System}

def slot : Frame → Nat
  | .onCon index _ | .onDisCon index _ _ | .onRead index _ _ => index

def recvs (op : Operation) : Bool :=
  match op.request with
  | .recv _ => true
  | .send _ | .posted => false

-- registerSocket and processRead go on to postRecvRequest.
def serves : Frame → Bool
  | .onCon _ _ | .onRead _ _ _ => true
  | .onDisCon _ _ _ => false

-- The operations and the waiting functions of a slot.
def operations (s : IocpService) (i : Nat) : List Operation := s.pending.filter fun op => op.index = i
def frames (s : IocpService) (i : Nat) : List Frame := s.stack.filter fun frame => slot frame = i

def reads (s : IocpService) (i : Nat) : Nat := (operations s i).countP recvs
def writes (s : IocpService) (i : Nat) : Nat := (operations s i).countP fun op => !recvs op

-- closePeer has been called for the slot and has not returned.
def Shutting (s : IocpService) (i : Nat) : Prop := ∃ frame ∈ frames s i, serves frame = false

-- The bytes that the application gives to a connection, and those that a completion
-- reports as written.
def sends (i : Nat) (t : Transition IocpService IocpInput) : List UInt8 :=
  match t.event.event with
  | .send index serial buf =>
    if index = i ∧ (t.before.peers i).serial = serial ∧ (t.before.peers i).socket ≠ invalidSocket then buf.bytes else []
  | _ => []

def reported_bytes (op : Operation) (size : UInt32) : List UInt8 :=
  match op.request with
  | .send buf => buf.readable.take size.toNat
  | .recv _ | .posted => []

def writing_reports (i : Nat) (t : Transition IocpService IocpInput) : List UInt8 :=
  match t.event.event with
  | .eventTick (.success k size _) =>
    match t.before.pending[k]? with
    | some op => if op.index = i then reported_bytes op size else []
    | none => []
  | _ => []

def sent (i : Nat) (taken : List (Transition IocpService IocpInput)) : List UInt8 := taken.flatMap (sends i)
def written (i : Nat) (taken : List (Transition IocpService IocpInput)) : List UInt8 := taken.flatMap (writing_reports i)

-- The slot has neither been looked at nor changed.
structure Apart (i : Nat) (s t : IocpService) : Prop where
  peer : t.peers i = s.peers i
  operations : (operations t i).Perm (operations s i)
  frames : frames t i = frames s i

theorem Apart.refl (s : IocpService) : Apart i s s := ⟨rfl,.refl _,rfl⟩

theorem Apart.trans (first : Apart i s t) (second : Apart i t u) : Apart i s u :=
  ⟨second.peer.trans first.peer,second.operations.trans first.operations,second.frames.trans first.frames⟩

theorem Apart.setPeer (apart : Apart i s t) (other : index ≠ i) (p : Peer) : Apart i s (t.setPeer index p) :=
  apart.trans ⟨setPeer_off t p (Ne.symm other),.refl _,rfl⟩

theorem Apart.called {frame : Frame} (apart : Apart i s t) (other : slot frame ≠ i) (c : Callback) : Apart i s (t.called c frame) := by
  refine apart.trans ⟨rfl,.refl _,?_⟩
  unfold IocpService.frames
  rw [called_stack,List.filter_cons_of_neg (by simpa using other)]

theorem Apart.outstanding (apart : Apart i s t) (other : index ≠ i) (request : Request) : Apart i s (t.outstanding index serial request) := by
  have same : IocpService.operations (t.outstanding index serial request) i = IocpService.operations t i := by
    show (t.pending ++ [_]).filter _ = _
    rw [List.filter_append,List.filter_cons_of_neg (by simpa using other),List.filter_nil,List.append_nil]
    rfl
  exact apart.trans ⟨rfl,same ▸ .refl _,rfl⟩

theorem Apart.released (apart : Apart i s t) (context : Option Nat) : Apart i s (t.released context) := by
  cases context <;> exact apart.trans ⟨rfl,.refl _,rfl⟩

theorem Apart.leaked (apart : Apart i s t) : Apart i s t.leaked := apart.trans ⟨rfl,.refl _,rfl⟩

theorem popped_apart {frame : Frame} {rest : List Frame} (stack : s.stack = frame :: rest) (other : slot frame ≠ i) :
    Apart i s {s with stack := rest} := by
  refine ⟨rfl,.refl _,?_⟩
  unfold frames
  rw [stack,List.filter_cons_of_neg (by simpa using other)]

theorem dequeued_operations {op : Operation} (found : s.pending[k]? = some op) (i : Nat) :
    ((op :: (s.dequeued k).pending).filter fun op => op.index = i).Perm (operations s i) :=
  (dequeued_perm found).filter _

theorem dequeued_apart {op : Operation} (found : s.pending[k]? = some op) (other : op.index ≠ i) : Apart i s (s.dequeued k) := by
  have parts := dequeued_operations found i
  rw [List.filter_cons_of_neg (by simpa using other)] at parts
  exact ⟨rfl,parts,rfl⟩

theorem Closing.apart (closing : Closing s index serial context t) (other : index ≠ i) : Apart i s t := by
  cases closing with
  | stale dead => exact (Apart.refl s).released context
  | called live ip port =>
    apply Apart.called
    · exact .refl s
    · exact other

theorem Receiving.apart (receiving : Receiving sys s index serial context t) (other : index ≠ i) : Apart i s t := by
  cases receiving with
  | stale dead => exact (Apart.refl s).released context
  | posted live b =>
    apply Apart.released
    apply Apart.outstanding
    · exact (Apart.refl s).setPeer other _
    · exact other
  | refused no live b ip port =>
    apply Apart.called
    · apply Apart.leaked
      exact (Apart.refl s).setPeer other _
    · exact other

theorem Sending.apart {buf : List UInt8} (sending : Sending s index serial buf t) (other : index ≠ i) : Apart i s t := by
  cases sending with
  | stale dead => exact .refl s
  | queued live busy b appended => exact (Apart.refl s).setPeer other _
  | kicked live idle b appended =>
    apply Apart.outstanding
    · exact (Apart.refl s).setPeer other _
    · exact other

theorem Writing.apart (writing : Writing sys s index size k t) (other : index ≠ i) : Apart i s t := by
  cases writing with
  | done merged count nothing =>
    apply Apart.released
    exact (Apart.refl s).setPeer other _
  | posted merged count something =>
    apply Apart.released
    apply Apart.outstanding
    · exact (Apart.refl s).setPeer other _
    · exact other
  | refused no merged count something ip port =>
    apply Apart.called
    · apply Apart.leaked
      exact (Apart.refl s).setPeer other _
    · exact other

theorem Completing.apart {op : Operation} (completing : Completing sys s op size t) (other : op.index ≠ i) : Apart i s t := by
  cases completing with
  | ignored shut => exact .refl s
  | ended valid read zero b ip port | read valid read some_bytes b =>
    apply Apart.called
    · exact (Apart.refl s).setPeer other _
    · exact other
  | wrote valid write writing => exact writing.apart other

theorem registered_apart {c : Connection} (other : index ≠ i) :
    Apart i s ({s.setPeer index (s.joined index c) with serial := s.serial+1}.called
      (.onCon index s.serial c.remoteIp c.remotePort) (.onCon index s.serial)) := by
  apply Apart.called
  · exact ⟨setPeer_off s _ (Ne.symm other),.refl _,rfl⟩
  · exact other

-- The pipeline of an open slot, with `reading` and `writing` completions in hand: what
-- was written and what the two buffers hold is what was sent.
structure Pipe (p : Peer) (ops : List Operation) (waits : List Frame) (reading writing : Nat) (out blocks : List UInt8) : Prop where
  write : SockBuf.Ok p.writeBuf
  backup : SockBuf.Ok p.writeBufBackup
  few : ops.countP (!recvs ·)+writing ≤ 1
  idle : p.wsaSend = false → ops.countP (!recvs ·)+writing = 0 ∧ p.writeBuf.readable = [] ∧ p.writeBufBackup.readable = []
  busy : p.wsaSend = true → waits.all serves = true → ops.countP (!recvs ·)+writing = 1
  current : ∀ op ∈ ops, ∀ b, op.request = .send b → b = p.writeBuf
  serving : waits.all serves = true → ops.countP recvs+waits.length+reading = 1
  bytes : out ++ (p.writeBuf.readable ++ p.writeBufBackup.readable) = blocks

variable {q : Peer} {op : Operation} {ops more : List Operation} {frame : Frame} {waits : List Frame} {reading writing : Nat}
  {out blocks buf : List UInt8} {b c : SockBuf}

theorem Pipe.perm (pipe : Pipe p ops waits reading writing out blocks) (same : more.Perm ops) :
    Pipe p more waits reading writing out blocks := by
  obtain ⟨write,backup,few,idle,busy,current,serving,bytes⟩ := pipe
  rw [← same.countP_eq] at few idle busy serving
  exact ⟨write,backup,few,idle,busy,fun op member => current op (same.mem_iff.mp member),serving,bytes⟩

-- Only what is not of the pipeline has been changed.
theorem Pipe.peer (pipe : Pipe p ops waits reading writing out blocks) (flag : q.wsaSend = p.wsaSend)
    (first : q.writeBuf = p.writeBuf) (second : q.writeBufBackup = p.writeBufBackup) :
    Pipe q ops waits reading writing out blocks := by
  obtain ⟨write,backup,few,idle,busy,current,serving,bytes⟩ := pipe
  rw [← first] at write idle current bytes
  rw [← second] at backup idle bytes
  rw [← flag] at idle busy
  exact ⟨write,backup,few,idle,busy,current,serving,bytes⟩

theorem recv_counts (ops : List Operation) (read : recvs op = true) :
    (ops ++ [op]).countP (!recvs ·) = ops.countP (!recvs ·) ∧ (ops ++ [op]).countP recvs = ops.countP recvs+1 := by
  simp [read]

theorem write_counts (ops : List Operation) (write : recvs op = false) :
    (ops ++ [op]).countP (!recvs ·) = ops.countP (!recvs ·)+1 ∧ (ops ++ [op]).countP recvs = ops.countP recvs := by
  simp [write]

-- The WSARecv whose completion was in hand is outstanding again.
theorem Pipe.received (pipe : Pipe p ops waits 1 writing out blocks) (read : op.request = .recv b) :
    Pipe p (ops ++ [op]) waits 0 writing out blocks := by
  obtain ⟨write,backup,few,idle,busy,current,serving,bytes⟩ := pipe
  have kind : recvs op = true := by
    unfold recvs
    rw [read]
  obtain ⟨writes,reads⟩ := recv_counts ops kind
  rw [← writes] at few idle busy
  refine ⟨write,backup,few,idle,busy,fun o member d given => ?_,fun all => ?_,bytes⟩
  · rcases List.mem_append.mp member with old | new
    · exact current o old d given
    · rw [List.mem_singleton.mp new,read] at given
      cases given
  · have one := serving all
    omega

-- The completion in hand waits for its callback, and goes on.
theorem Pipe.calls (pipe : Pipe p ops waits 1 writing out blocks) (serve : serves frame = true) :
    Pipe p ops (frame :: waits) 0 writing out blocks := by
  obtain ⟨write,backup,few,idle,busy,current,serving,bytes⟩ := pipe
  have same : (frame :: waits).all serves = waits.all serves := by simp [serve]
  rw [← same] at busy serving
  refine ⟨write,backup,few,idle,busy,current,fun all => ?_,bytes⟩
  have one := serving all
  rw [List.length_cons]
  omega

theorem Pipe.resumed (pipe : Pipe p ops (frame :: waits) 0 writing out blocks) (serve : serves frame = true) :
    Pipe p ops waits 1 writing out blocks := by
  obtain ⟨write,backup,few,idle,busy,current,serving,bytes⟩ := pipe
  have same : (frame :: waits).all serves = waits.all serves := by simp [serve]
  rw [same] at busy serving
  refine ⟨write,backup,few,idle,busy,current,fun all => ?_,bytes⟩
  have one := serving all
  rw [List.length_cons] at one
  omega

-- A completion is dequeued.
theorem Pipe.dequeued (pipe : Pipe p (op :: ops) waits 0 0 out blocks) :
    Pipe p ops waits (if recvs op then 1 else 0) (if recvs op then 0 else 1) out blocks := by
  obtain ⟨write,backup,few,idle,busy,current,serving,bytes⟩ := pipe
  have writes : (op :: ops).countP (!recvs ·)+0 = ops.countP (!recvs ·)+(if recvs op then 0 else 1) := by
    rw [List.countP_cons]
    cases recvs op <;> simp
  rw [writes] at few idle busy
  refine ⟨write,backup,few,idle,busy,fun o member => current o (List.mem_cons_of_mem _ member),fun all => ?_,bytes⟩
  have one := serving all
  rw [List.countP_cons] at one
  omega

-- closePeer is called: the completions in hand come to nothing.
theorem Pipe.shut (pipe : Pipe p ops waits reading writing out blocks) (closing : serves frame = false) :
    Pipe p ops (frame :: waits) 0 0 out blocks := by
  obtain ⟨write,backup,few,idle,busy,current,serving,bytes⟩ := pipe
  have never : ¬ (frame :: waits).all serves = true := by simp [closing]
  refine ⟨write,backup,Nat.le_trans (Nat.le_add_right _ _) few,fun flag => ?_,fun _ all => absurd all never,current,
    fun all => absurd all never,bytes⟩
  obtain ⟨zero,empty⟩ := idle flag
  exact ⟨by omega,empty⟩

theorem apendBuf_returned (ok : SockBuf.Ok b) (small : buf.length < 2^31) (ran : SockBuf.apendBuf buf b = .ok () c) :
    SockBuf.Grown b buf c := by
  rcases SockBuf.apendBuf_grown ok small with ⟨d,same,grown⟩ | ⟨_,text,threw⟩
  · rw [same] at ran
    cases ran
    exact grown
  · rw [threw] at ran
    cases ran

theorem grown_bytes {first second joined : List UInt8} (bytes : out ++ (first ++ second) = blocks) (grown : joined = second ++ buf) :
    out ++ (first ++ joined) = blocks ++ buf := by
  rw [grown,← bytes,List.append_assoc,List.append_assoc]

theorem Pipe.queued (pipe : Pipe p ops waits reading writing out blocks) (busy : p.wsaSend = true)
    (grown : SockBuf.Grown p.writeBufBackup buf b) :
    Pipe {p with writeBufBackup := b} ops waits reading writing out (blocks ++ buf) := by
  obtain ⟨write,backup,few,_,flagged,current,serving,bytes⟩ := pipe
  exact ⟨write,grown.ok,few,fun flag => absurd (busy.symm.trans flag) nofun,flagged,current,serving,grown_bytes bytes grown.readable⟩

-- The first block starts the pipeline with a completion of no bytes.
theorem Pipe.kicked (pipe : Pipe p ops waits reading 0 out blocks) (idle : p.wsaSend = false)
    (grown : SockBuf.Grown p.writeBufBackup buf b) (post : op.request = .posted) :
    Pipe {p with writeBufBackup := b,wsaSend := true} (ops ++ [op]) waits reading 0 out (blocks ++ buf) := by
  obtain ⟨write,backup,few,unused,_,current,serving,bytes⟩ := pipe
  obtain ⟨none,_⟩ := unused idle
  have kind : recvs op = false := by
    unfold recvs
    rw [post]
  obtain ⟨writes,reads⟩ := write_counts ops kind
  rw [← reads] at serving
  refine ⟨write,grown.ok,by omega,nofun,fun _ _ => by omega,fun o member d given => ?_,serving,grown_bytes bytes grown.readable⟩
  rcases List.mem_append.mp member with old | new
  · exact current o old d given
  · rw [List.mem_singleton.mp new,post] at given
    cases given

theorem readMove_returned {len : UInt32} (ok : SockBuf.Ok b) (fits : len.toNat ≤ b.readable.length)
    (ran : SockBuf.readMove len b = .ok () c) : SockBuf.Ok c ∧ b.readable = b.readable.take len.toNat ++ c.readable := by
  obtain ⟨d,same,kept,parts,_⟩ := SockBuf.readMove_ok ok fits
  rw [same] at ran
  cases ran
  exact ⟨kept,parts⟩

theorem readableBytes_count {n : UInt32} (ok : SockBuf.Ok b) (ran : SockBuf.readableBytes b = .ok n c) :
    n.toNat = b.readable.length := by
  obtain ⟨same,count⟩ := SockBuf.readableBytes_ok ok
  rw [same] at ran
  cases ran
  exact count.trans ok.length_readable.symm

theorem readable_none {n : UInt32} (count : n.toNat = b.readable.length) (nothing : ¬ n > 0) : b.readable = [] := by
  have zero : n.toNat ≤ 0 := Nat.not_lt.mp fun positive => nothing (UInt32.lt_iff_toNat_lt.mpr positive)
  exact List.length_eq_zero_iff.mp (by omega)

-- What is left to send is in the first buffer, in order.
theorem Merged.moved (merged : Merged size p b c) (write : SockBuf.Ok p.writeBuf) (backup : SockBuf.Ok p.writeBufBackup)
    (fits : size.toNat ≤ p.writeBuf.readable.length) :
    SockBuf.Ok b ∧ SockBuf.Ok c ∧ c.readable = [] ∧
    p.writeBuf.readable.take size.toNat ++ b.readable = p.writeBuf.readable ++ p.writeBufBackup.readable := by
  cases merged with
  | rest moved count nothing =>
    obtain ⟨kept,parts⟩ := readMove_returned write fits moved
    have empty := readable_none (readableBytes_count backup count) nothing
    refine ⟨kept,backup,empty,?_⟩
    rw [empty,List.append_nil]
    exact parts.symm
  | @both w n d b c moved count something appended taken =>
    obtain ⟨kept,parts⟩ := readMove_returned write fits moved
    have all := readableBytes_count backup count
    have block : Block.slice p.writeBufBackup.buf p.writeBufBackup.readIndex.toNat n.toNat = p.writeBufBackup.readable := by
      rw [all,backup.length_readable]
      rfl
    rw [block] at appended
    have short : p.writeBufBackup.readable.length < 2^31 := by
      have small := backup.small
      have inside := backup.write_le
      rw [backup.length_readable]
      omega
    obtain ⟨joined,readable,_⟩ := apendBuf_returned kept short appended
    obtain ⟨rest,gone⟩ := readMove_returned backup (Nat.le_of_eq all) taken
    have empty : c.readable = [] := by
      have lengths := congrArg List.length gone
      rw [List.length_append,List.length_take,all,Nat.min_self] at lengths
      exact List.length_eq_zero_iff.mp (by omega)
    refine ⟨joined,rest,empty,?_⟩
    rw [readable,← List.append_assoc,← parts]

-- A write completion is in hand, so nothing else of the pipeline is outstanding.
theorem Pipe.merged (pipe : Pipe p ops waits reading 1 out blocks) (merged : Merged size p b c)
    (fits : size.toNat ≤ p.writeBuf.readable.length) :
    ops.countP (!recvs ·) = 0 ∧ SockBuf.Ok b ∧ SockBuf.Ok c ∧ c.readable = [] ∧
    out ++ p.writeBuf.readable.take size.toNat ++ (b.readable ++ c.readable) = blocks := by
  obtain ⟨write,backup,few,_,_,_,_,bytes⟩ := pipe
  obtain ⟨first,second,empty,parts⟩ := merged.moved write backup fits
  refine ⟨by omega,first,second,empty,?_⟩
  rw [empty,List.append_nil,List.append_assoc,parts,bytes]

theorem unsent (none : ops.countP (!recvs ·) = 0) (member : op ∈ ops) (d : SockBuf) : op.request ≠ .send d := by
  intro given
  have kind := List.countP_eq_zero.mp none op member
  unfold recvs at kind
  rw [given] at kind
  exact kind rfl

theorem Pipe.done (pipe : Pipe p ops waits reading 1 out blocks) (merged : Merged size p b c)
    (fits : size.toNat ≤ p.writeBuf.readable.length) (nothing : b.readable = []) :
    Pipe {p with wsaSend := false,writeBuf := b,writeBufBackup := c} ops waits reading 0
      (out ++ p.writeBuf.readable.take size.toNat) blocks := by
  obtain ⟨none,first,second,empty,bytes⟩ := pipe.merged merged fits
  exact ⟨first,second,by omega,fun _ => ⟨none,nothing,empty⟩,nofun,fun op member d given => absurd given (unsent none member d),
    pipe.serving,bytes⟩

theorem Pipe.posted (pipe : Pipe p ops waits reading 1 out blocks) (merged : Merged size p b c)
    (fits : size.toNat ≤ p.writeBuf.readable.length) (send : op.request = .send b) :
    Pipe {p with wsaSend := true,writeBuf := b,writeBufBackup := c} (ops ++ [op]) waits reading 0
      (out ++ p.writeBuf.readable.take size.toNat) blocks := by
  obtain ⟨none,first,second,empty,bytes⟩ := pipe.merged merged fits
  have serving := pipe.serving
  have kind : recvs op = false := by
    unfold recvs
    rw [send]
  obtain ⟨writes,reads⟩ := write_counts ops kind
  rw [← reads] at serving
  refine ⟨first,second,by omega,nofun,fun _ _ => by omega,fun o member d given => ?_,serving,bytes⟩
  rcases List.mem_append.mp member with old | new
  · exact absurd given (unsent none old d)
  · rw [List.mem_singleton.mp new,send] at given
    exact (Request.send.inj given).symm

theorem Pipe.refused (pipe : Pipe p ops waits reading 1 out blocks) (merged : Merged size p b c)
    (fits : size.toNat ≤ p.writeBuf.readable.length) (closing : serves frame = false) :
    Pipe {p with wsaSend := true,writeBuf := b,writeBufBackup := c} ops (frame :: waits) 0 0
      (out ++ p.writeBuf.readable.take size.toNat) blocks := by
  obtain ⟨none,first,second,empty,bytes⟩ := pipe.merged merged fits
  have never : ¬ (frame :: waits).all serves = true := by simp [closing]
  exact ⟨first,second,by omega,nofun,fun _ all => absurd all never,fun op member d given => absurd given (unsent none member d),
    fun all => absurd all never,bytes⟩

-- The pipeline of slot i in a state of the service.
def Piped (i reading writing : Nat) (out blocks : List UInt8) (s : IocpService) : Prop :=
  Pipe (s.peers i) (operations s i) (frames s i) reading writing out blocks

theorem Piped.apart (piped : Piped i reading writing out blocks s) (apart : Apart i s t) : Piped i reading writing out blocks t := by
  unfold Piped
  rw [apart.peer,apart.frames]
  exact Pipe.perm piped apart.operations

theorem Piped.released (piped : Piped i reading writing out blocks s) (context : Option Nat) :
    Piped i reading writing out blocks (s.released context) := piped.apart ((Apart.refl s).released context)

theorem operations_outstanding (s : IocpService) (i : Nat) (serial : UInt64) (request : Request) :
    operations (s.outstanding i serial request) i = operations s i ++ [⟨s.issued,i,serial,request⟩] := by
  show (s.pending ++ [_]).filter _ = _
  rw [List.filter_append]
  simp [operations]

theorem frames_called (s : IocpService) (c : Callback) (own : slot frame = i) : frames (s.called c frame) i = frame :: frames s i := by
  unfold frames
  rw [called_stack,List.filter_cons_of_pos (by simpa using own)]

theorem frames_popped {rest : List Frame} (stack : s.stack = frame :: rest) (own : slot frame = i) :
    frames s i = frame :: frames {s with stack := rest} i := by
  unfold frames
  rw [stack,List.filter_cons_of_pos (by simpa using own)]

theorem Piped.popped {rest : List Frame} (piped : Piped i 0 writing out blocks s) (stack : s.stack = frame :: rest)
    (own : slot frame = i) (serve : serves frame = true) : Piped i 1 writing out blocks {s with stack := rest} := by
  unfold Piped at piped
  rw [frames_popped stack own] at piped
  exact piped.resumed serve

theorem Piped.dequeued (piped : Piped i 0 0 out blocks s) (found : s.pending[k]? = some op) (own : op.index = i) :
    Piped i (if recvs op then 1 else 0) (if recvs op then 0 else 1) out blocks (s.dequeued k) := by
  have parts := dequeued_operations found i
  rw [List.filter_cons_of_pos (by simpa using own)] at parts
  exact Pipe.dequeued (Pipe.perm piped parts)

theorem Piped.called (piped : Piped i reading writing out blocks s) (c : Callback) (own : slot frame = i)
    (closing : serves frame = false) : Piped i 0 0 out blocks (s.called c frame) := by
  unfold Piped
  rw [frames_called s c own]
  exact Pipe.shut piped closing

theorem Piped.calls (piped : Piped i 1 writing out blocks s) (c : Callback) (own : slot frame = i)
    (serve : serves frame = true) : Piped i 0 writing out blocks (s.called c frame) := by
  unfold Piped
  rw [frames_called s c own]
  exact Pipe.calls piped serve

theorem Piped.readBuf (piped : Piped i reading writing out blocks s) (b : SockBuf) :
    Piped i reading writing out blocks (s.setPeer i {s.peers i with readBuf := b}) := by
  unfold Piped
  rw [setPeer_at]
  exact Pipe.peer piped rfl rfl rfl

theorem Piped.closing (piped : Piped i reading writing out blocks s) (closing : Closing s i serial context t)
    (live : Live s i serial) : Piped i 0 0 out blocks t := by
  cases closing with
  | stale dead => exact absurd live dead
  | called _ ip port => exact piped.called _ rfl rfl

theorem Piped.receiving (piped : Piped i 1 0 out blocks s) (receiving : Receiving sys s i serial context t)
    (live : Live s i serial) : Piped i 0 0 out blocks t := by
  cases receiving with
  | stale dead => exact absurd live dead
  | posted _ b =>
    apply Piped.released
    unfold Piped
    rw [operations_outstanding]
    exact Pipe.received (piped.readBuf b) rfl
  | refused no _ b ip port =>
    apply Piped.called
    · exact (piped.readBuf b).apart ((Apart.refl _).leaked)
    · rfl
    · rfl

theorem Piped.sending (piped : Piped i 0 0 out blocks s) (sending : Sending s i serial buf t) (small : buf.length < 2^31)
    (live : Live s i serial) : Piped i 0 0 out (blocks ++ buf) t := by
  cases sending with
  | stale dead => exact absurd live dead
  | queued _ busy b appended =>
    unfold Piped
    rw [setPeer_at]
    exact Pipe.queued piped busy (apendBuf_returned piped.backup small appended)
  | kicked _ idle b appended =>
    unfold Piped
    rw [operations_outstanding,outstanding_peers,setPeer_at]
    exact Pipe.kicked piped idle (apendBuf_returned piped.backup small appended) rfl

theorem Piped.wrote (piped : Piped i 0 1 out blocks s) (writing : Writing sys s i size k t)
    (fits : size.toNat ≤ (s.peers i).writeBuf.readable.length) :
    Piped i 0 0 (out ++ (s.peers i).writeBuf.readable.take size.toNat) blocks t := by
  cases writing with
  | done merged count nothing =>
    apply Piped.released
    have kept := (Pipe.merged piped merged fits).2.1
    unfold Piped
    rw [setPeer_at]
    exact Pipe.done piped merged fits (readable_none (readableBytes_count kept count) nothing)
  | posted merged count something =>
    apply Piped.released
    unfold Piped
    rw [operations_outstanding,outstanding_peers,setPeer_at]
    exact Pipe.posted piped merged fits rfl
  | refused no merged count something ip port =>
    have own : slot (.onDisCon i (s.peers i).serial (some k)) = i := rfl
    unfold Piped
    rw [frames_called _ _ own,called_peers,leaked_peers,setPeer_at]
    exact Pipe.refused piped merged fits rfl

theorem operations_dequeued (found : s.pending[k]? = some op) (own : op.index = i) : op ∈ operations s i :=
  List.mem_filter.mpr ⟨List.mem_of_getElem? found,by simpa using own⟩

theorem Piped.completing {stored : List UInt8} (piped : Piped i 0 0 out blocks s) (found : s.pending[k]? = some op) (own : op.index = i)
    (completing : Completing sys (s.dequeued k) op size t) (reported : Reports op size stored)
    (valid : (s.peers i).socket ≠ invalidSocket) : Piped i 0 0 (out ++ reported_bytes op size) blocks t := by
  have start := piped.dequeued found own
  have current := piped.current op (operations_dequeued found own)
  unfold recvs at start
  unfold Reports at reported
  subst own
  cases completing with
  | ignored shut => exact absurd shut valid
  | ended _ read zero b ip port =>
    unfold reported_bytes
    rw [read] at start ⊢
    rw [List.append_nil]
    exact Piped.called (start.readBuf b) _ rfl rfl
  | read _ read some_bytes b =>
    unfold reported_bytes
    rw [read] at start ⊢
    rw [List.append_nil]
    exact Piped.calls (start.readBuf b) _ rfl rfl
  | wrote _ write writing =>
    unfold reported_bytes
    cases request : op.request with
    | recv d => exact absurd request (write d)
    | send d =>
      rw [request] at start reported
      rw [current d request] at reported ⊢
      exact Piped.wrote (s := s.dequeued k) start writing reported.2
    | posted =>
      rw [request] at start reported
      obtain ⟨_,rfl⟩ := reported
      exact Piped.wrote start writing (Nat.zero_le _)

-- What a step does to the pipeline of a slot that stays open.
theorem Effect.piped {event : IocpEvent} (effect : Effect sys s event t) (genuine : Genuine s event)
    (piped : Piped i 0 0 out blocks s) (valid : (s.peers i).socket ≠ invalidSocket) (still : (t.peers i).socket ≠ invalidSocket) :
    Piped i 0 0 (out ++ writing_reports i ⟨s,⟨event,sys⟩,t⟩) (blocks ++ sends i ⟨s,⟨event,sys⟩,t⟩) t := by
  have plain (quiet : writing_reports i ⟨s,⟨event,sys⟩,t⟩ = []) (silent : sends i ⟨s,⟨event,sys⟩,t⟩ = [])
      (kept : Piped i 0 0 out blocks t) :
      Piped i 0 0 (out ++ writing_reports i ⟨s,⟨event,sys⟩,t⟩) (blocks ++ sends i ⟨s,⟨event,sys⟩,t⟩) t := by
    rw [quiet,silent,List.append_nil,List.append_nil]
    exact kept
  have registering {c : Connection} (registered : Registered s c t) : Piped i 0 0 out blocks t := by
    cases registered with
    | given index bound free =>
      have other : index ≠ i := fun same => valid (same ▸ free)
      exact piped.apart (registered_apart other)
  cases effect with
  | refused | outside | unasked | quiet | timeout | unknown => exact plain rfl rfl piped
  | missing absent =>
    refine plain ?_ rfl piped
    unfold writing_reports
    dsimp only
    rw [absent]
  | connected _ registered | accepted registered => exact plain rfl rfl (registering registered)
  | listening => exact plain rfl rfl (piped.apart ⟨rfl,.refl _,rfl⟩)
  | @sent number mark after buf sending =>
    by_cases own : number = i
    · subst own
      by_cases live : Live s number mark
      · have accepted : sends number ⟨s,⟨.send number mark buf,sys⟩,t⟩ = buf.bytes := if_pos ⟨rfl,live⟩
        rw [accepted]
        exact Piped.sending (by rw [writing_reports,List.append_nil]; exact piped) sending buf.small live
      · cases sending with
        | stale dead => exact plain rfl (if_neg fun given => live given.2) piped
        | queued accepted => exact absurd accepted live
        | kicked accepted => exact absurd accepted live
    · exact plain rfl (if_neg fun given => own given.1) (piped.apart (sending.apart own))
  | @closing number mark after closing =>
    by_cases own : number = i
    · subst own
      cases closing with
      | stale dead => exact plain rfl rfl (piped.released _)
      | called live ip port => exact plain rfl rfl (piped.called _ rfl rfl)
    · exact plain rfl rfl (piped.apart (closing.apart own))
  | @consumed number mark k rest stack b len =>
    by_cases own : number = i
    · subst own
      exact plain rfl rfl (piped.readBuf b)
    · exact plain rfl rfl (piped.apart ((Apart.refl s).setPeer own _))
  | @onConDone after ret number mark rest stack receiving =>
    by_cases own : number = i
    · subst own
      exact plain rfl rfl (Piped.receiving (piped.popped stack rfl rfl) receiving ⟨rfl,valid⟩)
    · exact plain rfl rfl (piped.apart ((popped_apart stack own).trans (receiving.apart own)))
  | @onReadDone ret after number mark k rest stack nonneg receiving =>
    by_cases own : number = i
    · subst own
      exact plain rfl rfl (Piped.receiving (piped.popped stack rfl rfl) receiving ⟨rfl,valid⟩)
    · exact plain rfl rfl (piped.apart ((popped_apart stack own).trans (receiving.apart own)))
  | @onDisConDone number mark k rest stack ret =>
    have other : number ≠ i := by
      rintro rfl
      rw [released_peers,setPeer_at] at still
      exact still rfl
    have left : Apart i s {s with stack := rest,closed := s.closed ++ [(s.peers number).socket]} :=
      (popped_apart stack other).trans ⟨rfl,.refl _,rfl⟩
    exact plain rfl rfl (piped.apart ((left.setPeer other _).released k))
  | @onReadRefused ret after number mark k rest stack negative closing =>
    by_cases own : number = i
    · subst own
      exact plain rfl rfl (Piped.closing (piped.popped stack rfl rfl) closing ⟨rfl,valid⟩)
    · exact plain rfl rfl (piped.apart ((popped_apart stack own).trans (closing.apart own)))
  | @deleted after k op found closing =>
    by_cases own : op.index = i
    · subst own
      exact plain rfl rfl (Piped.closing (piped.dequeued found rfl) closing ⟨rfl,valid⟩)
    · exact plain rfl rfl (piped.apart ((dequeued_apart found own).trans (closing.apart own)))
  | @completed after stored k op size found completing =>
    obtain ⟨_,same,known,reported⟩ := genuine
    rw [found] at known
    cases known
    by_cases own : op.index = i
    · have bytes : writing_reports i ⟨s,⟨.eventTick (.success k size stored),sys⟩,t⟩ = reported_bytes op size := by
        unfold writing_reports
        dsimp only
        rw [found]
        exact if_pos own
      rw [bytes]
      show Piped i 0 0 _ (blocks ++ []) t
      rw [List.append_nil]
      exact piped.completing found own completing reported valid
    · refine plain ?_ rfl (piped.apart ((dequeued_apart found own).trans (completing.apart own)))
      unfold writing_reports
      dsimp only
      rw [found]
      exact if_neg own

-- No connection has had the slot yet.
structure Unused (i : Nat) (taken : List (Transition IocpService IocpInput)) (s : IocpService) : Prop where
  peer : s.peers i = default
  operations : operations s i = []
  frames : frames s i = []
  sent : sent i taken = []
  written : written i taken = []

theorem sends_closed {t : Transition IocpService IocpInput} (shut : (t.before.peers i).socket = invalidSocket) : sends i t = [] := by
  unfold sends
  split
  · exact if_neg fun given => given.2.2 shut
  · rfl

theorem writing_reports_none {t : Transition IocpService IocpInput} (none : operations t.before i = []) : writing_reports i t = [] := by
  unfold writing_reports
  split
  · split
    · rename_i op found
      refine if_neg fun own => ?_
      have member := operations_dequeued found own
      rw [none] at member
      cases member
    · rfl
  · rfl

theorem frames_none {rest : List Frame} (none : frames s i = []) (stack : s.stack = frame :: rest) : slot frame ≠ i := by
  intro own
  rw [frames_popped stack own] at none
  cases none

-- Nothing but registerSocket touches a slot without operations and callbacks.
theorem Effect.unused {event : IocpEvent} (effect : Effect sys s event t) (shut : (s.peers i).socket = invalidSocket)
    (idle : operations s i = []) (alone : frames s i = []) :
    Apart i s t ∨ ∃ c, t = {s.setPeer i (s.joined i c) with serial := s.serial+1}.called
      (.onCon i s.serial c.remoteIp c.remotePort) (.onCon i s.serial) := by
  have dead (serial : UInt64) : ¬ Live s i serial := fun live => live.2 shut
  have registering {c : Connection} (registered : Registered s c t) : Apart i s t ∨
      ∃ c, t = {s.setPeer i (s.joined i c) with serial := s.serial+1}.called
        (.onCon i s.serial c.remoteIp c.remotePort) (.onCon i s.serial) := by
    cases registered with
    | given index bound free =>
      by_cases own : index = i
      · subst own
        exact .inr ⟨c,rfl⟩
      · exact .inl (registered_apart own)
  have strange {k : Nat} {op : Operation} (found : s.pending[k]? = some op) : op.index ≠ i := fun own => by
    have member := operations_dequeued found own
    rw [idle] at member
    cases member
  cases effect with
  | refused | outside | unasked | quiet | timeout | unknown | missing => exact .inl (.refl s)
  | connected _ registered | accepted registered => exact registering registered
  | listening => exact .inl ⟨rfl,.refl _,rfl⟩
  | @sent number mark after buf sending =>
    left
    by_cases own : number = i
    · subst own
      cases sending with
      | stale => exact .refl s
      | queued live | kicked live => exact absurd live (dead mark)
    · exact sending.apart own
  | @closing number mark after closing =>
    left
    by_cases own : number = i
    · subst own
      cases closing with
      | stale => exact (Apart.refl s).released _
      | called live => exact absurd live (dead mark)
    · exact closing.apart own
  | consumed stack b len => exact .inl ((Apart.refl s).setPeer (frames_none alone stack) _)
  | onConDone stack receiving | onReadDone stack nonneg receiving =>
    have other := frames_none alone stack
    exact .inl ((popped_apart stack other).trans (receiving.apart other))
  | @onDisConDone number mark k rest stack ret =>
    have other := frames_none alone stack
    have left : Apart i s {s with stack := rest,closed := s.closed ++ [(s.peers number).socket]} :=
      (popped_apart stack other).trans ⟨rfl,.refl _,rfl⟩
    exact .inl ((left.setPeer other _).released k)
  | onReadRefused stack negative closing =>
    have other := frames_none alone stack
    exact .inl ((popped_apart stack other).trans (closing.apart other))
  | deleted found closing => exact .inl ((dequeued_apart found (strange found)).trans (closing.apart (strange found)))
  | completed found completing => exact .inl ((dequeued_apart found (strange found)).trans (completing.apart (strange found)))

-- registerSocket starts an empty pipeline, which onCon will go on with.
theorem registered_piped {c : Connection} (fresh : s.peers i = default) (idle : operations s i = []) (alone : frames s i = []) :
    Piped i 0 0 [] [] ({s.setPeer i (s.joined i c) with serial := s.serial+1}.called
      (.onCon i s.serial c.remoteIp c.remotePort) (.onCon i s.serial)) := by
  have peer : (s.setPeer i (s.joined i c)).peers i = s.joined i c := setPeer_at s i _
  have empty : (SockBuf.new 100).readable = [] := Block.slice_zero _ _
  have ok : SockBuf.Ok (SockBuf.new 100) := SockBuf.new_ok (by decide)
  have own : slot (.onCon i s.serial) = i := rfl
  unfold Piped
  rw [frames_called _ _ own]
  show Pipe ((s.setPeer i (s.joined i c)).peers i) (operations s i) (_ :: frames s i) 0 0 [] []
  rw [peer,idle,alone]
  unfold joined
  rw [fresh]
  exact ⟨ok,ok,Nat.zero_le _,fun _ => ⟨rfl,empty,empty⟩,nofun,nofun,fun _ => rfl,congrArg₂ _ empty empty⟩

-- How many connections have had the slot.
def connections (i : Nat) (s : IocpService) : Nat := s.reported.countP (·.1 = i)

theorem step_connections {input : IocpInput} (step : IocpStep s input t) : connections i s ≤ connections i t := by
  obtain ⟨more,grown⟩ := (step_slots step).grows
  unfold connections
  rw [grown,List.countP_append]
  exact Nat.le_add_right _ _

-- A slot that is open was open before, or has been taken by this step.
theorem step_opens {input : IocpInput} (step : IocpStep s input t) (valid : (t.peers i).socket ≠ invalidSocket) :
    (s.peers i).socket ≠ invalidSocket ∨ connections i t = connections i s+1 := by
  cases step_slots step with
  | same same => exact .inl (same.socket i ▸ valid)
  | opened index bound free given others serial reported =>
    by_cases own : index = i
    · right
      unfold connections
      rw [reported,List.countP_append,own]
      simp
    · rw [others i (Ne.symm own)] at valid
      exact .inl valid
  | shut index socket others serial reported =>
    by_cases own : index = i
    · exact absurd (own ▸ socket) valid
    · rw [others i (Ne.symm own)] at valid
      exact .inl valid

theorem piped_path (path : Path IocpStep new taken last) (once : connections i last ≤ 1) :
    (connections i last = 0 → Unused i taken last) ∧
    ((last.peers i).socket ≠ invalidSocket → Piped i 0 0 (written i taken) (sent i taken) last) := by
  induction path with
  | nil => exact ⟨fun _ => ⟨rfl,rfl,rfl,rfl,rfl⟩,fun valid => absurd rfl valid⟩
  | @step earlier middle input last prior step ih =>
    have more := step_connections (i := i) step
    obtain ⟨untouched,open_slot⟩ := ih (Nat.le_trans more once)
    have grown : sent i (earlier ++ [⟨middle,input,last⟩]) = sent i earlier ++ sends i ⟨middle,input,last⟩ := by simp [sent]
    have reported : written i (earlier ++ [⟨middle,input,last⟩]) = written i earlier ++ writing_reports i ⟨middle,input,last⟩ := by
      simp [written]
    by_cases fresh : connections i middle = 0
    · obtain ⟨peer,idle,alone,none_sent,none_written⟩ := untouched fresh
      have shut : (middle.peers i).socket = invalidSocket := by rw [peer]; rfl
      rw [none_sent,sends_closed shut] at grown
      rw [none_written,writing_reports_none idle] at reported
      rcases (step_effect step).unused shut idle alone with apart | ⟨c,rfl⟩
      · have kept : last.peers i = default := apart.peer.trans peer
        have none : operations last i = [] := List.Perm.eq_nil (idle ▸ apart.operations)
        refine ⟨fun _ => ⟨kept,none,apart.frames.trans alone,grown,reported⟩,fun valid => ?_⟩
        rw [kept] at valid
        exact absurd rfl valid
      · refine ⟨fun zero => ?_,fun _ => ?_⟩
        · unfold connections IocpService.reported at zero
          rw [called_callbacks,List.filterMap_append,List.countP_append] at zero
          simp [handle] at zero
        · rw [grown,reported]
          exact registered_piped peer idle alone
    · refine ⟨fun zero => by omega,fun valid => ?_⟩
      rw [grown,reported]
      rcases step_opens step valid with before | new
      · exact (step_effect step).piped step.genuine (open_slot before) before valid
      · omega

-- What holds of the pipeline of a connection in its slot.
structure Pipeline (taken : List (Transition IocpService IocpInput)) (s : IocpService) (i : Nat) : Prop where
  flag : ¬ Shutting s i → writes s i = if (s.peers i).wsaSend = true then 1 else 0
  current : ∀ op ∈ operations s i, ∀ b, op.request = .send b → b = (s.peers i).writeBuf
  wakes : (s.peers i).writeBuf.readable ≠ [] ∨ (s.peers i).writeBufBackup.readable ≠ [] → (s.peers i).wsaSend = true
  receiving : s.stack = [] → reads s i = 1
  bytes : written i taken ++ ((s.peers i).writeBuf.readable ++ (s.peers i).writeBufBackup.readable) = sent i taken

theorem Piped.pipeline (piped : Piped i 0 0 (written i taken) (sent i taken) s) : Pipeline taken s i := by
  obtain ⟨_,_,few,idle,busy,current,serving,bytes⟩ := piped
  have all (undisturbed : ¬ Shutting s i) : (frames s i).all serves = true := by
    rw [List.all_eq_true]
    intro frame member
    by_contra closing
    exact undisturbed ⟨frame,member,Bool.eq_false_iff.mpr closing⟩
  refine ⟨fun undisturbed => ?_,current,fun some_bytes => ?_,fun empty => ?_,bytes⟩
  · split
    · rename_i flag
      exact busy flag (all undisturbed)
    · rename_i flag
      exact (idle (Bool.eq_false_iff.mpr flag)).1
  · by_contra flag
    obtain ⟨_,first,second⟩ := idle (Bool.eq_false_iff.mpr flag)
    rcases some_bytes with left | left
    · exact left first
    · exact left second
  · have none : frames s i = [] := by
      unfold frames
      rw [empty]
      rfl
    rw [none] at serving
    exact serving rfl

-- Every run in which one connection has had the slot, as long as it is open. The flag
-- counts the write completions until closePeer is called.
theorem pipeline_kept (path : Path IocpStep new taken s) (once : connections i s ≤ 1)
    (valid : (s.peers i).socket ≠ invalidSocket) : Pipeline taken s i :=
  ((piped_path path once).2 valid).pipeline

-- A block waits for the completion that send has posted.
def greet : IocpInput := ⟨.send 0 0 ⟨[7,8],by decide⟩,⟨true,0⟩⟩

theorem pipeline_kept_greet : writes (waiting.after greet) 0 = 1 ∧
    ((waiting.after greet).peers 0).writeBufBackup.readable = [7,8] := by
  have third : IocpStep waiting greet (waiting.after greet) := .returns trivial rfl
  have kept := pipeline_kept (.step waiting_path third) (i := 0) (by decide) (by decide)
  exact ⟨kept.flag (fun ⟨_,member,_⟩ => nomatch member),kept.bytes⟩

end PcNetwork.Libnet.IocpService
