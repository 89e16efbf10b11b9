import PcNetwork.Libnet.Contexts

namespace PcNetwork.Libnet.IocpService
variable {s t u : IocpService} {p : Peer} {index i k : Nat} {serial : UInt64} {context : Option Nat} {size : UInt32} {sys : System}

-- A context and the connection that an operation was started for with it.
structure Owner where
  context : Nat
  index : Nat
  serial : UInt64

def owner (op : Operation) : Owner := ⟨op.context,op.index,op.serial⟩

-- The completion that a waiting function is in the middle of.
def frameOwners : Frame → List Owner
  | .onCon _ _ => []
  | .onDisCon index serial context => context.toList.map (⟨·,index,serial⟩)
  | .onRead index serial context => [⟨context,index,serial⟩]

-- An operation was started with this context for this connection.
def Posted (taken : List (Transition IocpService IocpInput)) (o : Owner) : Prop :=
  ∃ t ∈ taken, ∃ op ∈ t.after.pending, owner op = o

-- The slot is open for another connection.
def Reused (s : IocpService) (index : Nat) (serial : UInt64) : Prop :=
  (s.peers index).socket ≠ invalidSocket ∧ (s.peers index).serial ≠ serial

-- The event deals with the completion of this context: it is dequeued, or the callback
-- that it led to returns. Any operation may be the one that failed with another error.
inductive Completes (s : IocpService) : IocpEvent → Nat → Prop where
  | deleted {k : Nat} {op : Operation} (found : s.pending[k]? = some op) : Completes s (.eventTick (.deleted k)) op.context
  | success {k : Nat} {op : Operation} (found : s.pending[k]? = some op) (size : UInt32) (stored : List UInt8) :
      Completes s (.eventTick (.success k size stored)) op.context
  | failed {op : Operation} (found : op ∈ s.pending) : Completes s (.eventTick .failed) op.context
  | resumed {frame : Frame} {rest : List Frame} {c : Nat} (stack : s.stack = frame :: rest) (own : c ∈ frameContexts frame) (ret : Int) :
      Completes s (.resume ret) c

def disconnects (index : Nat) : Callback → Bool
  | .onDisCon i _ _ _ => i == index
  | .onCon _ _ _ _ | .onRead _ _ => false

structure Untouched (s t : IocpService) (index : Nat) : Prop where
  readBuf : (t.peers index).readBuf = (s.peers index).readBuf
  writeBuf : (t.peers index).writeBuf = (s.peers index).writeBuf
  writeBufBackup : (t.peers index).writeBufBackup = (s.peers index).writeBufBackup
  wsaSend : (t.peers index).wsaSend = (s.peers index).wsaSend
  socket : (t.peers index).socket = (s.peers index).socket
  onDisCon : t.callbacks.filter (disconnects index) = s.callbacks.filter (disconnects index)

-- The completion of an operation leaves a later connection in its slot alone.
def Isolated (taken : List (Transition IocpService IocpInput)) (s : IocpService) (input : IocpInput) : Prop :=
  ∀ o, Posted taken o → Completes s input.event o.context → Reused s o.index o.serial →
    ∃ t, run input s = .ok () t ∧ Untouched s t o.index

-- A write completion of no bytes finds no backup, and wsa_send as it will leave it.
structure Idle (p : Peer) (sys : System) (size : UInt32) : Prop where
  zero : size = 0
  order : ¬ p.writeBuf.readIndex > p.writeBuf.writeIndex
  backup : SockBuf.readableBytes p.writeBufBackup = .ok 0 p.writeBufBackup
  flag : ∃ n, SockBuf.readableBytes p.writeBuf = .ok n p.writeBuf ∧ p.wsaSend = decide (n > 0) ∧ (n > 0 → sys.accepts = true)

-- What is dealt with in a slot that has been taken again: write completions that find
-- nothing to do, and reads whose buffer needs no room.
structure Harmless (s : IocpService) (input : IocpInput) : Prop where
  deleted : ∀ k op, input.event = .eventTick (.deleted k) → s.pending[k]? = some op → ¬ Reused s op.index op.serial
  failed : input.event = .eventTick .failed → ∀ op ∈ s.pending, ¬ Reused s op.index op.serial
  success : ∀ k size stored op, input.event = .eventTick (.success k size stored) → s.pending[k]? = some op →
    Reused s op.index op.serial → (∀ b, op.request ≠ .recv b) ∧ Idle (s.peers op.index) input.sys size
  onDisCon : ∀ ret index serial c rest, input.event = .resume ret → s.stack = .onDisCon index serial (some c) :: rest →
    ¬ Reused s index serial
  onRead : ∀ ret index serial c rest, input.event = .resume ret → s.stack = .onRead index serial c :: rest →
    Reused s index serial → ¬ ret < 0 ∧ input.sys.accepts = true ∧
    ∃ n, SockBuf.writableBytes (s.peers index).readBuf = .ok n (s.peers index).readBuf ∧ ¬ n < 512

-- A step starts one operation at most, with a new context, and its frames go on with
-- completions that were waited for or are in hand.
structure Owns (s : IocpService) (hand : List Owner) (t : IocpService) : Prop where
  issued : s.issued ≤ t.issued
  frames : ∀ o ∈ t.stack.flatMap frameOwners, o ∈ s.stack.flatMap frameOwners ∨ o ∈ hand
  pending : ∃ started : Operation, ∀ op ∈ t.pending,
    op ∈ s.pending ∨ op = started ∧ started.context = s.issued ∧ s.issued < t.issued

theorem Owns.kept {hand : List Owner} (issued : s.issued ≤ t.issued) (stack : t.stack = s.stack) (pending : t.pending = s.pending) :
    Owns s hand t := by
  refine ⟨issued,fun o member => ?_,⟨0,0,0,.posted⟩,fun op member => ?_⟩
  · rw [stack] at member
    exact .inl member
  · rw [pending] at member
    exact .inl member

theorem Owns.waits {c : Callback} (frame : Frame) (issued : s.issued ≤ t.issued) (stack : t.stack = s.stack)
    (pending : t.pending = s.pending) : Owns s (frameOwners frame) (t.called c frame) := by
  have kept : Owns s [] t := .kept issued stack pending
  obtain ⟨_,_,started⟩ := kept
  refine ⟨issued,fun o member => ?_,started⟩
  rw [called_stack,List.flatMap_cons,stack] at member
  rcases List.mem_append.mp member with new | old
  · exact .inr new
  · exact .inl old

theorem Owns.starts {hand : List Owner} {request : Request} (issued : t.issued = s.issued) (stack : t.stack = s.stack)
    (pending : t.pending = s.pending) : Owns s hand (t.outstanding index serial request) := by
  have less : s.issued < (t.outstanding index serial request).issued := by
    rw [← issued]
    exact Nat.lt_succ_self _
  refine ⟨Nat.le_of_lt less,fun o member => ?_,⟨t.issued,index,serial,request⟩,fun op member => ?_⟩
  · rw [outstanding_stack,stack] at member
    exact .inl member
  · rcases List.mem_append.mp member with old | new
    · rw [pending] at old
      exact .inl old
    · exact .inr ⟨List.mem_singleton.mp new,issued,less⟩

theorem Owns.released {hand : List Owner} (owns : Owns s hand t) (context : Option Nat) : Owns s hand (t.released context) := by
  obtain ⟨issued,frames,pending⟩ := owns
  cases context <;> exact ⟨issued,frames,pending⟩

theorem Closing.owns (closing : Closing s index serial context t) : Owns s (frameOwners (.onDisCon index serial context)) t := by
  cases closing with
  | stale dead =>
    apply Owns.released
    exact .kept (Nat.le_refl _) rfl rfl
  | called live ip port => exact .waits _ (Nat.le_refl _) rfl rfl

theorem Receiving.owns (receiving : Receiving sys s index serial context t) :
    Owns s (frameOwners (.onDisCon index serial context)) t := by
  cases receiving with
  | stale dead =>
    apply Owns.released
    exact .kept (Nat.le_refl _) rfl rfl
  | posted live b =>
    apply Owns.released
    exact .starts rfl rfl rfl
  | refused no live b ip port => exact .waits _ (Nat.le_succ _) rfl rfl

theorem Sending.owns {buf : List UInt8} (sending : Sending s index serial buf t) : Owns s [] t := by
  cases sending with
  | stale dead => exact .kept (Nat.le_refl _) rfl rfl
  | queued live busy b appended => exact .kept (Nat.le_refl _) rfl rfl
  | kicked live idle b appended =>
    exact .starts (t := s.setPeer index {s.peers index with writeBufBackup := b,wsaSend := true}) rfl rfl rfl

theorem Registered.owns {c : Connection} (registered : Registered s c t) : Owns s [] t := by
  cases registered with
  | given index bound free =>
    exact .waits (.onCon index s.serial) (t := {s.setPeer index (s.joined index c) with serial := s.serial+1})
      (Nat.le_refl _) rfl rfl

theorem Writing.owns (writing : Writing sys s index size k t) : Owns s [⟨k,index,(s.peers index).serial⟩] t := by
  cases writing with
  | done merged count nothing =>
    apply Owns.released
    exact .kept (Nat.le_refl _) rfl rfl
  | posted merged count something =>
    apply Owns.released
    exact .starts rfl rfl rfl
  | refused no merged count something ip port =>
    exact .waits (.onDisCon index (s.peers index).serial (some k)) (Nat.le_succ _) rfl rfl

theorem Completing.owns {op : Operation} (completing : Completing sys s op size t) :
    Owns s [⟨op.context,op.index,(s.peers op.index).serial⟩] t := by
  cases completing with
  | ignored shut => exact .kept (Nat.le_refl _) rfl rfl
  | @ended d valid read zero b ip port =>
    exact .waits (.onDisCon op.index (s.peers op.index).serial (some op.context))
      (t := s.setPeer op.index {s.peers op.index with readBuf := b}) (Nat.le_refl _) rfl rfl
  | @read d valid read some_bytes b =>
    exact .waits (.onRead op.index (s.peers op.index).serial op.context)
      (t := s.setPeer op.index {s.peers op.index with readBuf := b}) (Nat.le_refl _) rfl rfl
  | wrote valid write writing => exact writing.owns

theorem Owns.weaken {hand wider : List Owner} (owns : Owns s hand t) (inside : ∀ o ∈ hand, o ∈ wider) : Owns s wider t := by
  obtain ⟨issued,frames,pending⟩ := owns
  exact ⟨issued,fun o member => (frames o member).imp_right (inside o),pending⟩

theorem Owns.dequeued {op : Operation} (owns : Owns (s.dequeued k) [owner op] t) (found : s.pending[k]? = some op) :
    Owns s (s.pending.map owner) t := by
  obtain ⟨issued,frames,started,pending⟩ := owns
  refine ⟨issued,fun o member => ?_,started,fun op member => ?_⟩
  · rcases frames o member with old | new
    · exact .inl old
    · right
      rw [List.mem_singleton.mp new]
      exact List.mem_map_of_mem (List.mem_of_getElem? found)
  · exact (pending op member).imp_left List.mem_of_mem_eraseIdx

theorem Owns.popped (frame : Frame) {rest : List Frame} (owns : Owns {s with stack := rest} (frameOwners frame) t)
    (stack : s.stack = frame :: rest) : Owns s [] t := by
  obtain ⟨issued,frames,pending⟩ := owns
  refine ⟨issued,fun o member => ?_,pending⟩
  left
  rw [stack,List.flatMap_cons]
  rcases frames o member with old | new
  · exact List.mem_append_right _ old
  · exact List.mem_append_left _ new

theorem settled (same : ¬ Reused s index serial) (valid : (s.peers index).socket ≠ invalidSocket) :
    (s.peers index).serial = serial := by
  by_contra other
  exact same ⟨valid,other⟩

theorem Closing.settled (closing : Closing s index (s.peers index).serial context t) (same : ¬ Reused s index serial) :
    Owns s (frameOwners (.onDisCon index serial context)) t := by
  have owns := closing.owns
  cases closing with
  | stale dead =>
    apply Owns.released
    exact .kept (Nat.le_refl _) rfl rfl
  | called live ip port =>
    refine owns.weaken fun o member => ?_
    rw [IocpService.settled same live.2] at member
    exact member

theorem Receiving.settled (receiving : Receiving sys s index (s.peers index).serial context t)
    (same : Reused s index serial → sys.accepts = true) : Owns s (frameOwners (.onDisCon index serial context)) t := by
  have owns := receiving.owns
  cases receiving with
  | stale dead =>
    apply Owns.released
    exact .kept (Nat.le_refl _) rfl rfl
  | posted live b =>
    apply Owns.released
    exact .starts rfl rfl rfl
  | refused no live b ip port =>
    have kept : ¬ Reused s index serial := fun reused => by
      rw [same reused] at no
      cases no
    refine owns.weaken fun o member => ?_
    rw [IocpService.settled kept live.2] at member
    exact member

theorem readMove_zero {b c : SockBuf} (ran : SockBuf.readMove 0 b = .ok () c) : c = b := by
  unfold SockBuf.readMove at ran
  rw [UInt32.add_zero] at ran
  dsimp only at ran
  split at ran
  · cases ran
  · cases ran
    rfl

-- A write completion that finds nothing to do closes nothing.
theorem Writing.idle (writing : Writing sys s index size k t) (idle : Idle (s.peers index) sys size) : Owns s [] t := by
  obtain ⟨rfl,order,backup,n,count,flag,accepts⟩ := idle
  cases writing with
  | done merged count nothing =>
    apply Owns.released
    exact .kept (Nat.le_refl _) rfl rfl
  | posted merged count something =>
    apply Owns.released
    exact .starts rfl rfl rfl
  | refused no merged left something ip port =>
    cases merged with
    | rest moved none nothing =>
      obtain rfl := readMove_zero moved
      rw [count] at left
      cases left
      rw [accepts something] at no
      cases no
    | both moved some_bytes positive appended taken =>
      rw [backup] at some_bytes
      cases some_bytes
      exact absurd positive (by decide)

theorem Completing.settled {op : Operation} (completing : Completing sys s op size t)
    (same : Reused s op.index op.serial → (∀ b, op.request ≠ .recv b) ∧ Idle (s.peers op.index) sys size) : Owns s [owner op] t := by
  have owns := completing.owns
  have kept (valid : (s.peers op.index).socket ≠ invalidSocket) (fresh : ¬ Reused s op.index op.serial) : Owns s [owner op] t := by
    refine owns.weaken fun o member => ?_
    rw [IocpService.settled fresh valid] at member
    exact member
  cases completing with
  | ignored shut => exact .kept (Nat.le_refl _) rfl rfl
  | ended valid read | read valid read => exact kept valid fun reused => (same reused).1 _ read
  | wrote valid write writing =>
    by_cases reused : Reused s op.index op.serial
    · exact (writing.idle (same reused).2).weaken nofun
    · exact kept valid reused

theorem Effect.owns {event : IocpEvent} (effect : Effect sys s event t) (harmless : Harmless s ⟨event,sys⟩) :
    Owns s (s.pending.map owner) t := by
  cases effect with
  | refused | outside | unasked | quiet | timeout | unknown | missing => exact .kept (Nat.le_refl _) rfl rfl
  | connected _ registered | accepted registered => exact registered.owns.weaken nofun
  | listening => exact .kept (Nat.le_refl _) rfl rfl
  | sent sending => exact sending.owns.weaken nofun
  | closing closing => exact closing.owns.weaken nofun
  | consumed stack b len => exact .kept (Nat.le_refl _) rfl rfl
  | onConDone stack receiving => exact (Owns.popped (.onCon _ _) receiving.owns stack).weaken nofun
  | onDisConDone stack ret =>
    refine (Owns.popped _ ?_ stack).weaken nofun
    apply Owns.released
    exact .kept (Nat.le_refl _) rfl rfl
  | onReadRefused stack negative closing =>
    have same := fun reused => (harmless.onRead _ _ _ _ _ rfl stack reused).1 negative
    exact (Owns.popped (.onRead _ _ _) (closing.settled same) stack).weaken nofun
  | onReadDone stack nonneg receiving =>
    have accepts := fun reused => (harmless.onRead _ _ _ _ _ rfl stack reused).2.1
    exact (Owns.popped (.onRead _ _ _) (receiving.settled accepts) stack).weaken nofun
  | deleted found closing =>
    exact Owns.dequeued (closing.settled (harmless.deleted _ _ rfl found)) found
  | completed found completing =>
    exact Owns.dequeued (completing.settled fun reused => harmless.success _ _ _ _ rfl found reused) found

-- The contexts in use belong to the operations that were started with them.
structure Traced (taken : List (Transition IocpService IocpInput)) (s : IocpService) : Prop where
  pending : ∀ op ∈ s.pending, Posted taken (owner op)
  frames : ∀ o ∈ s.stack.flatMap frameOwners, Posted taken o
  unique : ∀ o p, Posted taken o → Posted taken p → o.context = p.context → o = p
  issued : ∀ o, Posted taken o → o.context < s.issued

theorem Posted.later {o : Owner} (posted : Posted taken o) (more : List (Transition IocpService IocpInput)) :
    Posted (taken ++ more) o := by
  obtain ⟨t,member,found⟩ := posted
  exact ⟨t,List.mem_append_left _ member,found⟩

theorem Traced.step {input : IocpInput} (traced : Traced taken s) (owns : Owns s (s.pending.map owner) t) :
    Traced (taken ++ [⟨s,input,t⟩]) t := by
  obtain ⟨pending,frames,unique,issued⟩ := traced
  obtain ⟨less,waits,started,starts⟩ := owns
  have origin (o : Owner) (posted : Posted (taken ++ [⟨s,input,t⟩]) o) :
      Posted taken o ∨ o = owner started ∧ started.context = s.issued ∧ s.issued < t.issued := by
    obtain ⟨u,member,op,outstanding,rfl⟩ := posted
    rcases List.mem_append.mp member with earlier | last
    · exact .inl ⟨u,earlier,op,outstanding,rfl⟩
    · cases List.mem_singleton.mp last
      rcases starts op outstanding with old | ⟨rfl,new⟩
      · exact .inl (pending op old)
      · exact .inr ⟨rfl,new⟩
  refine ⟨fun op member => ?_,fun o member => ?_,fun o p first second same => ?_,fun o posted => ?_⟩
  · exact ⟨_,List.mem_append_right _ (List.mem_singleton.mpr rfl),op,member,rfl⟩
  · apply Posted.later
    rcases waits o member with old | hand
    · exact frames o old
    · obtain ⟨op,started,rfl⟩ := List.mem_map.mp hand
      exact pending op started
  · rcases origin o first with old | ⟨rfl,fresh,_⟩
    · rcases origin p second with older | ⟨rfl,fresh,_⟩
      · exact unique o p old older same
      · exact absurd (issued o old) (by rw [same]; exact Nat.not_lt.mpr (Nat.le_of_eq fresh.symm))
    · rcases origin p second with older | ⟨rfl,_⟩
      · exact absurd (issued p older) (by rw [← same]; exact Nat.not_lt.mpr (Nat.le_of_eq fresh.symm))
      · rfl
  · rcases origin o posted with old | ⟨rfl,fresh,more⟩
    · exact Nat.lt_of_lt_of_le (issued o old) less
    · exact fresh.trans_lt more

theorem traced_path (path : Path IocpStep new taken last) (harmless : ∀ t ∈ taken, Harmless t.before t.event) :
    Traced taken last := by
  induction path with
  | nil =>
    have none (o : Owner) : ¬ Posted [] o := by
      rintro ⟨t,member,_⟩
      cases member
    exact ⟨nofun,nofun,fun o _ posted => absurd posted (none o),fun o posted => absurd posted (none o)⟩
  | step prior step ih =>
    have traced := ih fun t member => harmless t (List.mem_append_left _ member)
    have met := harmless _ (List.mem_append_right _ (List.mem_singleton.mpr rfl))
    exact traced.step ((step_effect step).owns met)

theorem onReadBuf_same {f : Throwing SockBuf α} (ran : f (s.peers index).readBuf = .ok a (s.peers index).readBuf) :
    onReadBuf index f s = .ok a s := by
  unfold onReadBuf
  rw [ran]
  exact congrArg _ (setPeer_same s index)

theorem onWriteBuf_same {f : Throwing SockBuf α} (ran : f (s.peers index).writeBuf = .ok a (s.peers index).writeBuf) :
    onWriteBuf index f s = .ok a s := by
  unfold onWriteBuf
  rw [ran]
  exact congrArg _ (setPeer_same s index)

theorem onBackup_same {f : Throwing SockBuf α} (ran : f (s.peers index).writeBufBackup = .ok a (s.peers index).writeBufBackup) :
    onBackup index f s = .ok a s := by
  unfold onBackup
  rw [ran]
  exact congrArg _ (setPeer_same s index)

theorem takeBackup_none (count : SockBuf.readableBytes (s.peers index).writeBufBackup = .ok 0 (s.peers index).writeBufBackup) :
    takeBackup index s = .ok () s := by
  unfold takeBackup
  rw [bind_ok (onBackup_same count)]
  rfl

theorem postSendRequest_posts {n : UInt32} (bound : index < maxPeerNum) (live : Live s index serial) (accepts : sys.accepts = true)
    (count : SockBuf.readableBytes (s.peers index).writeBuf = .ok n (s.peers index).writeBuf) :
    postSendRequest sys index serial context s = .ok ()
      (((s.setPeer index {s.peers index with wsaSend := true}).outstanding index serial (.send (s.peers index).writeBuf)).released
        context) := by
  have flagged : modifyPeer index (fun p => {p with wsaSend := true}) s = .ok () (s.setPeer index {s.peers index with wsaSend := true}) := rfl
  have counted : onWriteBuf index SockBuf.readableBytes (s.setPeer index {s.peers index with wsaSend := true}).leaked =
      .ok n (s.setPeer index {s.peers index with wsaSend := true}).leaked := by
    apply onWriteBuf_same
    rw [leaked_peers,setPeer_at]
    exact count
  unfold postSendRequest
  rw [bind_ok (getPeer_ok bound s),if_neg fun dead => (not_live _ _ _).mp dead live,bind_ok flagged]
  refine (bind_ok (t := (s.setPeer index {s.peers index with wsaSend := true}).leaked) rfl _).trans ?_
  rw [bind_ok counted,if_pos accepts]
  refine (bind_ok rfl _).trans ?_
  rw [deleteIOCxt_released]
  dsimp only
  rw [leaked_peers,setPeer_at]
  rfl

theorem processWrite_idle (bound : index < maxPeerNum) (valid : (s.peers index).socket ≠ invalidSocket)
    (idle : Idle (s.peers index) sys size) :
    ∃ t, processWrite sys index size k s = .ok () t ∧ t.peers index = s.peers index ∧ t.callbacks = s.callbacks := by
  obtain ⟨rfl,order,backup,n,count,flag,accepts⟩ := idle
  obtain ⟨v,lowered⟩ : ∃ v, v = s.setPeer index {s.peers index with wsaSend := false} := ⟨_,rfl⟩
  have peer : v.peers index = {s.peers index with wsaSend := false} := by rw [lowered,setPeer_at]
  have modified : modifyPeer index (fun p => {p with wsaSend := false}) s = .ok () v := by rw [lowered]; rfl
  have moved : onWriteBuf index (SockBuf.readMove 0) v = .ok () v := by
    apply onWriteBuf_same
    rw [peer]
    unfold SockBuf.readMove
    rw [UInt32.add_zero]
    exact if_neg order
  have merged : takeBackup index v = .ok () v := by
    apply takeBackup_none
    rw [peer]
    exact backup
  have counts : SockBuf.readableBytes (v.peers index).writeBuf = .ok n (v.peers index).writeBuf := by
    rw [peer]
    exact count
  have live : Live v index (s.peers index).serial := by
    unfold Live
    rw [peer]
    exact ⟨rfl,valid⟩
  unfold processWrite
  rw [bind_ok (getPeer_ok bound s),if_neg valid,bind_ok modified,bind_ok moved,bind_ok merged,bind_ok (onWriteBuf_same counts)]
  by_cases something : n > 0
  · rw [if_pos something,postSendRequest_posts bound live (accepts something) counts]
    rw [decide_eq_true something] at flag
    refine ⟨_,rfl,?_,?_⟩
    · rw [released_peers,outstanding_peers,setPeer_at,peer,← flag]
    · rw [released_callbacks,outstanding_callbacks,setPeer_callbacks,lowered,setPeer_callbacks]
  · rw [if_neg something,deleteIOCxt_released]
    rw [decide_eq_false something] at flag
    refine ⟨_,rfl,?_,?_⟩
    · rw [released_peers,peer,← flag]
    · rw [released_callbacks,lowered,setPeer_callbacks]

theorem postRecvRequest_posts {n : UInt32} (bound : index < maxPeerNum) (live : Live s index serial) (accepts : sys.accepts = true)
    (room : SockBuf.writableBytes (s.peers index).readBuf = .ok n (s.peers index).readBuf) (enough : ¬ n < 512) :
    postRecvRequest sys index serial context s = .ok ()
      ((s.outstanding index serial (.recv (s.peers index).readBuf)).released context) := by
  have ensured : onReadBuf index (SockBuf.ensureWritableBytes 512) s.leaked = .ok () s.leaked := by
    apply onReadBuf_same
    rw [leaked_peers]
    unfold SockBuf.ensureWritableBytes
    rw [bind_ok room,if_neg enough]
    rfl
  have counted : onReadBuf index SockBuf.writableBytes s.leaked = .ok n s.leaked := onReadBuf_same room
  unfold postRecvRequest
  rw [bind_ok (getPeer_ok bound s),if_neg fun dead => (not_live _ _ _).mp dead live]
  refine (bind_ok (t := s.leaked) rfl _).trans ?_
  rw [bind_ok ensured,bind_ok counted,if_pos accepts]
  refine (bind_ok rfl _).trans ?_
  rw [deleteIOCxt_released]
  rfl

theorem onReadDone_posts {n : UInt32} {ret : Int} {c : Nat} (bound : index < maxPeerNum) (valid : (s.peers index).socket ≠ invalidSocket)
    (nonneg : ¬ ret < 0) (accepts : sys.accepts = true)
    (room : SockBuf.writableBytes (s.peers index).readBuf = .ok n (s.peers index).readBuf) (enough : ¬ n < 512) :
    onReadDone sys index ret c s = .ok ()
      ((s.outstanding index (s.peers index).serial (.recv (s.peers index).readBuf)).released (some c)) := by
  unfold onReadDone
  rw [bind_ok (getPeer_ok bound s),if_neg nonneg]
  exact postRecvRequest_posts bound ⟨rfl,valid⟩ accepts room enough

theorem Untouched.of_peer (peer : t.peers index = s.peers index) (callbacks : t.callbacks = s.callbacks) : Untouched s t index := by
  constructor
  case onDisCon => rw [callbacks]
  all_goals rw [peer]

theorem tick_handled {op : Operation} {stored : List UInt8} (found : s.pending[k]? = some op)
    (handled : dispatch sys op size stored (s.dequeued k) = .ok () t) : run ⟨.eventTick (.success k size stored),sys⟩ s = .ok () t := by
  have start : dequeue k s = .ok (some op) (s.dequeued k) := by rw [← found]; rfl
  have ticked : onEventTick sys (.success k size stored) s = .ok true t := by
    unfold onEventTick
    exact (bind_ok start _).trans (bind_ok handled _)
  exact bind_ok ticked _

theorem dispatch_write {op : Operation} {stored : List UInt8} (bound : op.index < maxPeerNum)
    (valid : (s.peers op.index).socket ≠ invalidSocket) (write : ∀ b, op.request ≠ .recv b) :
    dispatch sys op size stored s = processWrite sys op.index size op.context s := by
  unfold dispatch
  rw [bind_ok (getPeer_ok bound s),if_neg valid]
  cases request : op.request with
  | recv b => exact absurd request (write b)
  | send b | posted => rfl

theorem resume_onRead {c : Nat} {rest : List Frame} {ret : Int} (stack : s.stack = .onRead index serial c :: rest) :
    run ⟨.resume ret,sys⟩ s = onReadDone sys index ret c {s with stack := rest} := by
  show resume sys ret s = _
  refine (bind_ok rfl _).trans ?_
  rw [stack]
  rfl

-- A step that meets the condition leaves later connections alone.
theorem Harmless.isolated {input : IocpInput} (harmless : Harmless s input) (traced : Traced taken s) (handles : Handles s)
    (genuine : Genuine s input.event) : Isolated taken s input := by
  obtain ⟨event,sys⟩ := input
  intro o posted completes reused
  have bound : o.index < maxPeerNum := handles.inside _ (handles.known _ reused.1)
  dsimp only at completes
  generalize named : o.context = c at completes
  cases completes with
  | @deleted k op found =>
    obtain rfl := traced.unique _ _ (traced.pending op (List.mem_of_getElem? found)) posted named.symm
    exact absurd reused (harmless.deleted k op rfl found)
  | @success k op found size stored =>
    obtain rfl := traced.unique _ _ (traced.pending op (List.mem_of_getElem? found)) posted named.symm
    obtain ⟨write,idle⟩ := harmless.success k size stored op rfl found reused
    obtain ⟨t,ran,peer,callbacks⟩ := processWrite_idle (s := s.dequeued k) (k := op.context) bound reused.1 idle
    exact ⟨t,tick_handled found ((dispatch_write (s := s.dequeued k) bound reused.1 write).trans ran),.of_peer peer callbacks⟩
  | @failed op found =>
    obtain rfl := traced.unique _ _ (traced.pending op found) posted named.symm
    exact absurd reused (harmless.failed rfl op found)
  | @resumed frame rest c stack own ret =>
    have waits (p : Owner) (member : p ∈ frameOwners frame) : Posted taken p := by
      apply traced.frames
      rw [stack,List.flatMap_cons]
      exact List.mem_append_left _ member
    cases frame with
    | onCon index serial => cases own
    | onDisCon index serial context =>
      cases context with
      | none => cases own
      | some k =>
        cases List.mem_singleton.mp own
        obtain rfl := traced.unique _ _ (waits _ (List.mem_singleton.mpr rfl)) posted named.symm
        exact absurd reused (harmless.onDisCon ret index serial c rest rfl stack)
    | onRead index serial k =>
      cases List.mem_singleton.mp own
      obtain rfl := traced.unique _ _ (waits _ (List.mem_singleton.mpr rfl)) posted named.symm
      obtain ⟨nonneg,accepts,n,room,enough⟩ := harmless.onRead ret index serial c rest rfl stack reused
      have done := onReadDone_posts (s := {s with stack := rest}) (c := c) bound reused.1 nonneg accepts room enough
      exact ⟨_,(resume_onRead stack).trans done,.of_peer (congrFun (released_peers _ _) index) (released_callbacks _ _)⟩

-- In every run whose steps meet the condition, and in the step after it.
theorem reuse_isolated (path : Path IocpStep new taken s) (harmless : ∀ t ∈ taken, Harmless t.before t.event)
    (input : IocpInput) (genuine : Genuine s input.event) (next : Harmless s input) : Isolated taken s input :=
  next.isolated (traced_path path harmless) (new_handles.of_path path) genuine

theorem harmless_call {event : IocpEvent} (tick : ∀ completion, event ≠ .eventTick completion) (call : ∀ ret, event ≠ .resume ret) :
    Harmless s ⟨event,sys⟩ := by
  constructor
  case deleted => exact fun _ _ same => absurd same (tick _)
  case failed => exact fun same => absurd same (tick _)
  case success => exact fun _ _ _ _ same => absurd same (tick _)
  case onDisCon | onRead => exact fun _ _ _ _ _ same => absurd same (call _)

theorem harmless_resume {ret : Int} (frame : Frame) {rest : List Frame} (stack : s.stack = frame :: rest)
    (unowned : frameOwners frame = []) : Harmless s ⟨.resume ret,sys⟩ := by
  constructor
  case deleted | failed | success => exact nofun
  case onDisCon =>
    intro ret index serial c more same top
    rw [stack] at top
    cases top
    cases unowned
  case onRead =>
    intro ret index serial c more same top
    rw [stack] at top
    cases top
    cases unowned

-- A run whose steps meet the condition.
def Calm (s : IocpService) : Prop := ∃ taken, Path IocpStep new taken s ∧ ∀ t ∈ taken, Harmless t.before t.event

theorem Calm.step {input : IocpInput} (calm : Calm s) (step : IocpStep s input t) (harmless : Harmless s input) : Calm t := by
  obtain ⟨taken,path,met⟩ := calm
  exact ⟨_,.step path step,List.forall_mem_append.mpr ⟨met,List.forall_mem_singleton.mpr harmless⟩⟩

-- Slot 0 is taken again when a write completion of its first connection is queued.
def nudge : IocpInput := ⟨.send 0 0 ⟨[],by decide⟩,⟨true,0⟩⟩
def nudged : IocpInput := ⟨.eventTick (.success 1 0 []),⟨true,0⟩⟩
def reopened : IocpService := ((((waiting.after nudge).after leave).after back).after visit).after back

theorem reopened_calm : Calm reopened := by
  have first : IocpStep new visit (new.after visit) := .returns trivial rfl
  have second : IocpStep (new.after visit) back waiting := .returns trivial rfl
  have third : IocpStep waiting nudge (waiting.after nudge) := .returns trivial rfl
  have fourth : IocpStep (waiting.after nudge) leave ((waiting.after nudge).after leave) := .returns trivial rfl
  have fifth : IocpStep ((waiting.after nudge).after leave) back (((waiting.after nudge).after leave).after back) := .returns trivial rfl
  have sixth : IocpStep (((waiting.after nudge).after leave).after back) visit
    ((((waiting.after nudge).after leave).after back).after visit) := .returns trivial rfl
  have seventh : IocpStep ((((waiting.after nudge).after leave).after back).after visit) back reopened := .returns trivial rfl
  have once : Calm waiting :=
    (Calm.step ⟨[],.nil,List.forall_mem_nil _⟩ first (harmless_call nofun nofun)).step second (harmless_resume (.onCon 0 0) rfl rfl)
  have closed := (once.step third (harmless_call nofun nofun)).step fourth (harmless_call nofun nofun)
  have freed := closed.step fifth (harmless_resume (.onDisCon 0 0 none) rfl rfl)
  exact (freed.step sixth (harmless_call nofun nofun)).step seventh (harmless_resume (.onCon 0 1) rfl rfl)

theorem readableBytes_reset (buf : List UInt8) (size : UInt32) : SockBuf.readableBytes ⟨buf,size,0,0⟩ = .ok 0 ⟨buf,size,0,0⟩ := by
  have nonneg : ¬ ((0 : UInt32)-0).toInt32 < 0 := by decide
  have none : ((0 : UInt32)-0).toInt32.toUInt32 = 0 := by decide
  unfold SockBuf.readableBytes
  dsimp only
  rw [if_neg nonneg,none]

theorem reuse_isolated_reopened : ∃ t, run nudged reopened = .ok () t ∧ Untouched reopened t 0 := by
  obtain ⟨taken,path,harmless⟩ := reopened_calm
  have posted := (traced_path path harmless).pending ⟨1,0,0,.posted⟩ (List.mem_of_getElem? (i := 1) rfl)
  have idle : Harmless reopened nudged := by
    constructor
    case deleted | failed | onDisCon | onRead => exact nofun
    intro k size stored op same found reused
    cases same
    cases found
    exact ⟨nofun,rfl,by decide,readableBytes_reset _ _,0,readableBytes_reset _ _,rfl,nofun⟩
  have completes : Completes reopened nudged.event 1 := @Completes.success reopened 1 ⟨1,0,0,.posted⟩ rfl 0 []
  have genuine : Genuine reopened nudged.event := ⟨rfl,⟨1,0,0,.posted⟩,rfl,rfl,rfl⟩
  have reused : Reused reopened 0 0 := ⟨by decide,by decide⟩
  exact reuse_isolated path harmless nudged genuine idle ⟨1,0,0⟩ posted completes reused

-- The read of the first connection fails when its slot has been taken again.
def failed : IocpInput := ⟨.eventTick (.deleted 0),⟨true,0⟩⟩

theorem reuse_disconnected : ∃ taken s input, Path IocpStep new taken s ∧ Genuine s input.event ∧ ¬ Isolated taken s input := by
  obtain ⟨taken,path,harmless⟩ := reopened_calm
  have genuine : Genuine reopened failed.event := ⟨rfl,by decide⟩
  have reused : Reused reopened 0 0 := ⟨by decide,by decide⟩
  refine ⟨taken,reopened,failed,path,genuine,fun isolated => ?_⟩
  have posted := (traced_path path harmless).pending ⟨0,0,0,.recv (waiting.peers 0).readBuf⟩ (List.mem_of_getElem? (i := 0) rfl)
  have completes : Completes reopened failed.event 0 := @Completes.deleted reopened 0 ⟨0,0,0,.recv (waiting.peers 0).readBuf⟩ rfl
  obtain ⟨t,ran,untouched⟩ := isolated ⟨0,0,0⟩ posted completes reused
  have same : reopened.after failed = t := congrArg final ran
  have told := untouched.onDisCon
  rw [← same] at told
  exact absurd (congrArg List.length told) (by decide)

end PcNetwork.Libnet.IocpService
