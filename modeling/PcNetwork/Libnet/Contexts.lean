import PcNetwork.Libnet.Handles

namespace PcNetwork.Libnet.IocpService
variable {s t u : IocpService} {index i : Nat} {serial : UInt64} {context : Option Nat} {size : UInt32} {sys : System}

-- The context that the rest of a waiting function deletes.
def frameContexts : Frame → List Nat
  | .onCon _ _ => []
  | .onDisCon _ _ context => context.toList
  | .onRead _ _ context => [context]

-- The contexts of the outstanding operations, and of the completions in hand.
def held (s : IocpService) : List Nat := s.pending.map (·.context) ++ s.stack.flatMap frameContexts

-- Every context that newIOCxt has given is held, in `hand`, or deleted: in one of them, once.
def Accounted (s : IocpService) (hand : List Nat) : Prop :=
  ∀ c, s.held.count c+hand.count c+s.freed.count c = if c < s.issued then 1 else 0

theorem Accounted.setPeer {p : Peer} {hand : List Nat} (accounted : Accounted s hand) : Accounted (s.setPeer index p) hand := accounted

theorem Accounted.released (accounted : Accounted s context.toList) : Accounted (s.released context) [] := by
  intro c
  have count := accounted c
  cases context with
  | none => exact count
  | some k =>
    show s.held.count c+0+(s.freed ++ [k]).count c = _
    rw [List.count_append,released_issued,← count]
    exact (Nat.add_right_comm _ _ _).trans (Nat.add_assoc _ _ _ ▸ Nat.add_right_comm _ _ _)

theorem Accounted.called {c : Callback} {frame : Frame} (accounted : Accounted s (frameContexts frame)) :
    Accounted (s.called c frame) [] := by
  intro k
  have count := accounted k
  unfold held at count ⊢
  rw [called_pending,called_stack,called_freed,called_issued,List.flatMap_cons]
  simp only [List.count_append,List.count_nil] at count ⊢
  omega

theorem Accounted.outstanding {request : Request} {hand : List Nat} (accounted : Accounted s hand) :
    Accounted (s.outstanding index serial request) hand := by
  intro k
  have count := accounted k
  have fresh := accounted s.issued
  unfold held at count fresh ⊢
  show ((s.pending ++ [(⟨s.issued,index,serial,request⟩ : Operation)]).map (·.context) ++ s.stack.flatMap frameContexts).count k+hand.count k+
    s.freed.count k = if k < s.issued+1 then 1 else 0
  rw [if_neg (Nat.lt_irrefl _)] at fresh
  simp only [List.map_append,List.map_cons,List.map_nil,List.count_append] at count fresh ⊢
  by_cases new : k = s.issued
  · subst new
    rw [List.count_singleton_self,if_pos (Nat.lt_succ_self _)]
    omega
  · have zero : [s.issued].count k = 0 := List.count_eq_zero.mpr fun member => new (List.mem_singleton.mp member)
    rw [zero]
    split at count <;> split <;> omega

theorem Accounted.dequeued {k : Nat} {op : Operation} (accounted : Accounted s []) (found : s.pending[k]? = some op) :
    Accounted (s.dequeued k) [op.context] := by
  intro c
  have count := accounted c
  have parts : (op :: s.pending.eraseIdx k).Perm s.pending := dequeued_perm found
  have counts := (parts.map (·.context)).count_eq c
  unfold held at count ⊢
  show ((s.pending.eraseIdx k).map (·.context) ++ s.stack.flatMap frameContexts).count c+[op.context].count c+s.freed.count c = _
  rw [dequeued_issued,← count]
  simp only [List.map_cons,List.count_append,List.count_nil] at counts ⊢
  rw [List.count_cons] at counts
  rw [List.count_singleton]
  omega

theorem Accounted.popped {frame : Frame} {rest : List Frame} (accounted : Accounted s []) (stack : s.stack = frame :: rest) :
    Accounted {s with stack := rest} (frameContexts frame) := by
  intro c
  have count := accounted c
  unfold held at count ⊢
  rw [stack,List.flatMap_cons] at count
  simp only [List.count_append,List.count_nil] at count ⊢
  omega

theorem Closing.accounted (closing : Closing s index serial context t) (accounted : Accounted s context.toList) : Accounted t [] := by
  cases closing with
  | stale dead => exact accounted.released
  | called live ip port => exact accounted.called

theorem Receiving.accounted (receiving : Receiving sys s index serial context t)
    (accepts : (s.peers index).socket ≠ invalidSocket → sys.accepts = true) (accounted : Accounted s context.toList) :
    Accounted t [] := by
  cases receiving with
  | stale dead => exact accounted.released
  | posted live b => exact (Accounted.outstanding (Accounted.setPeer accounted)).released
  | refused no live b ip port => exact absurd (accepts live.2) (by rw [no]; exact Bool.false_ne_true)

-- processWrite has bytes left to send.
def Left (p : Peer) (size : UInt32) : Prop :=
  ∃ b c n d, Merged size p b c ∧ SockBuf.readableBytes b = .ok n d ∧ n > 0

theorem Writing.accounted {k : Nat} (writing : Writing sys s index size k t) (accepts : Left (s.peers index) size → sys.accepts = true)
    (accounted : Accounted s [k]) : Accounted t [] := by
  cases writing with
  | done merged count nothing => exact Accounted.released (show Accounted _ (some k).toList from accounted)
  | posted merged count something =>
    apply Accounted.released
    exact Accounted.outstanding (Accounted.setPeer accounted)
  | refused no merged count something ip port =>
    exact absurd (accepts ⟨_,_,_,_,merged,count,something⟩) (by rw [no]; exact Bool.false_ne_true)

theorem Completing.accounted {op : Operation} (completing : Completing sys s op size t)
    (accepts : (∀ b, op.request ≠ .recv b) → Left (s.peers op.index) size → sys.accepts = true)
    (valid : (s.peers op.index).socket ≠ invalidSocket) (accounted : Accounted s [op.context]) : Accounted t [] := by
  cases completing with
  | ignored shut => exact absurd shut valid
  | ended valid read zero b ip port => exact Accounted.called (Accounted.setPeer accounted)
  | read valid read some_bytes b => exact Accounted.called (Accounted.setPeer accounted)
  | wrote valid write writing => exact writing.accounted (accepts write) accounted

-- The event gets as far as WSARecv or WSASend.
inductive Posts (s : IocpService) : IocpEvent → Prop where
  | onCon {i : Nat} {m : UInt64} {rest : List Frame} (stack : s.stack = .onCon i m :: rest)
      (valid : (s.peers i).socket ≠ invalidSocket) (ret : Int) : Posts s (.resume ret)
  | onRead {i c : Nat} {m : UInt64} {rest : List Frame} {ret : Int} (stack : s.stack = .onRead i m c :: rest)
      (valid : (s.peers i).socket ≠ invalidSocket) (nonneg : ¬ ret < 0) : Posts s (.resume ret)
  | write {k : Nat} {op : Operation} {size : UInt32} (found : s.pending[k]? = some op) (write : ∀ b, op.request ≠ .recv b)
      (valid : (s.peers op.index).socket ≠ invalidSocket) (left : Left (s.peers op.index) size) (stored : List UInt8) :
      Posts s (.eventTick (.success k size stored))

-- WSARecv and WSASend accept what they are given, and the slot of a completion is open.
structure Clean (s : IocpService) (input : IocpInput) : Prop where
  accepts : Posts s input.event → input.sys.accepts = true
  open_slot : ∀ k size stored op, input.event = .eventTick (.success k size stored) → s.pending[k]? = some op →
    (s.peers op.index).socket ≠ invalidSocket

theorem Registered.accounted {c : Connection} (registered : Registered s c t) (accounted : Accounted s []) : Accounted t [] := by
  cases registered with
  | given index bound free =>
    have kept : Accounted {s.setPeer index (s.joined index c) with serial := s.serial+1} [] := accounted
    exact kept.called

theorem Sending.accounted {buf : List UInt8} (sending : Sending s index serial buf t) (accounted : Accounted s []) :
    Accounted t [] := by
  cases sending with
  | stale dead => exact accounted
  | queued live busy b appended => exact accounted.setPeer
  | kicked live idle b appended => exact Accounted.outstanding (Accounted.setPeer accounted)

theorem step_accounted {input : IocpInput} (accounted : Accounted s []) (clean : Clean s input) (step : IocpStep s input t) :
    Accounted t [] := by
  obtain ⟨event,sys⟩ := input
  obtain ⟨accepts,open_slot⟩ := clean
  cases step_effect step with
  | refused | outside | unasked | quiet | timeout | unknown | missing => exact accounted
  | connected _ registered | accepted registered => exact registered.accounted accounted
  | listening => exact accounted
  | sent sending => exact sending.accounted accounted
  | closing closing => exact closing.accounted accounted
  | consumed stack b len => exact accounted.setPeer
  | @onConDone after ret _ _ _ stack receiving =>
    exact receiving.accounted (fun valid => accepts (.onCon stack valid ret)) (accounted.popped stack)
  | onReadDone stack nonneg receiving =>
    exact receiving.accounted (fun valid => accepts (.onRead stack valid nonneg)) (accounted.popped stack)
  | onDisConDone stack ret => exact Accounted.released (Accounted.setPeer (accounted.popped stack))
  | onReadRefused stack negative closing => exact closing.accounted (accounted.popped stack)
  | deleted found closing => exact closing.accounted (accounted.dequeued found)
  | completed found completing =>
    have valid := open_slot _ _ _ _ rfl found
    exact completing.accounted (fun write left => accepts (.write found write valid left _)) valid (accounted.dequeued found)

-- The contexts that newIOCxt has given and deleteIOCxt has not got.
def liveContexts (s : IocpService) : List Nat := (List.range s.issued).filter fun c => c ∉ s.freed

theorem Accounted.live (accounted : Accounted s []) : s.freed.Nodup ∧ s.liveContexts.Perm s.held := by
  have once (c : Nat) : s.held.count c+s.freed.count c = if c < s.issued then 1 else 0 := accounted c
  have limit (c : Nat) : s.held.count c+s.freed.count c ≤ 1 := by
    rw [once c]
    split
    · exact Nat.le_refl _
    · exact Nat.zero_le _
  have freed : s.freed.Nodup := List.nodup_iff_count.mpr fun c => Nat.le_trans (Nat.le_add_left _ _) (limit c)
  have held : s.held.Nodup := List.nodup_iff_count.mpr fun c => Nat.le_trans (Nat.le_add_right _ _) (limit c)
  refine ⟨freed,(List.perm_ext_iff_of_nodup (List.nodup_range.filter _) held).mpr fun c => ?_⟩
  rw [List.mem_filter,List.mem_range,decide_eq_true_eq,← List.count_pos_iff,← List.count_pos_iff]
  have count := once c
  split at count <;> omega

-- In every run whose events are clean each context is deleted once, when its operation
-- has been dealt with: the live ones are those of the operations outstanding and of the
-- completions whose callback has not returned.
theorem contexts_accounted (path : Path IocpStep new taken last) (clean : ∀ t ∈ taken, Clean t.before t.event) :
    last.freed.Nodup ∧ last.liveContexts.Perm last.held ∧
    (last.stack = [] → last.liveContexts.length = last.pending.length) := by
  have start : Accounted new [] := fun c => (if_neg (Nat.not_lt_zero c)).symm
  have accounted := path.guarded (Accounted · []) Clean start clean fun _ _ _ accounted clean step =>
    step_accounted accounted clean step
  obtain ⟨freed,live⟩ := accounted.live
  refine ⟨freed,live,fun idle => ?_⟩
  rw [live.length_eq]
  unfold held
  rw [idle,List.flatMap_nil,List.append_nil,List.length_map]

-- A connection waits for data; its WSARecv ends with the stream and onDisCon returns.
def waiting : IocpService := (new.after visit).after back
def hangUp : IocpInput := ⟨.eventTick (.success 0 0 []),⟨true,0⟩⟩

theorem waiting_path : Path IocpStep new [⟨new,visit,new.after visit⟩,⟨new.after visit,back,waiting⟩] waiting := by
  have first : IocpStep new visit (new.after visit) := .returns trivial rfl
  have second : IocpStep (new.after visit) back waiting := .returns trivial rfl
  exact .step (.step .nil first) second

-- A byte arrives and onRead returns: the context of the WSARecv is deleted, and the next
-- WSARecv has one of its own.
def arrives : IocpInput := ⟨.eventTick (.success 0 1 [7]),⟨true,0⟩⟩

theorem contexts_accounted_waiting : ((waiting.after arrives).after back).freed = [0] ∧
    ((waiting.after arrives).after back).liveContexts.length = 1 := by
  have third : IocpStep waiting arrives (waiting.after arrives) := .returns ⟨rfl,_,rfl,rfl,by decide⟩ rfl
  have fourth : IocpStep (waiting.after arrives) back ((waiting.after arrives).after back) := .returns trivial rfl
  refine ⟨rfl,((contexts_accounted ((waiting_path.step third).step fourth) ?_).2.2 rfl).trans rfl⟩
  have open_slot : (waiting.peers 0).socket ≠ invalidSocket := by decide
  have none := List.forall_mem_nil fun t : Transition IocpService IocpInput => Clean t.before t.event
  simp only [List.forall_mem_append,List.forall_mem_cons]
  refine ⟨⟨⟨⟨fun _ => rfl,nofun⟩,⟨fun _ => rfl,nofun⟩,none⟩,⟨fun _ => rfl,?_⟩,none⟩,⟨fun _ => rfl,nofun⟩,none⟩
  rintro k size stored op ⟨⟩ found
  cases found
  exact open_slot

-- The application closes the peer first: the completion finds the slot closed and its
-- context is never deleted.
theorem contexts_lost : ∃ taken last, Path IocpStep new taken last ∧ last.stack = [] ∧ last.pending = [] ∧
    last.liveContexts = [0] ∧ last.liveContexts.length ≠ last.pending.length := by
  have first : IocpStep waiting leave (waiting.after leave) := .returns trivial rfl
  have second : IocpStep (waiting.after leave) back ((waiting.after leave).after back) := .returns trivial rfl
  have third : IocpStep ((waiting.after leave).after back) hangUp (((waiting.after leave).after back).after hangUp) :=
    .returns ⟨rfl,_,rfl,rfl,by decide⟩ rfl
  exact ⟨_,_,.step (.step (.step waiting_path first) second) third,rfl,rfl,by decide,by decide⟩

end PcNetwork.Libnet.IocpService
