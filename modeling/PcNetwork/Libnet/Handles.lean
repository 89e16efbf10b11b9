import PcNetwork.Libnet.IocpEffects

namespace PcNetwork.Libnet.IocpService
variable {s t u : IocpService} {index i : Nat} {serial : UInt64} {context : Option Nat} {size : UInt32} {sys : System}

-- The handles that onCon has reported, in order.
def handle : Callback → Option (Nat × UInt64)
  | .onCon index serial _ _ => some (index,serial)
  | .onDisCon _ _ _ _ | .onRead _ _ => none

def reported (s : IocpService) : List (Nat × UInt64) := s.callbacks.filterMap handle

-- No slot was given away and none was freed.
structure SameSlots (s t : IocpService) : Prop where
  socket : ∀ i, (t.peers i).socket = (s.peers i).socket
  serials : ∀ i, (t.peers i).serial = (s.peers i).serial
  serial : t.serial = s.serial
  reported : t.reported = s.reported

theorem SameSlots.refl (s : IocpService) : SameSlots s s := ⟨fun _ => rfl,fun _ => rfl,rfl,rfl⟩

theorem SameSlots.trans (first : SameSlots s t) (second : SameSlots t u) : SameSlots s u :=
  ⟨fun i => (second.socket i).trans (first.socket i),fun i => (second.serials i).trans (first.serials i),
    second.serial.trans first.serial,second.reported.trans first.reported⟩

theorem SameSlots.live (same : SameSlots s t) : Live t i serial ↔ Live s i serial := by
  unfold Live
  rw [same.socket,same.serials]

theorem SameSlots.setPeer {p : Peer} (same : SameSlots s t) (socket : p.socket = (t.peers index).socket)
    (serial : p.serial = (t.peers index).serial) : SameSlots s (t.setPeer index p) := by
  refine same.trans ⟨fun i => ?_,fun i => ?_,rfl,rfl⟩
  · by_cases equal : i = index
    · subst equal
      rw [setPeer_at]
      exact socket
    · rw [setPeer_off t p equal]
  · by_cases equal : i = index
    · subst equal
      rw [setPeer_at]
      exact serial
    · rw [setPeer_off t p equal]

theorem SameSlots.released (same : SameSlots s t) (context : Option Nat) : SameSlots s (t.released context) := by
  cases context <;> exact same.trans ⟨fun _ => rfl,fun _ => rfl,rfl,rfl⟩

theorem SameSlots.called {c : Callback} (same : SameSlots s t) (other : handle c = none) (frame : Frame) :
    SameSlots s (t.called c frame) := by
  refine same.trans ⟨fun _ => rfl,fun _ => rfl,rfl,?_⟩
  unfold IocpService.reported
  rw [called_callbacks,List.filterMap_append,List.filterMap_cons_none other,List.filterMap_nil,List.append_nil]

theorem SameSlots.outstanding (same : SameSlots s t) (request : Request) : SameSlots s (t.outstanding index serial request) :=
  same.trans ⟨fun _ => rfl,fun _ => rfl,rfl,rfl⟩

theorem SameSlots.leaked (same : SameSlots s t) : SameSlots s t.leaked := same.trans ⟨fun _ => rfl,fun _ => rfl,rfl,rfl⟩

theorem popped_same_slots (s : IocpService) (rest : List Frame) : SameSlots s {s with stack := rest} :=
  ⟨fun _ => rfl,fun _ => rfl,rfl,rfl⟩

theorem dequeued_same_slots (s : IocpService) (k : Nat) : SameSlots s (s.dequeued k) := ⟨fun _ => rfl,fun _ => rfl,rfl,rfl⟩

theorem Closing.same_slots (closing : Closing s index serial context t) : SameSlots s t := by
  cases closing with
  | stale dead => exact (SameSlots.refl s).released context
  | called live ip port => exact (SameSlots.refl s).called rfl _

theorem Receiving.same_slots (receiving : Receiving sys s index serial context t) : SameSlots s t := by
  cases receiving with
  | stale dead => exact (SameSlots.refl s).released context
  | posted live b =>
    apply SameSlots.released
    apply SameSlots.outstanding
    exact (SameSlots.refl s).setPeer rfl rfl
  | refused no live b ip port =>
    refine SameSlots.called ?_ rfl _
    apply SameSlots.leaked
    exact (SameSlots.refl s).setPeer rfl rfl

theorem Sending.same_slots {buf : List UInt8} (sending : Sending s index serial buf t) : SameSlots s t := by
  cases sending with
  | stale dead => exact .refl s
  | queued live busy b appended => exact (SameSlots.refl s).setPeer rfl rfl
  | kicked live idle b appended =>
    apply SameSlots.outstanding
    exact (SameSlots.refl s).setPeer rfl rfl

theorem Writing.same_slots {k : Nat} (writing : Writing sys s index size k t) : SameSlots s t := by
  cases writing with
  | done merged count nothing =>
    apply SameSlots.released
    exact (SameSlots.refl s).setPeer rfl rfl
  | posted merged count something =>
    apply SameSlots.released
    apply SameSlots.outstanding
    exact (SameSlots.refl s).setPeer rfl rfl
  | refused no merged count something ip port =>
    refine SameSlots.called ?_ rfl _
    apply SameSlots.leaked
    exact (SameSlots.refl s).setPeer rfl rfl

theorem Completing.same_slots {op : Operation} (completing : Completing sys s op size t) : SameSlots s t := by
  cases completing with
  | ignored shut => exact .refl s
  | ended valid read zero b ip port =>
    refine SameSlots.called ?_ rfl _
    exact (SameSlots.refl s).setPeer rfl rfl
  | read valid read some_bytes b =>
    refine SameSlots.called ?_ rfl _
    exact (SameSlots.refl s).setPeer rfl rfl
  | wrote valid write writing => exact writing.same_slots

-- What an event does to the slots.
inductive Slots (s t : IocpService) : Prop where
  | same (same : SameSlots s t)
  | opened (index : Nat) (bound : index < maxPeerNum) (free : (s.peers index).socket = invalidSocket)
      (given : (t.peers index).serial = s.serial) (others : ∀ i, i ≠ index → t.peers i = s.peers i)
      (serial : t.serial = s.serial+1) (reported : t.reported = s.reported ++ [(index,s.serial)])
  | shut (index : Nat) (socket : (t.peers index).socket = invalidSocket) (others : ∀ i, i ≠ index → t.peers i = s.peers i)
      (serial : t.serial = s.serial) (reported : t.reported = s.reported)

theorem Registered.slots {c : Connection} (registered : Registered s c t) : Slots s t := by
  cases registered with
  | given index bound free =>
    refine .opened index bound free ?_ (fun i apart => ?_) rfl ?_
    · rw [called_peers]
      exact congrArg Peer.serial (setPeer_at s index _)
    · exact setPeer_off s _ apart
    · unfold IocpService.reported
      rw [called_callbacks,List.filterMap_append]
      rfl

theorem Effect.slots (effect : Effect sys s event t) : Slots s t := by
  cases effect with
  | refused | outside | unasked | quiet | timeout | unknown | missing => exact .same (.refl s)
  | connected _ registered | accepted registered => exact registered.slots
  | listening => exact .same ⟨fun _ => rfl,fun _ => rfl,rfl,rfl⟩
  | sent sending => exact .same sending.same_slots
  | closing closing => exact .same closing.same_slots
  | consumed stack b len => exact .same ((SameSlots.refl s).setPeer rfl rfl)
  | onConDone stack receiving | onReadDone stack nonneg receiving =>
    exact .same ((popped_same_slots s _).trans receiving.same_slots)
  | @onDisConDone slot mark k rest stack ret =>
    refine .shut slot ?_ (fun i apart => ?_) ?_ ?_
    · rw [released_peers,setPeer_at]
    · rw [released_peers,setPeer_off _ _ apart]
    · rw [released_serial,setPeer_serial]
    · unfold IocpService.reported
      rw [released_callbacks,setPeer_callbacks]
  | onReadRefused stack negative closing => exact .same ((popped_same_slots s _).trans closing.same_slots)
  | deleted found closing => exact .same ((dequeued_same_slots s _).trans closing.same_slots)
  | completed found completing => exact .same ((dequeued_same_slots s _).trans completing.same_slots)

-- The serials count the connections, and an open slot holds one of them.
structure Handles (s : IocpService) : Prop where
  counted : s.serial = UInt64.ofNat s.reported.length
  numbered : ∀ k h, s.reported[k]? = some h → h.2 = UInt64.ofNat k
  inside : ∀ h ∈ s.reported, h.1 < maxPeerNum
  known : ∀ i, (s.peers i).socket ≠ invalidSocket → (i,(s.peers i).serial) ∈ s.reported

theorem Slots.handles (slots : Slots s t) (handles : Handles s) : Handles t := by
  obtain ⟨counted,numbered,inside,known⟩ := handles
  cases slots with
  | same same =>
    refine ⟨?_,?_,?_,fun i valid => ?_⟩
    · rw [same.serial,same.reported]
      exact counted
    · rw [same.reported]
      exact numbered
    · rw [same.reported]
      exact inside
    · rw [same.reported,same.serials]
      exact known i (same.socket i ▸ valid)
  | opened index bound free given others serial reported =>
    refine ⟨?_,fun k h found => ?_,fun h member => ?_,fun i valid => ?_⟩
    · rw [serial,reported,counted,List.length_append]
      exact (UInt64.ofNat_add _ _).symm
    · rw [reported] at found
      by_cases old : k < s.reported.length
      · rw [List.getElem?_append_left old] at found
        exact numbered k h found
      · rw [List.getElem?_append_right (Nat.not_lt.mp old)] at found
        have last : k-s.reported.length = 0 := by
          rcases Nat.eq_zero_or_pos (k-s.reported.length) with zero | pos
          · exact zero
          · rw [List.getElem?_eq_none pos] at found
            cases found
        rw [last] at found
        cases found
        rw [show k = s.reported.length by omega]
        exact counted
    · rw [reported] at member
      rcases List.mem_append.mp member with old | new
      · exact inside h old
      · cases List.mem_singleton.mp new
        exact bound
    · rw [reported]
      by_cases same : i = index
      · subst same
        rw [given]
        exact List.mem_append_right _ (List.mem_singleton.mpr rfl)
      · rw [others i same] at valid ⊢
        exact List.mem_append_left _ (known i valid)
  | shut index socket others serial reported =>
    refine ⟨?_,?_,?_,fun i valid => ?_⟩
    · rw [serial,reported]
      exact counted
    · rw [reported]
      exact numbered
    · rw [reported]
      exact inside
    · rw [reported]
      by_cases same : i = index
      · subst same
        exact absurd socket valid
      · rw [others i same] at valid ⊢
        exact known i valid

theorem new_handles : Handles new := ⟨rfl,nofun,nofun,fun _ valid => absurd rfl valid⟩

-- The handles reported stay reported.
theorem Slots.grows (slots : Slots s t) : ∃ more, t.reported = s.reported ++ more := by
  cases slots with
  | same same => exact ⟨[],by rw [same.reported,List.append_nil]⟩
  | opened index bound free given others serial reported => exact ⟨_,reported⟩
  | shut index socket others serial reported => exact ⟨[],by rw [reported,List.append_nil]⟩

-- A handle that is out of use stays so: its serial is not given again.
theorem Slots.dead (slots : Slots s t) (handles : Handles s) (member : (i,serial) ∈ s.reported) (closed : ¬ Live s i serial)
    (few : t.reported.length < 2^64) : ¬ Live t i serial := by
  cases slots with
  | same same => exact fun live => closed (same.live.mp live)
  | opened index bound free given others counter reported =>
    rintro ⟨mark,valid⟩
    by_cases same : i = index
    · subst same
      rw [given] at mark
      obtain ⟨k,inside,at_k⟩ := List.getElem_of_mem member
      have number := handles.numbered k _ (List.getElem?_eq_some_iff.mpr ⟨inside,at_k⟩)
      rw [reported,List.length_append] at few
      have equal : UInt64.ofNat s.reported.length = UInt64.ofNat k := by rw [← handles.counted,mark]; exact number
      have naturals := congrArg UInt64.toNat equal
      have size : UInt64.size = 2^64 := rfl
      rw [UInt64.toNat_ofNat_of_lt' (by omega),UInt64.toNat_ofNat_of_lt' (by omega)] at naturals
      omega
    · rw [others i same] at mark valid
      exact closed ⟨mark,valid⟩
  | shut index socket others counter reported =>
    rintro ⟨mark,valid⟩
    by_cases same : i = index
    · subst same
      exact valid socket
    · rw [others i same] at mark valid
      exact closed ⟨mark,valid⟩

theorem step_slots {input : IocpInput} (step : IocpStep s input t) : Slots s t := (step_effect step).slots

theorem Handles.of_path (path : Path IocpStep s taken t) (start : Handles s) : Handles t :=
  path.invariant Handles start fun _ _ _ handles step => (step_slots step).handles handles

theorem Handles.nodup (handles : Handles s) (few : s.reported.length < 2^64) : s.reported.Nodup := by
  have size : UInt64.size = 2^64 := rfl
  unfold List.Nodup
  rw [List.pairwise_iff_getElem]
  intro j k inside_j inside_k less same
  have number_j := handles.numbered j _ (List.getElem?_eq_some_iff.mpr ⟨inside_j,rfl⟩)
  have number_k := handles.numbered k _ (List.getElem?_eq_some_iff.mpr ⟨inside_k,rfl⟩)
  rw [same,number_k] at number_j
  have naturals := congrArg UInt64.toNat number_j
  rw [UInt64.toNat_ofNat_of_lt' (by omega),UInt64.toNat_ofNat_of_lt' (by omega)] at naturals
  omega

theorem dead_later (path : Path IocpStep s taken t) (handles : Handles s) (member : (i,serial) ∈ s.reported)
    (closed : ¬ Live s i serial) : (i,serial) ∈ t.reported ∧ (t.reported.length < 2^64 → ¬ Live t i serial) := by
  induction path with
  | nil => exact ⟨member,fun _ => closed⟩
  | step prior step ih =>
    obtain ⟨member,dead⟩ := ih
    have slots := step_slots step
    obtain ⟨more,grown⟩ := slots.grows
    refine ⟨grown ▸ List.mem_append_left _ member,fun few => ?_⟩
    have longer := congrArg List.length grown
    rw [List.length_append] at longer
    exact slots.dead (handles.of_path prior) member (dead (by omega)) few

theorem send_dead {sys : System} {buf : Bytes} (bound : i < maxPeerNum) (dead : ¬ Live s i serial) :
    run ⟨.send i serial buf,sys⟩ s = .ok () s := by
  show send sys i serial buf.bytes s = .ok () s
  unfold send
  rw [bind_ok (getPeer_ok bound s),if_pos ((not_live s i serial).mpr dead)]
  rfl

theorem closePeer_dead {sys : System} (bound : i < maxPeerNum) (dead : ¬ Live s i serial) :
    run ⟨.closePeer i serial,sys⟩ s = .ok () s := by
  show closePeer i serial none s = .ok () s
  unfold closePeer
  rw [bind_ok (getPeer_ok bound s),if_pos ((not_live s i serial).mpr dead)]
  rfl

-- No handle is given twice in a run, and one whose connection has been closed does nothing
-- any more, however long the run goes on and whoever has its slot.
theorem stale_handles (path : Path IocpStep new taken s) :
    (s.reported.length < 2^64 → s.reported.Nodup) ∧
    ∀ i serial more t, (i,serial) ∈ s.reported → ¬ Live s i serial → Path IocpStep s more t → t.reported.length < 2^64 →
      (∀ buf sys, run ⟨.send i serial buf,sys⟩ t = .ok () t) ∧ ∀ sys, run ⟨.closePeer i serial,sys⟩ t = .ok () t := by
  have handles : Handles s := new_handles.of_path path
  refine ⟨handles.nodup,fun i serial more t member closed later few => ?_⟩
  obtain ⟨kept,dead⟩ := dead_later later handles member closed
  have bound := (handles.of_path later).inside _ kept
  exact ⟨fun _ _ => send_dead bound (dead few),fun _ => closePeer_dead bound (dead few)⟩

def visit : IocpInput := ⟨.connectPeer (.ok ⟨5,"127.0.0.1",80⟩),⟨true,0⟩⟩
def back : IocpInput := ⟨.resume 0,⟨true,0⟩⟩
def leave : IocpInput := ⟨.closePeer 0 0,⟨true,0⟩⟩

-- The state that an event leads to.
def after (s : IocpService) (input : IocpInput) : IocpService := final (run input s)

-- Slot 0 is taken, freed by the application and taken again.
def freed_slot : IocpService := (((new.after visit).after back).after leave).after back

theorem freed_slot_path : ∃ taken, Path IocpStep new taken freed_slot := by
  have first : IocpStep new visit (new.after visit) := .returns trivial rfl
  have second : IocpStep (new.after visit) back ((new.after visit).after back) := .returns trivial rfl
  have third : IocpStep ((new.after visit).after back) leave (((new.after visit).after back).after leave) := .returns trivial rfl
  have fourth : IocpStep (((new.after visit).after back).after leave) back freed_slot := .returns trivial rfl
  exact ⟨_,.step (.step (.step (.step .nil first) second) third) fourth⟩

theorem stale_handles_visit : ∃ t, t.reported = [(0,0),(0,1)] ∧ t.reported.Nodup ∧ ∀ buf sys, run ⟨.send 0 0 buf,sys⟩ t = .ok () t := by
  obtain ⟨taken,path⟩ := freed_slot_path
  have again : IocpStep freed_slot visit (freed_slot.after visit) := .returns trivial rfl
  have member : ((0 : Nat),(0 : UInt64)) ∈ freed_slot.reported := List.mem_cons_self
  have closed : ¬ Live freed_slot 0 0 := fun live => live.2 rfl
  exact ⟨_,rfl,(stale_handles (path.step again)).1 (by decide),
    ((stale_handles path).2 0 0 _ _ member closed (.step .nil again) (by decide)).1⟩

end PcNetwork.Libnet.IocpService
