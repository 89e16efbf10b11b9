import PcNetwork.NetSelect.MachineEffects

namespace PcNetwork.NetSelect.Machine
open SelectService (Outside Connection ListenAnswer Fresh Possible SelectEvent SelectInput SelectStep getPeer onReadBuf onWriteBuf sockRead
  sockWrite initSets)
variable {m : Machine} {s t u : SelectService} {stack mid after : List Frame} {index : Nat} {serial : UInt64}

-- What a function does not change that registers no socket.
structure Kept (s t : SelectService) : Prop where
  serials : ∀ i, (t.peers i).serial = (s.peers i).serial
  fewer : t.onlinePeerSet.length ≤ s.onlinePeerSet.length
  scripts : t.scripts <:+ s.scripts

theorem Kept.refl (s : SelectService) : Kept s s := ⟨fun _ => rfl,Nat.le_refl _,List.suffix_refl _⟩

theorem Kept.trans (first : Kept s t) (second : Kept t u) : Kept s u :=
  ⟨fun i => (second.serials i).trans (first.serials i),second.fewer.trans first.fewer,second.scripts.trans first.scripts⟩

theorem Kept.setPeer (s : SelectService) {p : Peer} (same : p.serial = (s.peers index).serial) : Kept s (s.setPeer index p) := by
  refine ⟨fun i => ?_,Nat.le_refl _,List.suffix_refl _⟩
  by_cases equal : i = index
  · subst equal
    simpa [setPeer_at] using same
  · simp [setPeer_off s p equal]

-- A function that calls nothing of the application does not look at the scripts either.
def Plain (f : Select α) : Prop := ∀ s a t, f s = .ok a t → f (s.scripted []) = .ok a (t.scripted []) ∧ Kept s t

theorem Plain.pure (a : α) : Plain (pure a) := by
  intro s b t ran
  cases ran
  exact ⟨rfl,.refl _⟩

theorem Plain.throw (e : Fault) : Plain (throw e : Select α) := nofun

theorem Plain.bind {f : Select α} {g : α → Select β} (first : Plain f) (next : ∀ a, Plain (g a)) : Plain (f >>= g) := by
  intro s b u ran
  obtain ⟨a,t,ran,rest⟩ := bind_returned ran
  obtain ⟨same,kept⟩ := first s a t ran
  obtain ⟨later,still⟩ := next a t b u rest
  exact ⟨(bind_ok same _).trans later,kept.trans still⟩

theorem Plain.modify {f : SelectService → SelectService} (blind : ∀ s, f (s.scripted []) = (f s).scripted [])
    (kept : ∀ s, Kept s (f s)) : Plain (modify f) := by
  intro s _ t ran
  cases ran
  exact ⟨congrArg (EStateM.Result.ok ()) (blind s),kept s⟩

theorem getPeer_plain (index : Nat) : Plain (getPeer index) := by
  intro s p t ran
  obtain ⟨bound,rfl,rfl⟩ := getPeer_got ran
  exact ⟨SelectService.getPeer_inside (Nat.not_le.mpr bound),.refl _⟩

theorem onReadBuf_plain (index : Nat) (f : Throwing SockBuf α) : Plain (onReadBuf index f) := by
  intro s a t ran
  unfold onReadBuf at ran
  split at ran
  · rename_i b inner
    cases ran
    refine ⟨?_,.setPeer s rfl⟩
    unfold onReadBuf
    have same : f ((s.scripted []).peers index).readBuf = .ok a b := inner
    rw [same]
    rfl
  · cases ran

theorem onWriteBuf_plain (index : Nat) (f : Throwing SockBuf α) : Plain (onWriteBuf index f) := by
  intro s a t ran
  unfold onWriteBuf at ran
  split at ran
  · rename_i b inner
    cases ran
    refine ⟨?_,.setPeer s rfl⟩
    unfold onWriteBuf
    have same : f ((s.scripted []).peers index).writeBuf = .ok a b := inner
    rw [same]
    rfl
  · cases ran

theorem send_plain (index : Nat) (serial : UInt64) (buf : List UInt8) : Plain (SelectService.send index serial buf) := by
  refine (getPeer_plain index).bind fun p => ?_
  split
  · exact .pure _
  · refine (onWriteBuf_plain index _).bind fun _ => .modify (fun _ => rfl) fun s => ?_
    exact ⟨fun _ => rfl,Nat.le_refl _,List.suffix_refl _⟩

theorem listen_plain (a : ListenAnswer) : Plain (SelectService.listen a) := by
  refine .bind (.modify (fun _ => rfl) fun s => ⟨fun _ => rfl,Nat.le_refl _,List.suffix_refl _⟩) fun _ => ?_
  split
  · exact .throw _
  split
  · exact .throw _
  split
  · exact .throw _
  split
  · exact .throw _
  · exact .pure _

theorem sockRead_plain (index : Nat) (answer : Option (List UInt8)) : Plain (sockRead index answer) := by
  refine (onReadBuf_plain index _).bind fun _ => (onReadBuf_plain index _).bind fun room => ?_
  split
  · exact .pure _
  · exact .pure _
  · exact (onReadBuf_plain index _).bind fun _ => (onReadBuf_plain index _).bind fun _ => .pure _

theorem sockWrite_plain (index : Nat) (answer : Option Nat) : Plain (sockWrite index answer) := by
  refine (onWriteBuf_plain index _).bind fun readable => ?_
  split
  · split
    · exact .pure _
    · exact (onWriteBuf_plain index _).bind fun _ => .pure _
  · exact .pure _

-- The machine with this service, and this stack to return to. What it has counted for
-- the connections is left open.
structure At (s : SelectService) (stack : List Frame) (m : Machine) : Prop where
  service : m.service = s.scripted []
  stack : m.stack = stack

-- A part of a step, and some steps, lead from one to the other.
def Goes (p : Moves α) (s : SelectService) (stack : List Frame) (a : α) (t : SelectService) (after : List Frame) : Prop :=
  ∀ m, At s stack m → ∃ n, p m = .ok a n ∧ At t after n

def Reaches (s : SelectService) (stack : List Frame) (t : SelectService) (after : List Frame) : Prop :=
  ∀ m, At s stack m → ∃ taken last, Path MachineStep m taken last ∧ At t after last

theorem Goes.pure (a : α) : Goes (pure a) s stack a s stack := fun m at_m => ⟨m,rfl,at_m⟩

theorem Goes.bind {p : Moves α} {f : α → Moves β} (first : Goes p s stack a t mid) (next : Goes (f a) t mid b u after) :
    Goes (p >>= f) s stack b u after := by
  intro m at_m
  obtain ⟨n,ran,at_n⟩ := first m at_m
  obtain ⟨last,rest,at_last⟩ := next n at_n
  exact ⟨last,(bind_ok ran f).trans rest,at_last⟩

-- `get` gives the machine itself.
theorem Goes.get {f : Machine → Moves α} (next : ∀ m, At s stack m → Goes (f m) s stack a t after) :
    Goes (get >>= f) s stack a t after := fun m at_m => next m at_m m at_m

theorem Goes.call {f : Select α} (ran : f (s.scripted []) = .ok a (t.scripted [])) : Goes (call f) s stack a t stack := by
  intro m at_m
  refine ⟨m.on (t.scripted []),?_,rfl,at_m.stack⟩
  unfold Machine.call
  rw [at_m.service,ran]
  rfl

theorem Goes.assign {f : SelectService → SelectService} (blind : f (s.scripted []) = (f s).scripted []) :
    Goes (Machine.call (modify f)) s stack () (f s) stack :=
  .call (congrArg (EStateM.Result.ok ()) blind)

theorem Goes.modify {f : Machine → Machine} (leads : ∀ m, At s stack m → At t after (f m)) :
    Goes (modify f) s stack () t after := fun m at_m => ⟨f m,rfl,leads m at_m⟩

theorem Goes.callback (c : Callback) (frame : Frame) :
    Goes (callback c frame) s stack () {s with callbacks := s.callbacks ++ [c]} (frame :: stack) := by
  refine Goes.modify fun m at_m => ⟨?_,?_⟩
  · simp only [at_m.service]
    rfl
  · simp only [at_m.stack]

theorem Reaches.refl (s : SelectService) (stack : List Frame) : Reaches s stack s stack := fun m at_m => ⟨[],m,.nil,at_m⟩

theorem Reaches.step {event : MachineEvent} (first : Reaches s stack t mid) (genuine : ∀ m, At t mid m → Genuine m event)
    (goes : Goes (run event) t mid () u after) : Reaches s stack u after := by
  intro m at_m
  obtain ⟨taken,middle,path,at_middle⟩ := first m at_m
  obtain ⟨last,ran,at_last⟩ := goes middle at_middle
  exact ⟨_,last,path.step (.returns (genuine middle at_middle) ran),at_last⟩

theorem Reaches.trans (first : Reaches s stack t mid) (second : Reaches t mid u after) : Reaches s stack u after := by
  intro m at_m
  obtain ⟨taken,middle,path,at_middle⟩ := first m at_m
  obtain ⟨further,last,onward,at_last⟩ := second middle at_middle
  exact ⟨_,last,path.append onward,at_last⟩

-- A function of the machine stops where it calls the application; the steps to come do
-- the rest.
def Leads (p : Moves Unit) (s : SelectService) (stack : List Frame) (t : SelectService) : Prop :=
  ∃ u mid, Goes p s stack () u mid ∧ Reaches u mid t stack

theorem Goes.leads {p : Moves Unit} (goes : Goes p s stack () t stack) : Leads p s stack t := ⟨t,stack,goes,.refl _ _⟩

theorem Leads.bind {p : Moves α} {f : α → Moves Unit} (first : Goes p s stack a t stack) (next : Leads (f a) t stack u) :
    Leads (p >>= f) s stack u := by
  obtain ⟨v,mid,goes,reaches⟩ := next
  exact ⟨v,mid,first.bind goes,reaches⟩

-- A branch on the state of the machine.
theorem Leads.picked {c : Machine → Prop} [DecidablePred c] {p q : Moves Unit} (yes : ∀ m, At s stack m → c m)
    (leads : Leads p s stack t) : Leads (get >>= fun m => if c m then p else q) s stack t := by
  obtain ⟨u,mid,goes,rest⟩ := leads
  refine ⟨u,mid,Goes.get fun m at_m => ?_,rest⟩
  rw [if_pos (yes m at_m)]
  exact goes

theorem Leads.passed {c : Machine → Prop} [DecidablePred c] {p q : Moves Unit} (no : ∀ m, At s stack m → ¬ c m)
    (leads : Leads q s stack t) : Leads (get >>= fun m => if c m then p else q) s stack t := by
  obtain ⟨u,mid,goes,rest⟩ := leads
  refine ⟨u,mid,Goes.get fun m at_m => ?_,rest⟩
  rw [if_neg (no m at_m)]
  exact goes

theorem Leads.reaches {event : MachineEvent} (leads : Leads (run event) s stack t)
    (genuine : ∀ m, At s stack m → Genuine m event) : Reaches s stack t stack := by
  obtain ⟨u,mid,goes,rest⟩ := leads
  exact ((Reaches.refl _ _).step genuine goes).trans rest

-- The SockBuf that the application is given with a callback.
def buffer : Frame → Option Nat
  | .onRead index _ => some index
  | .onCon _ | .onDisCon _ | .loop _ _ => none

-- What follows when the callback returns.
def done (ret : Int) : Frame → Moves Unit
  | .onCon index => onConDone index ret
  | .onDisCon index => onDisConDone index
  | .onRead index o => onReadDone o index ret
  | .loop _ _ => pure ()

def Waits : Frame → Prop
  | .onCon _ | .onDisCon _ | .onRead _ _ => True
  | .loop _ _ => False

variable {frame : Frame}

theorem Waits.applies (waits : Waits frame) (at_m : At s (frame :: stack) m) : m.Applies := by
  intro o i rest equal
  rw [at_m.stack] at equal
  cases equal
  exact waits

theorem Leads.resumed (ret : Int) (waits : Waits frame) (leads : Leads (done ret frame) s stack t) :
    Reaches s (frame :: stack) t stack := by
  obtain ⟨u,mid,goes,rest⟩ := leads
  have popped : Goes (modify fun m => {m with stack}) s (frame :: stack) () s stack :=
    .modify fun m at_m => ⟨at_m.service,rfl⟩
  have resumes : Goes (run (.resume ret)) s (frame :: stack) () u mid := by
    refine Goes.get fun m at_m => ?_
    rw [at_m.stack]
    cases frame with
    | onCon | onDisCon | onRead => exact popped.bind goes
    | loop => exact waits.elim
  exact ((Reaches.refl _ _).step (fun m => waits.applies) resumes).trans rest

-- A callback and what follows it.
theorem Leads.callback (c : Callback) (waits : Waits frame)
    (calls : Reaches {s with callbacks := s.callbacks ++ [c]} (frame :: stack) t (frame :: stack)) (ret : Int)
    (rest : Leads (done ret frame) t stack u) : Leads (callback c frame) s stack u :=
  ⟨_,_,.callback c frame,calls.trans (rest.resumed ret waits)⟩

-- The blocks that the application passes on are such that it can have.
def Sized : Call → Prop
  | .send _ _ buf => buf.length < 2^31
  | .closePeer _ _ | .pop _ => True

def Fits (s : SelectService) : Prop := ∀ script ∈ s.scripts, ∀ call ∈ script.calls, Sized call

theorem Fits.kept (fits : Fits s) (kept : Kept s t) : Fits t := fun script member => fits script (kept.scripts.subset member)

-- With `depth` scripts or fewer to come, `close` does what closePeer and the steps after
-- it do.
def Closes (close : Nat → UInt64 → Select Unit) (depth : Nat) : Prop :=
  ∀ index serial s t, Fits s → s.scripts.length ≤ depth → close index serial s = .ok () t →
    Kept s t ∧ ∀ stack, Leads (closePeer index serial) s stack t

variable {close : Nat → UInt64 → Select Unit} {depth : Nat}

theorem send_leads {buf : List UInt8} (sized : buf.length < 2^31) (ran : SelectService.send index serial buf s = .ok () t) :
    Kept s t ∧ ∀ stack, Leads (run (.send index serial ⟨buf,sized⟩)) s stack t := by
  obtain ⟨same,kept⟩ := send_plain index serial buf s () t ran
  refine ⟨kept,fun stack => .bind (.modify fun m at_m => ?_) (Goes.call same).leads⟩
  split
  · exact ⟨at_m.service,at_m.stack⟩
  · exact at_m

theorem runCall_reaches (closes : Closes close depth) (fits : Fits s) (few : s.scripts.length ≤ depth) {call : Call}
    (sized : Sized call) (waits : Waits frame) (ran : SelectService.runCall close (buffer frame) call s = .ok () t) :
    Kept s t ∧ ∀ stack, Reaches s (frame :: stack) t (frame :: stack) := by
  cases call with
  | send index serial buf =>
    obtain ⟨kept,sends⟩ := send_leads sized ran
    exact ⟨kept,fun stack => (sends _).reaches fun m => waits.applies⟩
  | closePeer index serial =>
    obtain ⟨kept,leads⟩ := closes index serial s t fits few ran
    refine ⟨kept,fun stack => ?_⟩
    have closing : Leads (run (.closePeer index serial)) s (frame :: stack) t := leads _
    exact closing.reaches fun m => waits.applies
  | pop len =>
    have popped : Kept s t ∧ ∀ stack, Goes (run (.pop len)) s (frame :: stack) () t (frame :: stack) := by
      cases frame with
      | onRead index o =>
        obtain ⟨bytes,u,popped,rest⟩ := bind_returned ran
        cases rest
        obtain ⟨same,kept⟩ := onReadBuf_plain index _ s bytes t popped
        refine ⟨kept,fun stack => Goes.get fun m at_m => ?_⟩
        rw [at_m.stack]
        exact (Goes.call same).bind (.pure ())
      | onCon | onDisCon =>
        cases ran
        refine ⟨.refl _,fun stack => Goes.get fun m at_m => ?_⟩
        rw [at_m.stack]
        exact .pure ()
      | loop => exact waits.elim
    refine ⟨popped.1,fun stack => ?_⟩
    exact (popped.2 stack).leads.reaches fun m => waits.applies

theorem runCalls_reaches (closes : Closes close depth) {calls : List Call} (fits : Fits s) (few : s.scripts.length ≤ depth)
    (sized : ∀ call ∈ calls, Sized call) (waits : Waits frame)
    (ran : SelectService.runCalls close (buffer frame) calls s = .ok () t) :
    Kept s t ∧ ∀ stack, Reaches s (frame :: stack) t (frame :: stack) := by
  induction calls generalizing s with
  | nil =>
    cases ran
    exact ⟨.refl _,fun stack => .refl _ _⟩
  | cons call rest ih =>
    obtain ⟨_,u,first,later⟩ := bind_returned ran
    obtain ⟨kept,reaches⟩ := runCall_reaches closes fits few (sized call (by simp)) waits first
    have fewer : u.scripts.length ≤ depth := kept.scripts.length_le.trans few
    obtain ⟨still,onward⟩ := ih (fits.kept kept) fewer (fun c inside => sized c (by simp [inside])) later
    exact ⟨kept.trans still,fun stack => (reaches stack).trans (onward stack)⟩

-- A callback takes one script. Where none is left the application calls nothing.
theorem callback_reaches (closes : ∀ script rest, s.scripts = script :: rest → Closes close rest.length) (fits : Fits s)
    (c : Callback) (waits : Waits frame) (ran : SelectService.callback close (buffer frame) c s = .ok ret t) :
    Kept s t ∧ ∀ stack, Reaches {s with callbacks := s.callbacks ++ [c]} (frame :: stack) t (frame :: stack) := by
  obtain ⟨script,u,took,rest⟩ := bind_returned ran
  obtain ⟨_,v,calls,last⟩ := bind_returned rest
  cases last
  have taken : script = s.scripts.headD default ∧ u = {s with scripts := s.scripts.tail,callbacks := s.callbacks ++ [c]} := by
    cases took
    exact ⟨rfl,rfl⟩
  obtain ⟨rfl,rfl⟩ := taken
  have first : Kept s {s with scripts := s.scripts.tail,callbacks := s.callbacks ++ [c]} :=
    ⟨fun _ => rfl,Nat.le_refl _,List.tail_suffix _⟩
  cases coming : s.scripts with
  | nil =>
    rw [coming] at calls
    cases calls
    exact ⟨coming ▸ first,fun stack => .refl _ _⟩
  | cons script rest =>
    rw [coming] at calls first
    have sized := fits script (by simp [coming])
    obtain ⟨kept,reaches⟩ := runCalls_reaches (closes script rest coming) (fits.kept first) (Nat.le_refl _) sized waits calls
    exact ⟨first.trans kept,fun stack m at_m => reaches stack m ⟨at_m.service,at_m.stack⟩⟩

theorem getPeer_goes {p : Peer} (got : getPeer index s = .ok p t) :
    p = s.peers index ∧ s = t ∧ ∀ stack, Goes (call (getPeer index)) s stack (s.peers index) s stack := by
  obtain ⟨_,rfl,rfl⟩ := getPeer_got got
  exact ⟨rfl,rfl,fun stack => .call (getPeer_plain index t _ t got).1⟩

theorem Closes.fewer (closes : Closes close depth) {few : Nat} (le : few ≤ depth) : Closes close few :=
  fun index serial s t fits bound => closes index serial s t fits (bound.trans le)

-- The closePeer that the callbacks of a closePeer reach.
def inner : Nat → Nat → UInt64 → Select Unit
  | 0 => fun _ _ => pure ()
  | depth+1 => SelectService.closeTo depth

theorem Kept.shut (s : SelectService) (index : Nat) : Kept s {s.setPeer index {s.peers index with socket := invalidSocket} with
    onlinePeerSet := s.onlinePeerSet.erase index} := by
  have same : Kept s (s.setPeer index {s.peers index with socket := invalidSocket}) := .setPeer s rfl
  exact ⟨same.serials,List.length_erase_le,same.scripts⟩

theorem closeTo_leads (depth : Nat) (closes : ∀ script rest, s.scripts = script :: rest → Closes (inner depth) rest.length) (fits : Fits s)
    (ran : SelectService.closeTo depth index serial s = .ok () t) :
    Kept s t ∧ ∀ stack, Leads (closePeer index serial) s stack t := by
  unfold SelectService.closeTo at ran
  obtain ⟨p,u,got,rest⟩ := bind_returned ran
  clear ran
  obtain ⟨rfl,rfl,getting⟩ := getPeer_goes got
  split at rest
  · rename_i dead
    cases rest
    refine ⟨.refl _,fun stack => .bind (getting stack) ?_⟩
    rw [if_pos dead]
    exact (Goes.pure ()).leads
  · rename_i live
    obtain ⟨ret,v,called,last⟩ := bind_returned rest
    have waits : Waits (.onDisCon index) := trivial
    obtain ⟨kept,reaches⟩ := callback_reaches closes fits _ waits called
    have shut : Kept v t ∧ ∀ stack, Goes (onDisConDone index) v stack () t stack := by
      cases last
      have same := Kept.shut v index
      exact ⟨⟨same.serials,same.fewer,same.scripts⟩,fun stack => .call rfl⟩
    refine ⟨kept.trans shut.1,fun stack => .bind (getting stack) ?_⟩
    rw [if_neg live]
    exact .callback _ waits (reaches stack) ret (shut.2 stack).leads

theorem closeTo_closes (depth : Nat) : Closes (SelectService.closeTo depth) depth := by
  induction depth with
  | zero =>
    intro index serial s t fits none_left ran
    exact closeTo_leads 0 (fun script rest same => by simp [same] at none_left) fits ran
  | succ depth ih =>
    intro index serial s t fits few ran
    refine closeTo_leads (depth+1) (fun script rest same => ih.fewer ?_) fits ran
    simpa [same] using few

theorem closePeer_closes (depth : Nat) : Closes SelectService.closePeer depth := by
  intro index serial s t fits _ ran
  exact closeTo_closes s.scripts.length index serial s t fits (Nat.le_refl _) ran

theorem closePeer_leads (fits : Fits s) (ran : SelectService.closePeer index serial s = .ok () t) :
    Kept s t ∧ ∀ stack, Leads (closePeer index serial) s stack t :=
  closePeer_closes s.scripts.length index serial s t fits (Nat.le_refl _) ran

theorem getFreeIndex_goes {f : Select Nat} (start : f = modifyGet fun s => s.getFreeIndex) (gave : f s = .ok index t) :
    t.scripts = s.scripts ∧ ∀ stack, Goes (call f) s stack index t stack := by
  subst start
  have same : SelectService.freeIndex (s.scripted []).peers maxPeerNum 0 = SelectService.freeIndex s.peers maxPeerNum 0 := rfl
  have blind : (s.scripted []).getFreeIndex = (s.getFreeIndex.1,s.getFreeIndex.2.scripted []) ∧
      s.getFreeIndex.2.scripts = s.scripts := by
    unfold SelectService.getFreeIndex
    rw [same]
    cases SelectService.freeIndex s.peers maxPeerNum 0 with
    | none => exact ⟨rfl,rfl⟩
    | some index => exact ⟨rfl,rfl⟩
  have result : (EStateM.Result.ok s.getFreeIndex.1 s.getFreeIndex.2 : EStateM.Result Fault SelectService Nat) = .ok index t := gave
  injection result with first second
  subst first second
  refine ⟨blind.2,fun stack => .call ?_⟩
  show EStateM.Result.ok (s.scripted []).getFreeIndex.1 (s.scripted []).getFreeIndex.2 = _
  rw [blind.1]

theorem modify_goes {f : SelectService → SelectService} (ran : (modify f : Select Unit) s = .ok a t)
    (blind : f (s.scripted []) = (f s).scripted []) (same : (f s).scripts = s.scripts) :
    t.scripts = s.scripts ∧ ∀ stack, Goes (call (modify f)) s stack () t stack := by
  cases ran
  exact ⟨same,fun stack => .assign blind⟩

-- registerSocket after onCon.
theorem onConDone_leads {ret : Int} (fits : Fits s)
    (ran : (do
      let p ← getPeer index
      if ret < 0 then SelectService.closePeer index p.serial
      else modify fun s => {s with readBak := fdSet p.socket s.readBak} : Select Unit) s = .ok () t) :
    Fits t ∧ ∀ stack, Leads (onConDone index ret) s stack t := by
  obtain ⟨p,u,got,rest⟩ := bind_returned ran
  obtain ⟨rfl,rfl,getting⟩ := getPeer_goes got
  by_cases refused : ret < 0
  · rw [if_pos refused] at rest
    obtain ⟨kept,leads⟩ := closePeer_leads fits rest
    refine ⟨fits.kept kept,fun stack => .bind (getting stack) ?_⟩
    rw [if_pos refused]
    exact leads stack
  · rw [if_neg refused] at rest
    cases rest
    refine ⟨fits,fun stack => .bind (getting stack) ?_⟩
    rw [if_neg refused]
    exact (Goes.assign rfl).leads

theorem registerSocket_leads (fits : Fits s) {socket : Int} {ip : String} {port : UInt32}
    (ran : SelectService.registerSocket socket ip port s = .ok () t) :
    Fits t ∧ ∀ stack, Leads (registerSocket socket ip port) s stack t := by
  obtain ⟨index,u,gave,rest⟩ := bind_returned ran
  clear ran
  obtain ⟨scripts,giving⟩ := getFreeIndex_goes rfl gave
  obtain ⟨p,v,got,rest⟩ := bind_returned rest
  obtain ⟨rfl,rfl,getting⟩ := getPeer_goes got
  obtain ⟨_,v,joined,rest⟩ := bind_returned rest
  obtain ⟨unspent,joining⟩ := modify_goes joined rfl rfl
  obtain ⟨p,w,found,rest⟩ := bind_returned rest
  obtain ⟨rfl,rfl,finding⟩ := getPeer_goes found
  obtain ⟨ret,w,called,rest⟩ := bind_returned rest
  have sized : Fits v := fun script member => fits script (scripts ▸ unspent ▸ member)
  have waits : Waits (.onCon index) := trivial
  obtain ⟨kept,reaches⟩ := callback_reaches (fun _ _ _ => closePeer_closes _) sized _ waits called
  obtain ⟨after,leads⟩ := onConDone_leads (sized.kept kept) rest
  refine ⟨after,fun stack => ?_⟩
  have forgets : Goes (modify (forget index)) v stack () v stack := .modify fun m at_m => ⟨at_m.service,at_m.stack⟩
  have enters := Leads.callback _ waits (reaches stack) ret (leads stack)
  exact .bind (giving stack) (.bind (getting stack) (.bind (joining stack) (.bind forgets (.bind (finding stack) enters))))

theorem serveWrite_leads {o : Outside} (fits : Fits s) (ran : SelectService.serveWrite o index s = .ok () t) :
    Kept s t ∧ ∀ stack, Leads (serveWrite o index) s stack t := by
  obtain ⟨p,u,got,rest⟩ := bind_returned ran
  clear ran
  obtain ⟨rfl,rfl,getting⟩ := getPeer_goes got
  obtain ⟨_,_,here,rest⟩ := bind_returned rest
  cases here
  by_cases ready : (s.peers index).socket ∈ s.writeUse
  · have ready_at : ∀ stack m, At s stack m → (s.peers index).socket ∈ m.service.writeUse := by
      intro stack m at_m
      simpa [at_m.service,SelectService.scripted] using ready
    rw [if_pos ready] at rest
    obtain ⟨ret,v,wrote,rest⟩ := bind_returned rest
    obtain ⟨blind,kept⟩ := sockWrite_plain index _ s ret v wrote
    by_cases failed : ret ≠ 0
    · rw [if_pos failed] at rest
      obtain ⟨still,leads⟩ := closePeer_leads (fits.kept kept) rest
      refine ⟨kept.trans still,fun stack => .bind (getting stack) (.picked (ready_at stack) (.bind (.call blind) ?_))⟩
      rw [if_pos failed]
      exact leads stack
    · rw [if_neg failed] at rest
      obtain ⟨left,w,counted,rest⟩ := bind_returned rest
      obtain ⟨same,still⟩ := onWriteBuf_plain index _ v left w counted
      by_cases empty : left = 0
      · rw [if_pos empty] at rest
        cases rest
        refine ⟨kept.trans ⟨still.serials,still.fewer,still.scripts⟩,fun stack => ?_⟩
        refine .bind (getting stack) (.picked (ready_at stack) (.bind (.call blind) ?_))
        rw [if_neg failed]
        refine .bind (.modify fun m at_m => ⟨at_m.service,at_m.stack⟩) (.bind (.call same) ?_)
        rw [if_pos empty]
        exact (Goes.assign rfl).leads
      · rw [if_neg empty] at rest
        cases rest
        refine ⟨kept.trans still,fun stack => ?_⟩
        refine .bind (getting stack) (.picked (ready_at stack) (.bind (.call blind) ?_))
        rw [if_neg failed]
        refine .bind (.modify fun m at_m => ⟨at_m.service,at_m.stack⟩) (.bind (.call same) ?_)
        rw [if_neg empty]
        exact (Goes.pure ()).leads
  · rw [if_neg ready] at rest
    cases rest
    refine ⟨.refl _,fun stack => .bind (getting stack) (.passed (fun m at_m => ?_) (Goes.pure ()).leads)⟩
    simpa [at_m.service,SelectService.scripted] using ready

-- A round of the loop, from the peer that it serves.
theorem serveRead_leads {o : Outside} (fits : Fits s) (read : SelectService.serveRead o index s = .ok more t)
    (ran : (if more then SelectService.serveWrite o index else pure () : Select Unit) t = .ok () u) :
    Kept s u ∧ ∀ stack, Leads (serveRead o index) s stack u := by
  obtain ⟨p,v,got,rest⟩ := bind_returned read
  clear read
  obtain ⟨rfl,rfl,getting⟩ := getPeer_goes got
  obtain ⟨_,_,here,rest⟩ := bind_returned rest
  cases here
  by_cases ready : (s.peers index).socket ∈ s.readUse
  · have ready_at : ∀ stack m, At s stack m → (s.peers index).socket ∈ m.service.readUse := by
      intro stack m at_m
      simpa [at_m.service,SelectService.scripted] using ready
    rw [if_pos ready] at rest
    obtain ⟨ret,v,received,rest⟩ := bind_returned rest
    obtain ⟨blind,kept⟩ := sockRead_plain index _ s ret v received
    by_cases failed : ret ≠ 0
    · rw [if_pos failed] at rest
      obtain ⟨_,w,closed,rest⟩ := bind_returned rest
      cases rest
      cases ran
      obtain ⟨still,leads⟩ := closePeer_leads (fits.kept kept) closed
      refine ⟨kept.trans still,fun stack => .bind (getting stack) (.picked (ready_at stack) (.bind (.call blind) ?_))⟩
      rw [if_pos failed]
      exact leads stack
    · rw [if_neg failed] at rest
      obtain ⟨answer,w,called,rest⟩ := bind_returned rest
      have waits : Waits (.onRead index o) := trivial
      obtain ⟨still,reaches⟩ := callback_reaches (fun _ _ _ => closePeer_closes _) (fits.kept kept) _ waits called
      have serial : (w.peers index).serial = (s.peers index).serial := (still.serials index).trans (kept.serials index)
      have along := (fits.kept kept).kept still
      have inside : getPeer index w = .ok (w.peers index) w := SelectService.getPeer_inside (Nat.not_le.mpr (getPeer_got got).1)
      obtain ⟨_,_,again⟩ := getPeer_goes inside
      have after : Kept w u ∧ ∀ stack, Leads (done answer (.onRead index o)) w stack u := by
        by_cases refused : answer < 0
        · rw [if_pos refused] at rest
          obtain ⟨_,x,closed,rest⟩ := bind_returned rest
          cases rest
          cases ran
          obtain ⟨last,leads⟩ := closePeer_leads along closed
          refine ⟨last,fun stack => .bind (again stack) ?_⟩
          rw [if_pos refused,serial]
          exact leads stack
        · rw [if_neg refused] at rest
          cases rest
          obtain ⟨last,leads⟩ := serveWrite_leads along ran
          refine ⟨last,fun stack => .bind (again stack) ?_⟩
          rw [if_neg refused]
          exact leads stack
      refine ⟨kept.trans (still.trans after.1),fun stack => ?_⟩
      refine .bind (getting stack) (.picked (ready_at stack) (.bind (.call blind) ?_))
      rw [if_neg failed]
      exact .callback _ waits (reaches stack) answer (after.2 stack)
  · rw [if_neg ready] at rest
    cases rest
    obtain ⟨kept,leads⟩ := serveWrite_leads fits ran
    refine ⟨kept,fun stack => .bind (getting stack) (.passed (fun m at_m => ?_) (leads stack))⟩
    simpa [at_m.service,SelectService.scripted] using ready

theorem round_reaches {o : Outside} {i : Nat} (here : s.onlinePeerSet[i]? = some index)
    (leads : Leads (serveRead o index) s (.loop o (i+1) :: stack) t) :
    Reaches s (.loop o i :: stack) t (.loop o (i+1) :: stack) := by
  obtain ⟨u,mid,goes,rest⟩ := leads
  have moved : Goes (modify fun m => {m with stack := .loop o (i+1) :: stack}) s (.loop o i :: stack) ()
      s (.loop o (i+1) :: stack) := .modify fun m at_m => ⟨at_m.service,rfl⟩
  have rounds : Goes (run .round) s (.loop o i :: stack) () u mid := by
    refine Goes.get fun m at_m => ?_
    have served : m.service.onlinePeerSet[i]? = some index := by simpa [at_m.service,SelectService.scripted] using here
    rw [at_m.stack]
    simp only [served]
    exact moved.bind goes
  have genuine : ∀ m, At s (.loop o i :: stack) m → Genuine m .round := fun _ _ => trivial
  exact ((Reaches.refl _ _).step genuine rounds).trans rest

theorem loop_ends {o : Outside} {i : Nat} (past : s.onlinePeerSet[i]? = none) : Reaches s (.loop o i :: stack) s stack := by
  have rounds : Goes (run .round) s (.loop o i :: stack) () s stack := by
    refine Goes.get fun m at_m => ?_
    have served : m.service.onlinePeerSet[i]? = none := by simpa [at_m.service,SelectService.scripted] using past
    rw [at_m.stack]
    simp only [served]
    exact .modify fun n at_n => ⟨at_n.service,rfl⟩
  have genuine : ∀ m, At s (.loop o i :: stack) m → Genuine m .round := fun _ _ => trivial
  exact (Reaches.refl _ _).step genuine rounds

-- The bound on the rounds is never met, since the set does not grow.
theorem serveFrom_reaches {o : Outside} {count i : Nat} (fits : Fits s) (few : s.onlinePeerSet.length ≤ count+i)
    (ran : SelectService.serveFrom o count i s = .ok () t) : Reaches s (.loop o i :: stack) t stack := by
  induction count generalizing s i with
  | zero =>
    cases ran
    exact loop_ends (by simpa using few)
  | succ count ih =>
    obtain ⟨_,_,same,rest⟩ := bind_returned ran
    cases same
    cases here : s.onlinePeerSet[i]? with
    | none =>
      simp only [here] at rest
      cases rest
      exact loop_ends here
    | some index =>
      simp only [here] at rest
      obtain ⟨more,v,read,rest⟩ := bind_returned rest
      have served : ∃ w, (if more then SelectService.serveWrite o index else pure () : Select Unit) v = .ok () w ∧
          SelectService.serveFrom o count (i+1) w = .ok () t := by
        cases more with
        | false => exact ⟨v,rfl,rest⟩
        | true =>
          obtain ⟨_,w,wrote,rest⟩ := bind_returned rest
          exact ⟨w,wrote,rest⟩
      obtain ⟨w,served,rest⟩ := served
      obtain ⟨kept,leads⟩ := serveRead_leads fits read served
      have bound := kept.fewer
      have onward := ih (fits.kept kept) (by omega) rest
      exact (round_reaches here (leads _)).trans onward

theorem initSets_goes (ran : initSets s = .ok () t) :
    t.scripts = s.scripts ∧ ∀ stack, Goes (call initSets) s stack () t stack := by
  rw [SelectService.initSets_ok] at ran
  cases ran
  exact ⟨rfl,fun stack => .call (SelectService.initSets_ok (s.scripted []))⟩

theorem acceptNew_leads {o : Outside} (fits : Fits s) (ran : SelectService.acceptNew o s = .ok () t) :
    Fits t ∧ ∀ stack, Leads (acceptNew o) s stack t := by
  obtain ⟨_,_,same,rest⟩ := bind_returned ran
  cases same
  by_cases arrived : s.listenSocket ≠ invalidSocket ∧ s.listenSocket ∈ s.readUse
  · have arrived_at : ∀ stack m, At s stack m →
        m.service.listenSocket ≠ invalidSocket ∧ m.service.listenSocket ∈ m.service.readUse := by
      intro stack m at_m
      rw [at_m.service]
      exact arrived
    rw [if_pos arrived] at rest
    by_cases valid : o.accepted.socket ≠ invalidSocket
    · rw [if_pos valid] at rest
      obtain ⟨after,leads⟩ := registerSocket_leads fits rest
      refine ⟨after,fun stack => .picked (arrived_at stack) ?_⟩
      rw [if_pos valid]
      exact leads stack
    · rw [if_neg valid] at rest
      cases rest
  · rw [if_neg arrived] at rest
    cases rest
    refine ⟨fits,fun stack => .passed (fun m at_m => ?_) (Goes.pure ()).leads⟩
    rw [at_m.service]
    exact arrived

theorem eventLoop_reaches {o : Outside} (fits : Fits s) (fresh : o.accepted.socket ≠ invalidSocket → s.Fresh o.accepted.socket)
    (ran : SelectService.eventLoop o s = .ok () t) : Reaches s [] t [] := by
  obtain ⟨_,u,started,rest⟩ := bind_returned ran
  obtain ⟨scripts,starting⟩ := initSets_goes started
  cases ready : o.ready with
  | none =>
    simp only [ready] at rest
    cases rest
  | some sets =>
    obtain ⟨reads,writes⟩ := sets
    simp only [ready] at rest
    obtain ⟨_,v,polled,rest⟩ := bind_returned rest
    obtain ⟨unspent,polling⟩ := modify_goes polled rfl rfl
    obtain ⟨_,_,same,rest⟩ := bind_returned rest
    cases same
    have sized : Fits v := fun script member => fits script (scripts ▸ unspent ▸ member)
    have loops : Leads (run (.eventLoop o)) s [] t := by
      refine .bind (starting []) ?_
      simp only [ready]
      refine .bind (polling []) ?_
      by_cases some_ready : v.readUse.length+v.writeUse.length > 0
      · rw [if_pos some_ready] at rest
        obtain ⟨_,w,accepted,rest⟩ := bind_returned rest
        obtain ⟨after,leads⟩ := acceptNew_leads sized accepted
        obtain ⟨_,_,same,rest⟩ := bind_returned rest
        cases same
        have rounds : Reaches w [.loop o 0] t [] := serveFrom_reaches after (Nat.le_refl _) rest
        have pushes : Goes (modify fun m => {m with stack := .loop o 0 :: m.stack}) v [] () v [.loop o 0] :=
          .modify fun m at_m => ⟨at_m.service,by simp [at_m.stack]⟩
        obtain ⟨x,mid,goes,reaches⟩ := leads [.loop o 0]
        refine .picked (fun m at_m => ?_) ⟨x,mid,pushes.bind goes,reaches.trans rounds⟩
        simpa [at_m.service,SelectService.scripted] using some_ready
      · rw [if_neg some_ready] at rest
        cases rest
        refine .passed (fun m at_m => ?_) (Goes.pure ()).leads
        simpa [at_m.service,SelectService.scripted] using some_ready
    refine loops.reaches fun m at_m => ⟨at_m.stack,fun valid => ?_⟩
    obtain ⟨unowned,apart⟩ := fresh valid
    rw [at_m.service]
    exact ⟨unowned,apart⟩

theorem applies_outside (at_m : At s [] m) : m.Applies := by
  intro o i rest equal
  rw [at_m.stack] at equal
  cases equal

theorem connectPeer_leads {c : Option Connection} (fits : Fits s) (ran : SelectService.run (.connectPeer c) s = .ok () t) :
    Leads (run (.connectPeer c)) s [] t := by
  obtain ⟨_,u,connected,last⟩ := bind_returned ran
  cases last
  cases c with
  | none => cases connected
  | some c =>
    by_cases refused : c.socket = invalidSocket
    · have unmoved : SelectService.connectPeer (some c) s = .ok false s := by
        simp only [SelectService.connectPeer,if_pos refused]
        rfl
      rw [unmoved] at connected
      cases connected
      have refuses : Goes (connectPeer (some c)) s [] false s [] := by
        simp only [connectPeer,if_pos refused]
        exact .pure false
      exact (refuses.bind (.pure ())).leads
    · simp only [SelectService.connectPeer,if_neg refused] at connected
      obtain ⟨_,v,registered,last⟩ := bind_returned connected
      cases last
      obtain ⟨x,mid,goes,rest⟩ := (registerSocket_leads fits registered).2 []
      have joins : Goes (connectPeer (some c)) s [] true x mid := by
        simp only [connectPeer,if_neg refused]
        exact goes.bind (.pure true)
      exact ⟨x,mid,joins.bind (.pure ()),rest⟩

-- One call of the service is a run of the machine.
theorem run_reaches {event : SelectEvent} (fits : Fits s) (possible : Possible s event)
    (sized : ∀ index serial buf, event = .send index serial buf → buf.length < 2^31)
    (ran : SelectService.run event s = .ok () t) : Reaches s [] t [] := by
  cases event with
  | listen a =>
    have listens : Leads (run (.listen a)) s [] t := (Goes.call (listen_plain a s () t ran).1).leads
    refine listens.reaches fun m at_m => ⟨applies_outside at_m,fun valid => ?_⟩
    rw [at_m.service]
    exact ⟨(possible valid).unowned,(possible valid).apart⟩
  | connectPeer c =>
    refine (connectPeer_leads fits ran).reaches fun m at_m => ?_
    cases c with
    | none => exact applies_outside at_m
    | some c =>
      refine ⟨applies_outside at_m,fun valid => ?_⟩
      rw [at_m.service]
      exact ⟨(possible valid).unowned,(possible valid).apart⟩
  | send index serial buf =>
    have small := sized index serial buf rfl
    exact ((send_leads small ran).2 []).reaches fun m => applies_outside
  | closePeer index serial =>
    have closing : Leads (run (.closePeer index serial)) s [] t := (closePeer_leads fits ran).2 []
    exact closing.reaches fun m => applies_outside
  | eventLoop o => exact eventLoop_reaches fits possible ran

-- The call returns, and the application has the blocks that it passes on.
structure Smooth (s : SelectService) (input : SelectInput) : Prop where
  returns : ∃ t, SelectService.run input.event (s.scripted input.scripts) = .ok () t
  fits : Fits (s.scripted input.scripts)
  sized : ∀ index serial buf, input.event = .send index serial buf → buf.length < 2^31

-- A run of calls that all return is a run of the machine, so what holds along the runs of
-- the machine holds of the service after each of its calls.
theorem select_machine (path : Path SelectStep .new taken s) (smooth : ∀ t ∈ taken, Smooth t.before t.event) :
    ∃ moves m, Path MachineStep new moves m ∧ At s [] m := by
  refine path.guarded (fun s => ∃ moves m, Path MachineStep new moves m ∧ At s [] m) Smooth ?_ smooth ?_
  · exact ⟨[],new,.nil,rfl,rfl⟩
  · rintro before input after ⟨moves,m,prior,at_m⟩ ⟨⟨t,ran⟩,fits,sized⟩ step
    cases step with
    | call possible survives =>
      have reaches := run_reaches fits possible.scripted sized ran
      obtain ⟨further,last,onward,at_last⟩ := reaches m ⟨at_m.service,at_m.stack⟩
      refine ⟨_,last,prior.append onward,?_⟩
      rw [ran]
      exact at_last

end PcNetwork.NetSelect.Machine
