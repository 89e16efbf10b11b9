import PcNetwork.Library.Path

namespace PcNetwork

-- The CG_NetSocket objects of a process, each with its m_socket, where INVALID_SOCKET is
-- `none`; the handles that Accept has returned and Attach has not been given yet; and the
-- static m_nCount. `started` is whether Winsock is up, `cleanUps` counts the calls of
-- _NetCleanUp.
structure NetSockets where
  objects : List (Option Nat)
  accepted : List Nat
  nCount : Int
  started : Bool
  cleanUps : Nat

namespace NetSockets

def start : NetSockets := ⟨[],[],0,false,0⟩

def socket (s : NetSockets) (i : Nat) : Option Nat := s.objects.getD i none
def setSocket (s : NetSockets) (i : Nat) (handle : Option Nat) : NetSockets := {s with objects := s.objects.set i handle}

def construct (s : NetSockets) : NetSockets := {s with objects := s.objects ++ [none]}

-- `answer` is what WSAStartup gives; a version that is not the right one is a failure too.
def netStartUp (s : NetSockets) (answer : Bool) : Bool × NetSockets := (answer,{s with started := answer})
def netCleanUp (s : NetSockets) : NetSockets := {s with started := false,cleanUps := s.cleanUps+1}

-- `answer` is what socket() gives.
def initializeSocket (s : NetSockets) (i : Nat) (startUp : Bool) (answer : Option Nat) : Bool × NetSockets :=
  let first := s.nCount = 0
  let s := {s with nCount := s.nCount+1}
  let (ok,s) := if first then s.netStartUp startUp else (true,s)
  if ok = false then (false,s) else (answer.isSome,s.setSocket i answer)

def close (s : NetSockets) (i : Nat) : Bool × NetSockets :=
  if s.socket i = none then (false,s) else
  let s := s.setSocket i none
  let s := {s with nCount := s.nCount-1}
  (true,if s.nCount = 0 then s.netCleanUp else s)

-- `answer` is what ::accept gives. The handle 0 counts as an error.
def accept (s : NetSockets) (answer : Option Nat) : Option Nat × NetSockets :=
  match answer with
  | none | some 0 => (none,s)
  | some (handle+1) => (some (handle+1),{s with nCount := s.nCount+1,accepted := s.accepted ++ [handle+1]})

def attach (s : NetSockets) (i : Nat) (handle : Nat) : NetSockets :=
  {s.setSocket i (some handle) with accepted := s.accepted.erase handle}

def destroy (s : NetSockets) (i : Nat) : NetSockets :=
  let s := (s.close i).2
  {s with objects := s.objects.eraseIdx i}

end NetSockets

-- A step names the object it is a call on by its place. ::accept fails on INVALID_SOCKET.
inductive SocketOp where
  | construct
  | initializeSocket (i : Nat) (startUp : Bool) (answer : Option Nat)
  | accept (i : Nat) (answer : Option Nat)
  | attach (i : Nat) (handle : Nat)
  | close (i : Nat)
  | destroy (i : Nat)

inductive SocketStep : NetSockets → SocketOp → NetSockets → Prop where
  | construct : SocketStep s .construct s.construct
  | initializeSocket (there : i < s.objects.length) : SocketStep s (.initializeSocket i startUp answer) (s.initializeSocket i startUp answer).2
  | accept (there : i < s.objects.length) (listens : s.socket i = none → answer = none) :
      SocketStep s (.accept i answer) (s.accept answer).2
  | attach (there : i < s.objects.length) (accepted : handle ∈ s.accepted) : SocketStep s (.attach i handle) (s.attach i handle)
  | close (there : i < s.objects.length) : SocketStep s (.close i) (s.close i).2
  | destroy (there : i < s.objects.length) : SocketStep s (.destroy i) (s.destroy i)

namespace NetSockets

-- The open handles: owned, or accepted and not yet attached.
def opened (s : NetSockets) : Nat := s.objects.countP Option.isSome+s.accepted.length

structure Counted (s : NetSockets) : Prop where
  count : s.nCount = s.opened
  started : 0 < s.nCount → s.started = true

-- What the count is for, of a step: it counts, and the clean-up comes with the last handle.
structure Accounts (before after : NetSockets) : Prop where
  counted : Counted after
  cleanUp : after.cleanUps = before.cleanUps+if 0 < before.opened ∧ after.opened = 0 then 1 else 0

-- Initialize and Attach are called on an object without a handle, and what Initialize
-- calls does not fail.
def Meets (s : NetSockets) : SocketOp → Prop
  | .initializeSocket i startUp answer => s.socket i = none ∧ (s.nCount = 0 → startUp = true) ∧ answer.isSome
  | .attach i _ => s.socket i = none
  | .construct | .accept .. | .close _ | .destroy _ => True

-- An object among the others.
theorem socket_place {s : NetSockets} (there : i < s.objects.length) :
    ∃ before after, before.length = i ∧ s.objects = before ++ s.socket i :: after := by
  refine ⟨s.objects.take i,s.objects.drop (i+1),by simp; omega,?_⟩
  have here : s.socket i = s.objects[i] := by simp [socket,there]
  rw [here,List.getElem_cons_drop,List.take_append_drop]

theorem setSocket_count {s : NetSockets} (there : i < s.objects.length) (handle : Option Nat) :
    (s.setSocket i handle).objects.countP Option.isSome+(s.socket i).isSome.toNat =
      s.objects.countP Option.isSome+handle.isSome.toNat := by
  obtain ⟨before,after,length,parts⟩ := socket_place there
  have put : (s.setSocket i handle).objects = before ++ handle :: after := by
    rw [setSocket,parts,List.set_append_right _ _ (by omega),length,Nat.sub_self,List.set_cons_zero]
  rw [put,parts]
  generalize s.socket i = old
  cases old <;> cases handle <;> simp <;> omega

-- A handle that is given to an object that has none.
theorem setSocket_opened {s : NetSockets} (there : i < s.objects.length) (handle : Option Nat) :
    (s.setSocket i handle).opened+(s.socket i).isSome.toNat = s.opened+handle.isSome.toNat := by
  have count := setSocket_count there handle
  have same : (s.setSocket i handle).accepted = s.accepted := rfl
  unfold opened
  rw [same]
  omega

theorem owned_opened {s : NetSockets} (there : i < s.objects.length) : (s.socket i).isSome.toNat ≤ s.opened := by
  have opened := setSocket_opened there none
  simp at opened
  omega

-- A step that counts what it opens, and closes nothing.
theorem accounts_grown {s t : NetSockets} (counted : Counted s) (n : Nat) (count : t.nCount = s.nCount+n)
    (opened : t.opened = s.opened+n) (started : 0 < t.nCount → t.started = true) (same : t.cleanUps = s.cleanUps) :
    Accounts s t := by
  have before := counted.count
  refine ⟨⟨by omega,started⟩,?_⟩
  rw [if_neg (by omega),same]
  rfl

theorem close_owned {s : NetSockets} (owned : s.socket i ≠ none) :
    (s.close i).2 = if s.nCount-1 = 0 then {s.setSocket i none with nCount := s.nCount-1}.netCleanUp
      else {s.setSocket i none with nCount := s.nCount-1} := by
  unfold close
  rw [if_neg owned]
  rfl

-- Close takes the count down with the handle.
theorem close_accounts {s : NetSockets} (counted : Counted s) (there : i < s.objects.length) : Accounts s (s.close i).2 := by
  have count := counted.count
  by_cases idle : s.socket i = none
  · unfold close
    rw [if_pos idle]
    exact accounts_grown counted 0 (Int.add_zero _).symm rfl counted.started rfl
  · have owned : (s.socket i).isSome.toNat = 1 := by simp [Option.isSome_iff_ne_none.mpr idle]
    have freed := setSocket_opened there none
    rw [owned] at freed
    simp only [Option.isSome_none,Bool.toNat_false,Nat.add_zero] at freed
    rw [close_owned idle]
    by_cases last : s.nCount-1 = 0
    · have empty : (s.setSocket i none).opened = 0 := by omega
      rw [if_pos last]
      refine ⟨⟨?_,fun some => absurd last (Int.ne_of_gt some)⟩,?_⟩
      · show s.nCount-1 = ((s.setSocket i none).opened : Int)
        omega
      · show s.cleanUps+1 = s.cleanUps+if 0 < s.opened ∧ (s.setSocket i none).opened = 0 then 1 else 0
        rw [if_pos ⟨by omega,empty⟩]
    · rw [if_neg last]
      refine ⟨⟨?_,?_⟩,?_⟩
      · show s.nCount-1 = ((s.setSocket i none).opened : Int)
        omega
      · intro some
        exact counted.started (by dsimp only at some; omega)
      · show s.cleanUps = s.cleanUps+if 0 < s.opened ∧ (s.setSocket i none).opened = 0 then 1 else 0
        rw [if_neg (by omega)]
        rfl

-- Initialize counts before the calls that may fail.
theorem initialize_nCount (s : NetSockets) : (s.initializeSocket i startUp answer).2.nCount = s.nCount+1 := by
  unfold initializeSocket netStartUp
  dsimp only
  split <;> split <;> rfl

theorem initialize_opened {s : NetSockets} (there : i < s.objects.length) (startUp : Bool) (answer : Option Nat) :
    (s.initializeSocket i startUp answer).2.opened+(s.socket i).isSome.toNat =
      s.opened+if s.nCount = 0 ∧ startUp = false then (s.socket i).isSome.toNat else answer.isSome.toNat := by
  have given := setSocket_opened there answer
  by_cases first : s.nCount = 0
  · cases startUp with
    | false => simp [initializeSocket,netStartUp,first]; rfl
    | true => simp [initializeSocket,netStartUp,first]; exact given
  · simp [initializeSocket,first]; exact given

theorem initialize_cleanUps (s : NetSockets) : (s.initializeSocket i startUp answer).2.cleanUps = s.cleanUps := by
  unfold initializeSocket netStartUp
  dsimp only
  split <;> split <;> rfl

theorem initialize_accounts {s : NetSockets} (counted : Counted s) (there : i < s.objects.length) :
    Accounts s (s.initializeSocket i startUp answer).2 ↔ Meets s (.initializeSocket i startUp answer) := by
  have before := counted.count
  have count : (s.initializeSocket i startUp answer).2.nCount = s.nCount+1 := initialize_nCount s
  have opened := initialize_opened there startUp answer
  constructor
  · intro accounts
    have after := accounts.counted.count
    by_cases failed : s.nCount = 0 ∧ startUp = false
    · rw [if_pos failed] at opened
      omega
    · rw [if_neg failed] at opened
      refine ⟨?_,?_,?_⟩
      · cases own : s.socket i with
        | none => rfl
        | some handle =>
          have most := Bool.toNat_le answer.isSome
          rw [own,Option.isSome_some,Bool.toNat_true] at opened
          omega
      · intro first
        cases startUp with
        | true => rfl
        | false => exact absurd ⟨first,rfl⟩ failed
      · cases answer with
        | some handle => rfl
        | none =>
          rw [Option.isSome_none,Bool.toNat_false] at opened
          omega
  · rintro ⟨idle,up,given⟩
    have succeeds : ¬ (s.nCount = 0 ∧ startUp = false) := by
      rintro ⟨first,failed⟩
      rw [up first] at failed
      cases failed
    rw [if_neg succeeds,idle,given] at opened
    refine accounts_grown counted 1 count opened ?_ (initialize_cleanUps s)
    intro some
    by_cases first : s.nCount = 0
    · simp [initializeSocket,netStartUp,first,up first,setSocket]
    · have running := counted.started (by omega)
      simp [initializeSocket,first,running,setSocket]

theorem attach_accounts {s : NetSockets} (counted : Counted s) (there : i < s.objects.length) (accepted : handle ∈ s.accepted) :
    Accounts s (s.attach i handle) ↔ Meets s (.attach i handle) := by
  have given := setSocket_count there (some handle)
  have length : (s.accepted.erase handle).length+1 = s.accepted.length := by
    have some := List.length_pos_of_mem accepted
    rw [List.length_erase_of_mem accepted]
    omega
  have opened : (s.attach i handle).opened+(s.socket i).isSome.toNat = s.opened := by
    simp only [Option.isSome_some,Bool.toNat_true] at given
    show (s.setSocket i (some handle)).objects.countP Option.isSome+(s.accepted.erase handle).length+_ =
      s.objects.countP Option.isSome+s.accepted.length
    omega
  constructor
  · intro accounts
    have now : s.nCount = ((s.attach i handle).opened : Int) := accounts.counted.count
    have before := counted.count
    show s.socket i = none
    by_contra owned
    have one : (s.socket i).isSome.toNat = 1 := by simp [Option.isSome_iff_ne_none.mpr owned]
    omega
  · intro idle
    have none : s.socket i = none := idle
    rw [none] at opened
    exact accounts_grown counted 0 (Int.add_zero _).symm opened counted.started rfl

theorem accept_accounts {s : NetSockets} (counted : Counted s) (there : i < s.objects.length)
    (listens : s.socket i = none → answer = none) : Accounts s (s.accept answer).2 := by
  have same : Accounts s s := accounts_grown counted 0 (Int.add_zero _).symm rfl counted.started rfl
  match answer with
  | none => exact same
  | some 0 => exact same
  | some (handle+1) =>
    have grown : (s.accept (some (handle+1))).2.opened = s.opened+1 := by
      simp [accept,opened]
      omega
    refine accounts_grown counted 1 rfl grown (fun _ => counted.started ?_) rfl
    have count := counted.count
    have owned := owned_opened there
    cases own : s.socket i with
    | none => cases listens own
    | some listening =>
      rw [own,Option.isSome_some,Bool.toNat_true] at owned
      omega

-- The destructor closes, and then the object is gone.
theorem close_socket {s : NetSockets} (there : i < s.objects.length) :
    (s.close i).2.socket i = none ∧ i < (s.close i).2.objects.length := by
  unfold close
  by_cases idle : s.socket i = none
  · rw [if_pos idle]
    exact ⟨idle,there⟩
  · rw [if_neg idle]
    dsimp only
    split <;> simp [socket,setSocket,netCleanUp,there]

theorem erase_opened {s : NetSockets} (there : i < s.objects.length) (idle : s.socket i = none) :
    ({s with objects := s.objects.eraseIdx i} : NetSockets).opened = s.opened := by
  obtain ⟨before,after,length,parts⟩ := socket_place there
  rw [idle] at parts
  simp [opened,parts,← length,List.eraseIdx_append_of_length_le]

theorem destroy_accounts {s : NetSockets} (counted : Counted s) (there : i < s.objects.length) : Accounts s (s.destroy i) := by
  obtain ⟨⟨count,started⟩,cleanUp⟩ := close_accounts counted there
  obtain ⟨idle,still⟩ := close_socket there
  have same := erase_opened still idle
  refine ⟨⟨?_,started⟩,?_⟩
  · exact count.trans (congrArg Int.ofNat same.symm)
  · unfold destroy
    dsimp only
    rw [same]
    exact cleanUp

theorem step_accounts {s : NetSockets} (counted : Counted s) (step : SocketStep s op next) : Accounts s next ↔ Meets s op := by
  cases step with
  | construct =>
    refine iff_of_true (accounts_grown counted 0 (Int.add_zero _).symm ?_ counted.started rfl) trivial
    simp [construct,opened]
  | initializeSocket there => exact initialize_accounts counted there
  | accept there listens => exact iff_of_true (accept_accounts counted there listens) trivial
  | attach there accepted => exact attach_accounts counted there accepted
  | close there => exact iff_of_true (close_accounts counted there) trivial
  | destroy there => exact iff_of_true (destroy_accounts counted there) trivial

-- Every step of a run counts the open handles, and cleans up with the last of them,
-- exactly if every step meets the condition.
theorem start_up_counts (path : Path SocketStep start taken last) :
    (∀ t ∈ taken, Accounts t.before t.after) ↔ ∀ t ∈ taken, Meets t.before t.event :=
  path.exactly Counted (fun before _ after => Accounts before after) Meets ⟨rfl,nofun⟩
    (fun _ _ _ accounts => accounts.counted) fun _ _ _ counted step => step_accounts counted step

-- A connection that is opened and closed.
theorem start_up_counts_once : ∃ taken last, Path SocketStep start taken last ∧ last.cleanUps = 1 ∧
    ∀ t ∈ taken, Accounts t.before t.after := by
  have first : Path SocketStep start [⟨start,.construct,start.construct⟩] start.construct := .step .nil .construct
  have opens : SocketStep start.construct (.initializeSocket 0 true (some 7)) ⟨[some 7],[],1,true,0⟩ :=
    .initializeSocket Nat.zero_lt_one
  have closes : SocketStep ⟨[some 7],[],1,true,0⟩ (.close 0) ⟨[none],[],0,false,1⟩ := .close Nat.zero_lt_one
  have third := (first.step opens).step closes
  refine ⟨_,_,third,rfl,(start_up_counts third).mpr ?_⟩
  intro t member
  simp only [List.nil_append,List.cons_append,List.mem_cons,List.not_mem_nil,or_false] at member
  rcases member with rfl | rfl | rfl
  · trivial
  · exact ⟨rfl,fun _ => rfl,rfl⟩
  · trivial

-- A start-up that fails is counted.
theorem start_up_miscounts :
    ¬ ∀ (taken : List (Transition NetSockets SocketOp)) (last : NetSockets), Path SocketStep start taken last →
      ∀ t ∈ taken, Accounts t.before t.after := by
  intro claim
  have first : Path SocketStep start [⟨start,.construct,start.construct⟩] start.construct := .step .nil .construct
  have fails : SocketStep start.construct (.initializeSocket 0 false none) ⟨[none],[],1,false,0⟩ := .initializeSocket Nat.zero_lt_one
  have counted := (claim _ _ (first.step fails) _ (.tail _ (.head _))).counted.count
  cases counted

end NetSockets
end PcNetwork
