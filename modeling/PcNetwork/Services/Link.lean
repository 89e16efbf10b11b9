import PcNetwork.Services.Served

namespace PcNetwork.NetEvent
open SockBuf Libnet

-- Two programs of libnet with a connection between slot i of the one and slot j of the
-- other, in this direction: `said` are the messages whose blocks have been passed to send,
-- `written` what completions have reported as sent, `handed` what the system has been
-- given to send as long as the connection was open, and `landed` what has arrived.
structure Link where
  near : Server
  far : Server
  said : List (List UInt8)
  written : List UInt8
  handed : List UInt8
  landed : List UInt8

-- What an outstanding WSASend has been given.
def underWay (i : Nat) (x : IocpService) : List UInt8 := (IocpService.operations x i).flatMap fun op =>
  match op.request with
  | .send b => b.readable
  | .recv _ | .posted => []

namespace Link

def new : Link := ⟨.new,.new,[],[],[],[]⟩

def spoke (l : Link) (i : Nat) (input : ServerInput) (x : Server) (bodies : List (List UInt8)) : Link :=
  let written := l.written ++ contributes (IocpService.writing_reports i) ⟨l.near,input,x⟩
  {l with
    near := x
    said := l.said ++ bodies
    written
    handed := if (x.service.peers i).socket = invalidSocket then l.handed else written ++ underWay i x.service}

def heard (l : Link) (j : Nat) (input : ServerInput) (x : Server) : Link :=
  {l with far := x,landed := l.landed ++ contributes (IocpService.stored_bytes j) ⟨l.far,input,x⟩}

end Link

inductive LinkEvent where
  | near (input : ServerInput)
  | far (input : ServerInput)

-- A program passes whole messages to send on the thread of its event loop, so that no tick
-- is in the middle: send has no lock, and programs that call it from a second thread are not
-- meant. TCP brings what the system has been given, in order, some time or never.
inductive LinkStep (i j : Nat) : Link → LinkEvent → Link → Prop where
  | near {l : Link} {input : ServerInput} {x : Server} {bodies : List (List UInt8)} (step : ServerStep l.near input x)
      (whole : contributes (IocpService.sends i) ⟨l.near,input,x⟩ = bodies.flatMap encode)
      (short : ∀ body ∈ bodies, body.length < 2^31) : LinkStep i j l (.near input) (l.spoke i input x bodies)
  | far {l : Link} {input : ServerInput} {x : Server} (step : ServerStep l.far input x)
      (carried : (l.heard j input x).landed <+: l.handed) : LinkStep i j l (.far input) (l.heard j input x)

variable {i j : Nat} {l k : Link} {x : IocpService} {s : Server}

theorem writing_quiet (i : Nat) : Quiet (IocpService.writing_reports i) := ⟨fun _ _ _ _ => rfl,fun _ _ _ _ => rfl⟩
theorem sends_quiet (i : Nat) : Quiet (IocpService.sends i) := ⟨fun _ _ _ _ => rfl,fun _ _ _ _ => rfl⟩

-- The runs of the two programs, with what they have noted.
structure Traced (i j : Nat) (l : Link) : Prop where
  near : ∃ taken, Path ServerStep Server.new taken l.near ∧ noted (IocpService.writing_reports i) taken = l.written ∧
    noted (IocpService.sends i) taken = l.said.flatMap encode
  far : ∃ taken, Path ServerStep Server.new taken l.far ∧ arrived j taken = l.landed
  short : ∀ body ∈ l.said, body.length < 2^31

theorem noted_snoc (log : Transition IocpService IocpInput → List UInt8) (taken : List (Transition Server ServerInput))
    (t : Transition Server ServerInput) : noted log (taken ++ [t]) = noted log taken ++ contributes log t := by
  simp [noted]

theorem Traced.step {event : LinkEvent} (traced : Traced i j l) (step : LinkStep i j l event k) : Traced i j k := by
  obtain ⟨⟨near_taken,near,written,sends⟩,⟨far_taken,far,landed⟩,short⟩ := traced
  cases step with
  | near step whole few =>
    refine ⟨⟨_,near.step step,?_,?_⟩,⟨far_taken,far,landed⟩,fun body member => ?_⟩
    · rw [noted_snoc,written]
      rfl
    · rw [noted_snoc,sends]
      exact (congrArg _ whole).trans List.flatMap_append.symm
    · rcases List.mem_append.mp member with old | new
      · exact short body old
      · exact few body new
  | far step carried =>
    refine ⟨⟨near_taken,near,written,sends⟩,⟨_,far.step step,?_⟩,short⟩
    rw [arrived,noted_snoc,← arrived,landed]
    rfl

-- One WSASend at most is outstanding, and it has the first buffer.
theorem underWay_front {out blocks : List UInt8} (piped : IocpService.Piped i 0 0 out blocks x) : out ++ underWay i x <+: blocks := by
  obtain ⟨_,_,few,_,_,current,_,bytes⟩ := piped
  have front : underWay i x <+: (x.peers i).writeBuf.readable ++ (x.peers i).writeBufBackup.readable := by
    unfold underWay
    generalize IocpService.operations x i = ops at few current
    induction ops with
    | nil => exact List.nil_prefix
    | cons op rest ih =>
      rw [List.countP_cons] at few
      rw [List.flatMap_cons]
      have others := fun o member => current o (List.mem_cons_of_mem op member)
      cases request : op.request with
      | recv b | posted =>
        rw [List.nil_append]
        exact ih (by omega) others
      | send b =>
        have kind : IocpService.recvs op = false := by
          unfold IocpService.recvs
          rw [request]
        have zero : rest.countP (!IocpService.recvs ·) = 0 := by
          rw [kind,Bool.not_false,if_pos rfl] at few
          omega
        have none : (rest.flatMap fun op => match op.request with | .send b => b.readable | .recv _ | .posted => []) = [] := by
          rw [List.flatMap_eq_nil_iff]
          intro o member
          have quiet := List.countP_eq_zero.mp zero o member
          unfold IocpService.recvs at quiet
          cases given : o.request with
          | recv b | posted => rfl
          | send b =>
            rw [given] at quiet
            exact absurd rfl quiet
        rw [none,List.append_nil,current op List.mem_cons_self b request]
        exact List.prefix_append _ _
  rw [← bytes]
  exact (List.prefix_append_right_inj out).mpr front

-- What has been handed to the system and what has landed are fronts of what has been said.
structure Carried (i j : Nat) (l : Link) : Prop where
  traced : Traced i j l
  handed : IocpService.connections i l.near.service ≤ 1 → l.handed <+: l.said.flatMap encode
  landed : IocpService.connections i l.near.service ≤ 1 → l.landed <+: l.said.flatMap encode

theorem serverStep_connections {input : ServerInput} {t : Server} (step : ServerStep s input t) :
    IocpService.connections i s.service ≤ IocpService.connections i t.service := by
  cases step with
  | io external step => exact IocpService.step_connections step
  | @callback sys _ _ ran =>
    cases callback_calling ran with
    | other apart returns delivered =>
      have step : IocpService.IocpStep s.service ⟨.resume 0,sys⟩ t.service := .returns trivial returns
      exact IocpService.step_connections step
    | @read index _ _ _ _ b stack took returns delivered =>
      have step : IocpService.IocpStep (s.service.setPeer index {s.service.peers index with readBuf := b}) ⟨.resume 0,sys⟩ t.service :=
        .returns trivial returns
      exact (IocpService.step_connections (i := i) step :)

theorem Traced.handed (traced : Traced i j l) (once : IocpService.connections i l.near.service ≤ 1)
    (valid : (l.near.service.peers i).socket ≠ invalidSocket) : l.written ++ underWay i l.near.service <+: l.said.flatMap encode := by
  obtain ⟨taken,path,written,sends⟩ := traced.near
  obtain ⟨moves,tracked⟩ := server_tracked path
  have piped := (IocpService.piped_path tracked.path once).2 valid
  have front := underWay_front piped
  rw [IocpService.written,IocpService.sent,tracked.logs _ (writing_quiet i),tracked.logs _ (sends_quiet i),written,sends] at front
  exact front

theorem Carried.step {event : LinkEvent} (carried : Carried i j l) (step : LinkStep i j l event k) : Carried i j k := by
  obtain ⟨traced,handed,landed⟩ := carried
  have after := traced.step step
  cases step with
  | @near input x bodies moved whole short =>
    have more (few : IocpService.connections i x.service ≤ 1) : IocpService.connections i l.near.service ≤ 1 :=
      Nat.le_trans (serverStep_connections moved) few
    have longer : l.said.flatMap encode <+: (l.said ++ bodies).flatMap encode := by
      rw [List.flatMap_append]
      exact List.prefix_append _ _
    refine ⟨after,fun few => ?_,fun few => (landed (more few)).trans longer⟩
    by_cases shut : (x.service.peers i).socket = invalidSocket
    · have same : (l.spoke i input x bodies).handed = l.handed := if_pos shut
      rw [same]
      exact (handed (more few)).trans longer
    · have given : (l.spoke i input x bodies).handed = (l.spoke i input x bodies).written ++ underWay i x.service := if_neg shut
      rw [given]
      exact after.handed few shut
  | far moved brought => exact ⟨after,handed,fun few => brought.trans (handed few)⟩

-- A run that returns, on a state that can be evaluated.
def returns : EStateM.Result String IocpService Unit → Bool
  | .ok _ _ => true
  | .error _ _ => false

-- The near side says one message of a byte; its block is on the way when it arrives.
def say : ServerInput := ⟨.io (.send 0 0 ⟨[1,0,0,0,65],by decide⟩),⟨true,0⟩⟩
def kick : ServerInput := ⟨.io (.eventTick (.success 1 0 [])),⟨true,0⟩⟩
def saying : Server := kick.leads (say.leads greeted)
def met : Link := ⟨greeted,greeted,[],[],[],[]⟩
def said : Link := (met.spoke 0 say (say.leads greeted) [[65]]).spoke 0 kick saying []
end PcNetwork.NetEvent
