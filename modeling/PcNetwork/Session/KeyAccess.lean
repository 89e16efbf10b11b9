import PcNetwork.Session.ReadRoom
import PcNetwork.Session.Crypt

namespace PcNetwork
namespace NetPacket

-- The indices at which Encrypt and Decrypt read the key, in a loop as long as theirs.
def cryptReads (size : Nat) (len : Int) : Nat → Nat → Nat → List Nat
  | 0,_,_ => []
  | fuel+1,i,k =>
    if i < size then
      let k := if (k : Int) = len then 0 else k
      k :: cryptReads size len fuel (i+1) (k+1)
    else []

-- The result depends on nothing else of the key and the memory behind it.
theorem cryptLoop_reads {p : NetPacket} {seed other : List UInt8} {behind elsewhere : Nat → UInt8} {len : Int}
    {fuel i k : Nat} {body : List UInt8}
    (same : ∀ at_ ∈ cryptReads p.pktDataSize.toNat len fuel i k, seedAt seed behind at_ = seedAt other elsewhere at_) :
    cryptLoop p seed behind len fuel i k body = cryptLoop p other elsewhere len fuel i k body := by
  induction fuel generalizing i k body with
  | zero => rfl
  | succ fuel ih =>
    unfold cryptReads at same
    unfold cryptLoop
    by_cases inside : i < p.pktDataSize.toNat
    · simp only [if_pos inside] at same ⊢
      rw [same _ List.mem_cons_self]
      exact ih fun at_ member => same at_ (List.mem_cons_of_mem _ member)
    · rw [if_neg inside,if_neg inside]

theorem cryptReads_full {fuel i k : Nat} (low : k ≤ 16) : ∀ at_ ∈ cryptReads size 16 fuel i k, at_ < 16 := by
  induction fuel generalizing i k with
  | zero => nofun
  | succ fuel ih =>
    unfold cryptReads
    split
    · have round : (if (k : Int) = 16 then 0 else k) < 16 := by split <;> omega
      intro at_ member
      rcases List.mem_cons.mp member with rfl | later
      · exact round
      · exact ih round at_ later
    · nofun

-- A key of length 0 is not gone round.
theorem cryptReads_empty {fuel start : Nat} (enough : size ≤ start+5+fuel) :
    cryptReads size 0 fuel (start+5) start = (List.range (size-5-start)).map (start+·) := by
  induction fuel generalizing start with
  | zero =>
    have none : size-5-start = 0 := by omega
    rw [none]
    rfl
  | succ fuel ih =>
    have same : (if (start : Int) = 0 then 0 else start) = start := by split <;> omega
    unfold cryptReads
    by_cases inside : start+5 < size
    · simp only [if_pos inside,same]
      rw [show start+5+1 = start+1+5 by omega,ih (by omega),show size-5-start = size-5-(start+1)+1 by omega,
        List.range_succ_eq_map,List.map_cons,List.map_map]
      congr 1
      apply List.map_congr_left
      intro j _
      exact Nat.add_right_comm start 1 j ▸ rfl
    · have none : size-5-start = 0 := by omega
      rw [if_neg inside,none]
      rfl

end NetPacket

-- A call of Encrypt or Decrypt: the length of the key and of the payload.
structure KeyCall where
  len : Int
  dataSize : Nat

namespace KeyCall

def reads (c : KeyCall) : List Nat :=
  NetPacket.cryptReads c.dataSize c.len c.dataSize netPacketHeadSize.toNat 0

theorem reads_inside {c : KeyCall} (known : c.len = 0 ∨ c.len = 16) :
    (∀ k ∈ c.reads, k < maxNetSeedSize) ↔ c.len ≠ 0 ∨ c.dataSize ≤ 21 := by
  obtain ⟨len,size⟩ := c
  dsimp only at known
  unfold reads
  dsimp only
  rcases known with rfl | rfl
  · have reads : NetPacket.cryptReads size 0 size netPacketHeadSize.toNat 0 = _ :=
      NetPacket.cryptReads_empty (by omega : size ≤ 0+5+size)
    have limit : maxNetSeedSize = 16 := rfl
    rw [reads]
    constructor
    · intro inside
      refine .inr (Nat.le_of_not_lt fun long => ?_)
      have beyond := inside 16 (List.mem_map.mpr ⟨16,List.mem_range.mpr (by omega),rfl⟩)
      omega
    · intro short k member
      obtain ⟨j,bound,rfl⟩ := List.mem_map.mp member
      have := List.mem_range.mp bound
      have := short.resolve_left fun none => none rfl
      omega
  · exact ⟨fun _ => .inl nofun,fun _ => NetPacket.cryptReads_full (Nat.zero_le _)⟩

-- Then nothing of the memory behind the key gets into the packet.
theorem crypt_behind {p : NetPacket} {len : Int} {seed : List UInt8} (size : seed.length = maxNetSeedSize)
    (inside : ∀ k ∈ (KeyCall.mk len p.pktDataSize.toNat).reads, k < maxNetSeedSize) (behind other : Nat → UInt8) :
    p.crypt seed behind len = p.crypt seed other len := by
  unfold NetPacket.crypt
  congr 1
  apply NetPacket.cryptLoop_reads
  intro k member
  have bound : k < seed.length := size ▸ inside k member
  simp [NetPacket.seedAt,bound]

end KeyCall

namespace TcpSession

-- RecvPacket decrypts a frame that says so, and SendPacket encrypts what is no system
-- packet, both with whatever key there is.
def recvKeys (s : TcpSession) : List KeyCall :=
  let (ret,packet) := NetPacket.new.beginRead (s.readBuf.drop s.readPos.toNat) s.readLen
  if ret > 0 ∧ packet.isEncrypt then [⟨s.seedLen,packet.pktDataSize.toNat⟩] else []

def sendKeys (s : TcpSession) (packet : CmdPacket) (sys : Bool) : List KeyCall :=
  if s.state ≠ .connected ∨ sys = true then []
  else if s.bEncrypt then [⟨s.seedLen,(NetPacket.new.addCmdPacket packet).pktDataSize.toNat⟩]
  else []

-- The acknowledgements and the seed are system packets.
def keyCalls (t : Transition Machine MachineEvent) : List KeyCall :=
  match t.event with
  | .process o =>
    let s := (t.before.session.meet o).defProc
    if s.state = .waitingSeed then s.recvKeys else []
  | .proceeds o =>
    match t.before.stack with
    | .loop :: _ | .getting :: _ => (t.before.session.meet o).recvKeys
    | _ => []
  | .calls o (.sendPacket packet _ sys) => (t.before.session.meet o).sendKeys packet sys
  | .calls _ _ | .returns | .getPacket => []

-- The key is as long as the last seed but zero made it since the session was reset.
def Seeded (s : TcpSession) : Prop := s.seedLen = 0 ∨ s.seedLen = 16

theorem Seeded.same (seeded : Seeded s) (same : t.toKeys = s.toKeys) : Seeded t := by
  unfold Seeded
  rw [same]
  exact seeded

theorem setSeed_seeded (seeded : Seeded s) (seed : Int32) : Seeded (s.setSeed seed) := by
  unfold setSeed Keys.setSeed
  split
  · exact seeded
  · exact .inr rfl

theorem recvPacket_keys (s : TcpSession) : s.recvPacket.2.toKeys = s.toKeys := by
  unfold recvPacket
  dsimp only
  split
  · split
    · split <;> rfl
    · split <;> rfl
  · split <;> rfl

theorem readData_keys (ok : ReadOk s) : s.readData.toKeys = s.toKeys := by
  obtain ⟨side,times,last,filled,_,_⟩ := readData_parts ok
  rw [filled]

theorem defProc_keys (ok : ReadOk s) : s.defProc.toKeys = s.toKeys := by
  have flushed : ∀ t : TcpSession, t.toReadSide = s.toReadSide → t.toKeys = s.toKeys →
      t.flushData.readData.toKeys = s.toKeys := by
    intro t side keys
    rw [readData_keys (ok.same (by rw [flushData_toReceiver]; exact side)),flushData_toReceiver]
    exact keys
  unfold defProc getTime
  split
  · rfl
  · split
    · dsimp only
      split
      · split
        · rfl
        · exact flushed _ rfl rfl
      · split
        · rfl
        · exact flushed _ rfl rfl
    · exact readData_keys ok

theorem run_seeded (seeded : Seeded s) (call : AppCall) : Seeded (s.run call) := by
  cases call with
  | sendPacket packet flush sys => exact seeded.same (by rw [run,(sendPacket_outgoing s packet flush sys).toReceiver])
  | sendSeed seed =>
    have sent := sendPacket_outgoing s (sysPacket sysPacketSetSeed seed) true true
    exact setSeed_seeded (seeded.same (by rw [sent.toReceiver])) seed
  | setBufSize kb => exact seeded
  | close => exact .inl rfl
  | connect initialized bound started =>
    unfold run connect getTime
    dsimp only
    split
    · exact seeded
    · split
      · exact seeded
      · split <;> exact seeded
  | attach => exact seeded

theorem runSysPacket_seeded (seeded : Seeded s) (packet : CmdPacket) (stack : List Frame) :
    Seeded (s.runSysPacket packet stack).session := by
  unfold runSysPacket
  cases found : seedParam packet with
  | none =>
    obtain ⟨times,rtt,same⟩ := handleSysPacket_noSeed s packet found
    exact seeded.same (by rw [same.toReceiver])
  | some seed => exact setSeed_seeded (s := {s with calls := _}) seeded seed

theorem Takes.seeded {m : Machine} {after : List Frame} (takes : Takes s stack after m) (seeded : Seeded s) : Seeded m.session := by
  have keys := recvPacket_keys s
  have kept {found : Option NetPacket} {t : TcpSession} (took : s.recvPacket = (found,t)) : Seeded t := by
    rw [took] at keys
    exact seeded.same keys
  cases takes with
  | ended took | kept took => exact kept took
  | @given pkt t took call => exact Seeded.same (s := t) (kept took) rfl
  | handled took packet => exact runSysPacket_seeded (kept took) packet after

theorem step_seeded (ok : ReadOk m.session) (seeded : Seeded m.session) (step : MachineStep m event next) : Seeded next.session := by
  cases step with
  | process s o =>
    have read : Seeded (s.meet o).defProc := Seeded.same (s := s.meet o) seeded (defProc_keys (ok.same rfl))
    unfold runProcess
    dsimp only
    generalize (s.meet o).defProc = u at read
    cases u.state with
    | connected => exact read
    | dead => exact read
    | waitingSeed => exact (runWaiting_takes u).seeded read
    | connecting =>
      unfold runConnecting
      dsimp only
      split
      · exact .inl rfl
      · split
        · exact .inl rfl
        · split
          · exact read
          · split <;> exact read
    | zero => exact read
  | loop s o rest => exact (runLoop_takes (s.meet o) rest).seeded seeded
  | getting s o rest => exact (runGetting_takes (s.meet o) rest).seeded seeded
  | closing s o rest => exact .inl rfl
  | returns s rest => exact seeded
  | calls m o call => exact run_seeded (s := m.session.meet o) seeded call
  | getPacket m => exact seeded

theorem recvPacket_behind (s : TcpSession) (inside : ∀ c ∈ s.recvKeys, ∀ k ∈ c.reads, k < maxNetSeedSize)
    (behind : Nat → UInt8) :
    ({s with behindSeed := behind} : TcpSession).recvPacket = (s.recvPacket.1,{s.recvPacket.2 with behindSeed := behind}) := by
  unfold recvKeys at inside
  unfold recvPacket
  dsimp only at inside ⊢
  generalize NetPacket.new.beginRead (s.readBuf.drop s.readPos.toNat) s.readLen = answer at inside
  obtain ⟨ret,packet⟩ := answer
  dsimp only at inside ⊢
  by_cases some : ret > 0
  · have same : (if packet.isEncrypt then packet.decrypt s.seed behind s.seedLen else packet) =
        if packet.isEncrypt then packet.decrypt s.seed s.behindSeed s.seedLen else packet := by
      by_cases secret : packet.isEncrypt
      · rw [if_pos ⟨some,secret⟩] at inside
        have crypted := KeyCall.crypt_behind s.seedSize (inside _ (List.mem_singleton.mpr rfl)) behind s.behindSeed
        rw [if_pos secret,if_pos secret,NetPacket.decrypt,crypted]
        rfl
      · rw [if_neg secret,if_neg secret]
    simp only [if_pos some,same]
    generalize (if packet.isEncrypt then packet.decrypt s.seed s.behindSeed s.seedLen else packet) = clear
    split
    · split <;> rfl
    · rfl
  · simp only [if_neg some]
    split <;> rfl

theorem keyCalls_seeded (ok : ReadOk m.session) (seeded : Seeded m.session) (step : MachineStep m event next) :
    ∀ c ∈ keyCalls ⟨m,event,next⟩, c.len = 0 ∨ c.len = 16 := by
  have received : ∀ s : TcpSession, Seeded s → ∀ c ∈ s.recvKeys, c.len = 0 ∨ c.len = 16 := by
    intro s seeded c member
    unfold recvKeys at member
    dsimp only at member
    split at member
    · cases List.mem_singleton.mp member
      exact seeded
    · cases member
  cases step with
  | process s o =>
    intro c member
    have member : c ∈ if (s.meet o).defProc.state = .waitingSeed then (s.meet o).defProc.recvKeys else [] := member
    split at member
    · exact received _ (Seeded.same (s := s.meet o) seeded (defProc_keys (ok.same rfl))) c member
    · cases member
  | loop s o rest => exact received (s.meet o) seeded
  | getting s o rest => exact received (s.meet o) seeded
  | closing => nofun
  | returns => nofun
  | getPacket => nofun
  | calls m o call =>
    cases call with
    | sendPacket packet flush sys =>
      intro c member
      have member : c ∈ (m.session.meet o).sendKeys packet sys := member
      unfold sendKeys at member
      split at member
      · cases member
      · split at member
        · cases List.mem_singleton.mp member
          exact seeded
        · cases member
    | sendSeed seed => nofun
    | setBufSize kb => nofun
    | close => nofun
    | connect initialized bound started => nofun
    | attach => nofun

-- In every run the key is read within its bounds exactly if each frame that is encrypted
-- or decrypted without a key has at most 21 bytes.
theorem key_inside (s : TcpSession) (path : Path MachineStep ⟨s.reset,[]⟩ taken last) :
    (∀ t ∈ taken, ∀ c ∈ keyCalls t, ∀ k ∈ c.reads, k < maxNetSeedSize) ↔
      ∀ t ∈ taken, ∀ c ∈ keyCalls t, c.len ≠ 0 ∨ c.dataSize ≤ 21 := by
  have known := path.along (fun m => Room m ∧ Seeded m.session)
    (fun before event after => ∀ c ∈ keyCalls ⟨before,event,after⟩, c.len = 0 ∨ c.len = 16)
    ⟨(reset_roomy s).machine trivial,.inl rfl⟩
    (fun _ _ _ inv step => ⟨step_room inv.1 step,step_seeded inv.1.read inv.2 step⟩)
    (fun _ _ _ inv step => keyCalls_seeded inv.1.read inv.2 step)
  constructor
  · intro inside t member c call
    exact (KeyCall.reads_inside (known t member c call)).mp (inside t member c call)
  · intro short t member c call
    exact (KeyCall.reads_inside (known t member c call)).mpr (short t member c call)

-- A client that waits for the seed gets a frame that is marked as encrypted.
def zeros (n : Nat) : List UInt8 := [81,1,0,UInt8.ofNat n,0] ++ List.replicate n 0

def hostile (n : Nat) : MachineEvent := .process {(default : Outside) with recvs := [.data (zeros n)]}

def trying : TcpSession := (new.reset.meet default).run (.connect true true true)
def waitingClient : TcpSession := (trying.meet {(default : Outside) with writables := [true]}).process

theorem zeros_path (n : Nat) : ∃ earlier last,
    Path MachineStep ⟨new.reset,[]⟩
      (earlier ++ [⟨⟨waitingClient,[]⟩,hostile n,last⟩]) last ∧
    ∀ t ∈ earlier, keyCalls t = [] := by
  have connect := MachineStep.calls ⟨new.reset,[]⟩ default (.connect true true true) (.inl rfl) (fun _ => nofun)
  have connected := MachineStep.process trying {(default : Outside) with writables := [true]}
  refine ⟨_,_,.step (.step (.step .nil connect) connected) (.process waitingClient _),?_⟩
  intro t member
  rcases List.mem_append.mp member with old | new
  · cases List.mem_singleton.mp old
    rfl
  · cases List.mem_singleton.mp new
    rfl

theorem key_inside_short : ∃ last c, keyCalls ⟨⟨waitingClient,[]⟩,hostile 21,last⟩ = [c] ∧ ∀ k ∈ c.reads, k < maxNetSeedSize := by
  obtain ⟨earlier,last,path,quiet⟩ := zeros_path 21
  have only : keyCalls ⟨⟨waitingClient,[]⟩,hostile 21,last⟩ = [⟨0,21⟩] := by
    simp only [keyCalls,hostile]
    rfl
  have inside := (key_inside new path).mpr (by
    intro t member c call
    rcases List.mem_append.mp member with old | now
    · rw [quiet t old] at call
      cases call
    · cases List.mem_singleton.mp now
      rw [only] at call
      cases List.mem_singleton.mp call
      exact .inr (Nat.le_refl 21))
  refine ⟨last,_,only,inside _ (List.mem_append_right _ (List.mem_singleton.mpr rfl)) _ ?_⟩
  rw [only]
  exact List.mem_singleton.mpr rfl

theorem key_outside :
    ¬ ∀ (s : TcpSession) (taken : List (Transition Machine MachineEvent)) (last : Machine),
      Path MachineStep ⟨s.reset,[]⟩ taken last → ∀ t ∈ taken, ∀ c ∈ keyCalls t, ∀ k ∈ c.reads, k < maxNetSeedSize := by
  intro inside
  obtain ⟨earlier,last,path,_⟩ := zeros_path 22
  have only : keyCalls ⟨⟨waitingClient,[]⟩,hostile 22,last⟩ = [⟨0,22⟩] := by
    simp only [keyCalls,hostile]
    rfl
  have outside := inside new _ _ path _ (List.mem_append_right _ (List.mem_singleton.mpr rfl)) ⟨0,22⟩
    (by rw [only]; exact List.mem_singleton.mpr rfl) 16 (by decide)
  exact absurd outside (by decide)

end TcpSession
end PcNetwork
