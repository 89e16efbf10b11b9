import Mathlib.Logic.Function.Basic
import PcNetwork.Library.InOrder
import PcNetwork.Netlib.NetPacket

namespace PcNetwork.Netlib

def icNull : UInt16 := 0
def icBegin : UInt16 := 1
def icEnd : UInt16 := 60000
def nlibpIcOk : UInt16 := 0x0203
def nlibpDisconnect : UInt16 := 0x0003

namespace NetPacket

def htons (w : UInt16) : List UInt8 := [UInt8.ofNat (w.toNat/256),UInt8.ofNat (w.toNat%256)]

def getIC (p : NetPacket) : UInt16 := UInt16.ofNat (ntohs p.data 0)
def setIC (p : NetPacket) (ic : UInt16) : NetPacket := {p with data := Block.patch p.data 0 (htons ic)}
def setCmd (p : NetPacket) (cmd : UInt16) : NetPacket :=
  {p with data := Block.patch p.data packetHeaderSize (htons cmd)}

def write16 (p : NetPacket) (w : UInt16) : NetPacket :=
  if p.cursor ≤ p.maxDataSize-2 then
    {p with data := Block.patch p.data p.cursor.toNat (htons w),cursor := p.cursor+2}
  else p

@[simp] theorem getIC_setIC (p : NetPacket) (ic : UInt16) : (p.setIC ic).getIC = ic := by
  have high : ic.toNat/256 < 256 := Nat.div_lt_of_lt_mul ic.toNat_lt
  have bytes : ntohs (p.setIC ic).data 0 = ic.toNat := by
    simp only [ntohs,setIC,Block.patch,htons,List.take_zero,List.nil_append,List.cons_append,
      List.getD_cons_zero,List.getD_cons_succ,UInt8.toNat_ofNat',Nat.reducePow]
    omega
  rw [getIC,bytes,UInt16.ofNat_toNat]

end NetPacket

-- The counters of NET_Session, the packets kept for resending, and the packets
-- handed to send, which is virtual.
structure NetSession where
  indexSendCheck : UInt16
  indexRecvCheck : UInt16
  mapPacketImage : UInt16 → Option NetPacket
  sending : List NetPacket

namespace NetSession

def new : NetSession := ⟨icBegin,icBegin,fun _ => none,[]⟩

def send (s : NetSession) (p : NetPacket) : NetSession := {s with sending := s.sending ++ [p]}

-- The packet as it is after the call comes first.
def markIndex (s : NetSession) (ptrPacket : Option NetPacket) : Option NetPacket × NetSession :=
  match ptrPacket with
  | none => (none,s)
  | some p =>
    let p := p.setIC s.indexSendCheck
    let s := {s with mapPacketImage := Function.update s.mapPacketImage s.indexSendCheck (some p)}
    let s := {s with indexSendCheck := s.indexSendCheck+1}
    if s.indexSendCheck % 16 = 0 then
      if s.indexSendCheck > icEnd then (some p,{s with indexSendCheck := icBegin}) else (some p,s)
    else (some p,s)

def checkIndex (s : NetSession) (ptrPacket : Option NetPacket) : Bool × NetSession :=
  match ptrPacket with
  | none => (true,s)
  | some p =>
    if p.getIC = icNull then (true,s)
    else if s.indexRecvCheck = p.getIC then
      let s := {s with indexRecvCheck := s.indexRecvCheck+1}
      if s.indexRecvCheck % 16 = 0 then
        let s := s.send ((NetPacket.new.setCmd nlibpIcOk).write16 s.indexRecvCheck)
        if s.indexRecvCheck > icEnd then (true,{s with indexRecvCheck := icBegin}) else (true,s)
      else (true,s)
    else (false,s)

-- Both counters go round in the same way, at the first multiple of 16 behind icEnd.
def next (i : UInt16) : UInt16 :=
  if (i+1) % 16 = 0 then if i+1 > icEnd then icBegin else i+1 else i+1

def period : Nat := 60015
def indexOf (n : Nat) : Nat := n % period+1

theorem next_index (here : i.toNat = indexOf n) : (next i).toNat = indexOf (n+1) := by
  unfold indexOf period at here ⊢
  have above : (i+1).toNat = i.toNat+1 := by
    rw [UInt16.toNat_add,UInt16.toNat_one]
    omega
  have stop : (i+1) % 16 = 0 ↔ (i.toNat+1) % 16 = 0 := by
    rw [← UInt16.toNat_inj,UInt16.toNat_mod,above]
    exact .rfl
  have late : i+1 > icEnd ↔ i.toNat+1 > 60000 := by
    rw [gt_iff_lt,UInt16.lt_iff_toNat_lt,above]
    exact .rfl
  unfold next
  simp only [stop,late]
  split
  · split
    · show 1 = _
      omega
    · omega
  · omega

theorem markIndex_some (s : NetSession) (p : NetPacket) :
    (s.markIndex (some p)).1 = some (p.setIC s.indexSendCheck) ∧
    (s.markIndex (some p)).2.indexSendCheck = next s.indexSendCheck ∧
    (s.markIndex (some p)).2.indexRecvCheck = s.indexRecvCheck := by
  unfold markIndex next
  dsimp only
  split
  · split <;> exact ⟨rfl,rfl,rfl⟩
  · exact ⟨rfl,rfl,rfl⟩

theorem checkIndex_null (s : NetSession) (null : p.getIC = icNull) : s.checkIndex (some p) = (true,s) :=
  if_pos null

theorem checkIndex_other (s : NetSession) (marked : p.getIC ≠ icNull) (other : s.indexRecvCheck ≠ p.getIC) :
    s.checkIndex (some p) = (false,s) :=
  (if_neg marked).trans (if_neg other)

theorem checkIndex_same (s : NetSession) (marked : p.getIC ≠ icNull) (same : s.indexRecvCheck = p.getIC) :
    (s.checkIndex (some p)).1 = true ∧
    (s.checkIndex (some p)).2.indexRecvCheck = next s.indexRecvCheck ∧
    (s.checkIndex (some p)).2.indexSendCheck = s.indexSendCheck := by
  unfold checkIndex next
  dsimp only
  rw [if_neg marked,if_pos same]
  split
  · unfold send
    dsimp only
    split <;> exact ⟨rfl,rfl,rfl⟩
  · exact ⟨rfl,rfl,rfl⟩

end NetSession

-- Two sessions that send each other indexed packets. Each has marked some packets, and
-- has found some of the other's to be the next.
inductive Side where
  | left
  | right
deriving DecidableEq

def Side.other : Side → Side
  | .left => .right
  | .right => .left

structure Link where
  session : Side → NetSession
  sent : Side → List NetPacket
  accepted : Side → List NetPacket

namespace Link
open NetSession

def start : Link := ⟨fun _ => .new,fun _ => [],fun _ => []⟩

def marks (l : Link) (side : Side) (p : NetPacket) : Link :=
  let call := (l.session side).markIndex (some p)
  {l with
    session := Function.update l.session side call.2
    sent := Function.update l.sent side (l.sent side ++ call.1.toList)}

def checks (l : Link) (side : Side) (p : NetPacket) : Link :=
  let call := (l.session side).checkIndex (some p)
  {l with
    session := Function.update l.session side call.2
    accepted :=
      if call.1 ∧ p.getIC ≠ icNull then Function.update l.accepted side (l.accepted side ++ [p])
      else l.accepted}

end Link

-- The channel hands over any packet the other side has marked, at any time and again,
-- and packets without an index, such as the acknowledgements.
inductive LinkEvent where
  | marks (side : Side) (p : NetPacket)
  | arrives (side : Side) (position : Nat)
  | unmarked (side : Side) (p : NetPacket)

inductive LinkStep : Link → LinkEvent → Link → Prop where
  | marks (side : Side) (p : NetPacket) : LinkStep l (.marks side p) (l.marks side p)
  | arrives (side : Side) (position : Nat) (found : (l.sent side.other)[position]? = some p) :
      LinkStep l (.arrives side position) (l.checks side p)
  | unmarked (side : Side) (null : p.getIC = icNull) : LinkStep l (.unmarked side p) (l.checks side p)

namespace Link
open NetSession

def InWindow (l : Link) : LinkEvent → Prop
  | .arrives side position => (((l.accepted side).length : Int)-position).natAbs < period
  | _ => True

end Link

-- Counters and headers are the positions in the order of sending, and of acceptance.
structure Numbered (s : NetSession) (sent accepted : List NetPacket) : Prop where
  sending : s.indexSendCheck.toNat = NetSession.indexOf sent.length
  receiving : s.indexRecvCheck.toNat = NetSession.indexOf accepted.length
  marked (position : Nat) (p : NetPacket) (found : sent[position]? = some p) :
    p.getIC.toNat = NetSession.indexOf position

namespace NetSession

theorem indexOf_marked {p : NetPacket} (numbered : p.getIC.toNat = indexOf n) : p.getIC ≠ icNull := by
  intro null
  rw [null] at numbered
  exact Nat.succ_ne_zero _ numbered.symm

theorem new_numbered : Numbered new [] [] := ⟨rfl,rfl,nofun⟩

theorem markIndex_numbered (inv : Numbered s sent accepted) (p : NetPacket) :
    Numbered (s.markIndex (some p)).2 (sent ++ (s.markIndex (some p)).1.toList) accepted := by
  obtain ⟨packet,index,kept⟩ := markIndex_some s p
  rw [packet]
  refine ⟨?_,kept ▸ inv.receiving,?_⟩
  · rw [index]
    exact (next_index inv.sending).trans (by simp)
  · intro position q found
    simp only [Option.toList_some,List.getElem?_append,List.getElem?_singleton] at found
    split at found
    · exact inv.marked position q found
    · split at found
      · cases found
        rw [NetPacket.getIC_setIC,inv.sending]
        congr 1
        omega
      · cases found

theorem checkIndex_numbered (inv : Numbered s sent accepted) (p : NetPacket) :
    Numbered (s.checkIndex (some p)).2 sent
      (if (s.checkIndex (some p)).1 ∧ p.getIC ≠ icNull then accepted ++ [p] else accepted) := by
  by_cases null : p.getIC = icNull
  · rw [checkIndex_null s null,if_neg (fun both => both.2 null)]
    exact inv
  · by_cases same : s.indexRecvCheck = p.getIC
    · obtain ⟨answer,index,kept⟩ := checkIndex_same s null same
      rw [if_pos ⟨answer,null⟩]
      refine ⟨kept ▸ inv.sending,?_,inv.marked⟩
      rw [index]
      exact (next_index inv.receiving).trans (by simp)
    · rw [checkIndex_other s null same,if_neg (fun both => Bool.false_ne_true both.1)]
      exact inv

-- In the window the index of a packet says which one it is.
theorem checkIndex_iff (inv : Numbered s sent accepted) (numbered : p.getIC.toNat = indexOf position)
    (window : ((accepted.length : Int)-position).natAbs < period) :
    (s.checkIndex (some p)).1 = true ↔ position = accepted.length := by
  have marked := indexOf_marked numbered
  have index := inv.receiving
  unfold indexOf period at *
  constructor
  · intro answer
    by_cases same : s.indexRecvCheck = p.getIC
    · rw [same,numbered] at index
      omega
    · rw [checkIndex_other s marked same] at answer
      cases answer
  · intro here
    rw [here,← index] at numbered
    exact (checkIndex_same s marked (UInt16.toNat_inj.mp numbered.symm)).1

end NetSession

namespace Link
open NetSession

def Sound (l : Link) : Prop := ∀ side, Numbered (l.session side) (l.sent side) (l.accepted side)

theorem marks_sound (inv : Sound l) : Sound (l.marks side p) := by
  intro other
  by_cases same : other = side
  · subst same
    simp only [marks,Function.update_self]
    exact markIndex_numbered (inv other) p
  · simp only [marks,Function.update_of_ne same]
    exact inv other

theorem checks_sound (inv : Sound l) : Sound (l.checks side p) := by
  intro other
  have own := checkIndex_numbered (inv side) p
  unfold checks
  by_cases same : other = side
  · subst same
    simp only [Function.update_self]
    split at own
    · rename_i next
      rw [if_pos next,Function.update_self]
      exact own
    · rename_i next
      rw [if_neg next]
      exact own
  · simp only [Function.update_of_ne same]
    split
    · rw [Function.update_of_ne same]
      exact inv other
    · exact inv other

theorem step_sound (inv : Sound before) (step : LinkStep before event after) : Sound after := by
  cases step with
  | marks => exact marks_sound inv
  | arrives => exact checks_sound inv
  | unmarked => exact checks_sound inv

-- What a side sees of the link is a channel that delivers in order.
def view (l : Link) (side : Side) : InOrder NetPacket := ⟨l.sent side.other,l.accepted side⟩

def viewed (side : Side) (t : Transition Link LinkEvent) : InOrderEvent NetPacket :=
  match t.event with
  | .marks other p =>
    if other = side.other then .sends (p.setIC (t.before.session other).indexSendCheck) else .rests
  | .arrives other position => if other = side then .arrives position else .rests
  | .unmarked _ _ => .rests

theorem step_viewed (side : Side) (inv : Sound before) (window : before.InWindow event) (step : LinkStep before event after) :
    InOrderStep (before.view side) (viewed side ⟨before,event,after⟩) (after.view side) := by
  cases step with
  | marks other p =>
    unfold viewed view marks
    dsimp only
    obtain ⟨packet,_⟩ := markIndex_some (before.session other) p
    rw [packet]
    split
    · rename_i same
      subst same
      rw [Function.update_self]
      exact .sends
    · rename_i differs
      rw [Function.update_of_ne (Ne.symm differs)]
      exact .rests
  | arrives other position found =>
    have numbered := (inv other.other).marked position _ found
    have answer := checkIndex_iff (inv other) numbered window
    unfold viewed view checks
    dsimp only
    by_cases same : other = side
    · subst same
      rw [if_pos rfl]
      by_cases here : position = (before.accepted other).length
      · subst here
        rw [if_pos ⟨answer.mpr rfl,indexOf_marked numbered⟩,Function.update_self]
        exact .accepts found
      · rw [if_neg (fun both => here (answer.mp both.1))]
        exact .ignores here
    · rw [if_neg same]
      split
      · rw [Function.update_of_ne (Ne.symm same)]
        exact .rests
      · exact .rests
  | unmarked other null =>
    unfold viewed view checks
    dsimp only
    rw [if_neg (fun both => both.2 null)]
    exact .rests

theorem accepted_in_order (path : Path LinkStep start taken last)
    (window : ∀ t ∈ taken, t.before.InWindow t.event) (side : Side) :
    last.accepted side = (last.sent side.other).take (last.accepted side).length := by
  have restricted := path.restrict Link.InWindow window
  obtain ⟨seen,run,⟨_,rfl⟩,abstract,_⟩ :=
    restricted.simulates (fun l q => Sound l ∧ q = l.view side) (viewed side) ⟨fun _ => new_numbered,rfl⟩ (by
      rintro before event after q ⟨inv,rfl⟩ ⟨step,meets⟩
      exact ⟨_,⟨step_sound inv step,rfl⟩,step_viewed side inv meets step⟩)
  exact inOrder_accepted abstract

-- The indices go through 1 to 60015 again and again on both sides, and in a window of
-- less than one round check_index says exactly which packet is the next one.
theorem index_protocol (path : Path LinkStep start taken last) (side : Side) :
    (∀ (position : Nat) (p : NetPacket), (last.sent side)[position]? = some p →
      p.getIC.toNat = position % 60015+1 ∧ p.getIC ≠ icNull) ∧
    (last.session side).indexRecvCheck.toNat = (last.accepted side).length % 60015+1 ∧
    ((∀ t ∈ taken, t.before.InWindow t.event) →
      last.accepted side = (last.sent side.other).take (last.accepted side).length) ∧
    ∀ (position : Nat) (p : NetPacket), (last.sent side.other)[position]? = some p →
      last.InWindow (.arrives side position) →
      (((last.session side).checkIndex (some p)).1 = true ↔ position = (last.accepted side).length) := by
  have inv := path.invariant Sound (fun _ => new_numbered) fun _ _ _ => step_sound
  refine ⟨?_,(inv side).receiving,fun window => accepted_in_order path window side,?_⟩
  · intro position p found
    have numbered := (inv side).marked position p found
    exact ⟨numbered,indexOf_marked numbered⟩
  · intro position p found window
    exact checkIndex_iff (inv side) ((inv side.other).marked position p found) window

-- The first packet arrives twice.
theorem index_protocol_twice :
    let first := NetPacket.new.setIC icBegin
    let link := (start.marks .left .new).checks .right first
    link.accepted .right = [first] ∧ ((link.session .right).checkIndex (some first)).1 ≠ true := by
  intro first link
  have path := Path.step (.step .nil (.marks .left .new))
    (LinkStep.arrives (l := start.marks .left .new) (p := first) .right 0 rfl)
  obtain ⟨_,_,accepted,answer⟩ := index_protocol path .right
  refine ⟨accepted ?_,fun again => ?_⟩
  · intro t member
    rcases List.mem_append.mp member with old | new
    · cases List.mem_singleton.mp old
      trivial
    · cases List.mem_singleton.mp new
      exact Nat.zero_lt_succ _
  · cases (answer 0 _ rfl (Nat.succ_lt_succ (Nat.zero_lt_succ _))).mp again

end Link
end PcNetwork.Netlib
