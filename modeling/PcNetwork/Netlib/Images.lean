import PcNetwork.Netlib.Acknowledge

namespace PcNetwork.Netlib

namespace NetSession

-- A session that has accepted the packets in front of this position in the order of
-- sending says so with this index.
inductive Acknowledges : Nat → UInt16 → Prop where
  | sent (r : NetSession) (p : NetPacket) (expects : r.indexRecvCheck.toNat = indexOf n)
      (answers : (r.checkIndex (some p)).2.sending = r.sending ++ [NetPacket.indexed nlibpIcOk ic]) : Acknowledges (n+1) ic

theorem checkIndex_sending (r : NetSession) (p : NetPacket) : (r.checkIndex (some p)).2.sending = r.sending ∨
    (r.checkIndex (some p)).2.sending = r.sending ++ [NetPacket.indexed nlibpIcOk (r.indexRecvCheck+1)] := by
  unfold checkIndex
  dsimp only
  split
  · exact .inl rfl
  · split
    · split
      · split <;> exact .inr rfl
      · exact .inl rfl
    · exact .inl rfl

-- The index is the one behind that of the packet before the position, also where the
-- counter goes round.
theorem Acknowledges.index (acknowledges : Acknowledges m ic) : ∃ n, m = n+1 ∧ ic.toNat = indexOf n+1 := by
  cases acknowledges with
  | @sent n _ r p expects answers =>
    refine ⟨n,rfl,?_⟩
    have bounds := TcpSession.indexOf_bounds n
    have above : (r.indexRecvCheck+1).toNat = indexOf n+1 := by
      rw [UInt16.toNat_add,UInt16.toNat_one]
      omega
    rcases checkIndex_sending r p with silent | message
    · cases List.self_eq_append_right.mp (silent.symm.trans answers)
    · rw [message] at answers
      have same := List.singleton_inj.mp (List.append_cancel_left answers)
      have written := (NetPacket.indexed_parts nlibpIcOk (r.indexRecvCheck+1)).2.2.1
      rw [same,(NetPacket.indexed_parts nlibpIcOk ic).2.2.1] at written
      rw [written,above]

end NetSession

namespace TcpSession
open NetSession

variable {s : TcpSession}

-- What the loop of update_ic_image deletes.
def released (s : TcpSession) (lastIc : UInt16) (image : UInt16 × Nat) : Bool :=
  let d : Int := lastIc.toNat-(s.packets image.2).getIC.toNat
  decide (d > 0 ∧ d < 16*100)

theorem updateLoop_cons (lastIc : UInt16) (kept rest : List (UInt16 × Nat)) (image : UInt16 × Nat) (s : TcpSession) :
    updateLoop lastIc kept (image :: rest) s =
      if s.released lastIc image = true then
        updateLoop lastIc kept rest (({s.touch image.2 with mapPacketImage := kept ++ rest} : TcpSession).delete image.2)
      else updateLoop lastIc (kept ++ [image]) rest (s.touch image.2) := by
  unfold released
  simp only [decide_eq_true_eq]
  rfl

theorem updateLoop_parts (lastIc : UInt16) (kept rest : List (UInt16 × Nat)) (shape : s.mapPacketImage = kept ++ rest) :
    (updateLoop lastIc kept rest s).mapPacketImage = kept ++ rest.filter (fun image => !s.released lastIc image) ∧
    (updateLoop lastIc kept rest s).ledger.deleted = s.ledger.deleted ++ (rest.filter (s.released lastIc)).map Prod.snd := by
  induction rest generalizing kept s with
  | nil => exact ⟨shape,(List.append_nil _).symm⟩
  | cons image rest ih =>
    have same : (s.touch image.2).ledger.deleted = s.ledger.deleted := by
      show (s.ledger.touch image.2).deleted = _
      unfold Ledger.touch
      split <;> rfl
    rw [updateLoop_cons]
    by_cases stale : s.released lastIc image = true
    · rw [if_pos stale]
      obtain ⟨left,gone⟩ := ih kept (s := ({s.touch image.2 with mapPacketImage := kept ++ rest} : TcpSession).delete image.2) rfl
      refine ⟨left.trans ?_,gone.trans ?_⟩
      · rw [List.filter_cons_of_neg (by simp [stale])]
        rfl
      · rw [List.filter_cons_of_pos stale]
        show (s.touch image.2).ledger.deleted ++ [image.2] ++ _ = _
        rw [same,List.append_assoc]
        rfl
    · rw [if_neg stale]
      have shape' : (s.touch image.2).mapPacketImage = kept ++ [image] ++ rest := by
        rw [List.append_assoc]
        exact shape
      obtain ⟨left,gone⟩ := ih (kept ++ [image]) shape'
      refine ⟨left.trans ?_,gone.trans ?_⟩
      · rw [List.filter_cons_of_pos (by simp [stale]),List.append_assoc]
        rfl
      · rw [List.filter_cons_of_neg stale,same]
        rfl

-- The images are packets of fewer than 1600 consecutive positions, each with the index
-- that mark_index gave it.
structure Imaged (s : TcpSession) (place : UInt16 × Nat → Nat) (first width : Nat) : Prop where
  short : width < 1600
  within : ∀ image ∈ s.mapPacketImage, first ≤ place image ∧ place image < first+width
  marked : ∀ image ∈ s.mapPacketImage, (s.packets image.2).getIC.toNat = indexOf (place image)

-- What an acknowledgement is for: the packets in front of the position are deleted, the
-- others stay.
structure Settles (s after : TcpSession) (place : UInt16 × Nat → Nat) (m : Nat) : Prop where
  kept : after.mapPacketImage = s.mapPacketImage.filter fun image => !decide (place image < m)
  deleted : after.ledger.deleted = s.ledger.deleted ++ (s.mapPacketImage.filter fun image => decide (place image < m)).map Prod.snd

-- Whether the indices have gone round between the two positions.
def SameRound (n m : Nat) : Prop := n/period = (m-1)/period

-- The difference of the indices is that of the positions as long as the indices do not
-- go round between them. Then it is outside the window.
theorem released_iff {image : UInt16 × Nat} (acknowledges : Acknowledges m ic) (marked : (s.packets image.2).getIC.toNat = indexOf n)
    (low : n < m+1600) (high : m < n+1600) : s.released ic image = true ↔ n < m ∧ SameRound n m := by
  obtain ⟨before,rfl,index⟩ := acknowledges.index
  have round : period = 60015 := rfl
  unfold released SameRound
  dsimp only
  rw [decide_eq_true_iff,index,marked,Nat.add_sub_cancel]
  unfold indexOf
  rw [round]
  omega

theorem updateIcImage_settles_iff {place : UInt16 × Nat → Nat} {first width : Nat} (imaged : Imaged s place first width)
    (acknowledges : Acknowledges m ic) (low : first ≤ m) (high : m ≤ first+width) :
    Settles s (s.updateIcImage ic) place m ↔ ∀ image ∈ s.mapPacketImage, place image < m → SameRound (place image) m := by
  obtain ⟨short,within,marked⟩ := imaged
  have exactly (image : UInt16 × Nat) (member : image ∈ s.mapPacketImage) :
      s.released ic image = true ↔ place image < m ∧ SameRound (place image) m := by
    have bounds := within image member
    exact released_iff acknowledges (marked image member) (by omega) (by omega)
  obtain ⟨left,gone⟩ := updateLoop_parts (s := {s with calls := s.calls ++ [IcCall.updateIcImage ic]}) ic [] s.mapPacketImage rfl
  constructor
  · rintro ⟨kept,_⟩ image member before
    by_contra round
    have stays : image ∈ (s.updateIcImage ic).mapPacketImage := by
      refine (congrArg (image ∈ ·) left).mpr (List.mem_filter.mpr ⟨member,?_⟩)
      have other : ¬ s.released ic image = true := fun stale => round ((exactly image member).mp stale).2
      exact (congrArg (!·) (Bool.eq_false_iff.mpr other)).trans rfl
    rw [kept] at stays
    have late := (List.mem_filter.mp stays).2
    rw [decide_eq_true before] at late
    cases late
  · intro rounds
    have same (image : UInt16 × Nat) (member : image ∈ s.mapPacketImage) : s.released ic image = decide (place image < m) := by
      rw [Bool.eq_iff_iff,exactly image member,decide_eq_true_iff]
      exact ⟨And.left,fun before => ⟨before,rounds image member before⟩⟩
    constructor
    · refine left.trans (List.filter_congr fun image member => ?_)
      exact congrArg (!·) (same image member)
    · refine gone.trans (congrArg (s.ledger.deleted ++ List.map Prod.snd ·) (List.filter_congr ?_))
      exact same

-- A session that keeps the packet of one index.
def keeping (ic : UInt16) : TcpSession :=
  {new with packets := fun _ => NetPacket.new.setIC ic,mapPacketImage := [(ic,0)],ledger := Ledger.new.alloc}

-- What is sent where the packet with the index 15 is expected and comes.
theorem sixteen_acknowledged (expected : 15 = indexOf n) : Acknowledges (n+1) 16 :=
  .sent {NetSession.new with indexRecvCheck := 15} (NetPacket.new.setIC 15) expected (by rfl)

theorem updateIcImage_settles_fourth : Settles (keeping 4) ((keeping 4).updateIcImage 16) (fun _ => 3) 15 := by
  have imaged : Imaged (keeping 4) (fun _ => 3) 3 20 :=
    ⟨by decide,fun _ _ => by decide,List.forall_mem_singleton.mpr (congrArg UInt16.toNat (NetPacket.getIC_setIC _ 4))⟩
  exact (updateIcImage_settles_iff imaged (sixteen_acknowledged (n := 14) rfl) (by decide) (by decide)).mpr fun _ _ _ => rfl

-- The packet before the last of one round, and an acknowledgement from the next.
theorem updateIcImage_unsettled :
    ¬ ∀ (s : TcpSession) (place : UInt16 × Nat → Nat) (first width m : Nat) (ic : UInt16), Imaged s place first width →
      Acknowledges m ic → first ≤ m → m ≤ first+width → Settles s (s.updateIcImage ic) place m := by
  intro settles
  have imaged : Imaged (keeping 60014) (fun _ => 60013) 60013 20 :=
    ⟨by decide,fun _ _ => by decide,List.forall_mem_singleton.mpr (congrArg UInt16.toNat (NetPacket.getIC_setIC _ 60014))⟩
  have kept := (settles _ _ _ _ _ _ imaged (sixteen_acknowledged (n := 60029) rfl) (by decide) (by decide)).kept
  have still : ((keeping 60014).updateIcImage 16).mapPacketImage = [(60014,0)] := rfl
  rw [still] at kept
  cases kept

end TcpSession
end PcNetwork.Netlib
