import PcNetwork.Netlib.Streams

namespace PcNetwork.Netlib
namespace TcpSocket

-- The packets that the loop over the frames holds one after the other.
inductive Held (packet : NetPacket) : NetPacket → Prop where
  | first : Held packet packet
  | next : Held packet p → p.isCling = true → p.getClingPacket = some q → Held packet q

-- The bytes that are left after a round of the loop.
def left : Option NetPacket → Int
  | none => 0
  | some p => p.datalen

-- The loop comes to an end, whatever the session does with the packets, and takes at
-- least a byte each time.
structure Ends (packet : NetPacket) : Prop where
  stops : ∃ fuel, ∀ {T : Type} [Session T] (e : Entry T) closes times, (pushLoop fuel packet e closes times).isSome
  consumes : ∀ p, Held packet p → p.isCling = true → left p.getClingPacket < p.datalen

-- The packets of the loop are what is left of the content.
theorem Held.ok (held : Held packet p) (ok : packet.Ok) (sound : (frames.split packet.content).2 ≠ .broken) :
    p.Ok ∧ (frames.split p.content).2 ≠ .broken := by
  induction held with
  | first => exact ⟨ok,sound⟩
  | next _ cling next ih =>
    obtain ⟨fine,whole⟩ := ih
    rcases NetPacket.isCling_parts fine with ⟨_,waits⟩ | ⟨bad,_⟩ | ⟨rest,found,_,⟨_,last⟩ | ⟨q,_,more,good,content⟩⟩
    · rw [cling] at waits
      cases waits
    · rw [frames.split_bad bad] at whole
      exact absurd rfl whole
    · rw [next] at last
      cases last
    · rw [next] at more
      cases more
      rw [frames.split_frame found] at whole
      rw [content]
      exact ⟨good,whole⟩

-- A header whose length is zero leaves the loop with what it had.
theorem pushLoop_broken {T : Type} [Session T] {packet : NetPacket} (ok : packet.Ok)
    (broken : (frames.split packet.content).2 = .broken) (fuel : Nat) (e : Entry T) (closes : Bool) (times : List UInt32) :
    pushLoop fuel packet e closes times = none := by
  induction fuel generalizing packet e closes times with
  | zero => rfl
  | succ fuel ih =>
    unfold pushLoop
    rcases NetPacket.isCling_parts ok with ⟨more,_⟩ | ⟨bad,cling,empty,some⟩ | ⟨rest,found,cling,after⟩
    · rw [frames.split_more more] at broken
      cases broken
    · obtain ⟨q,next,fine,content,_⟩ := NetPacket.getClingPacket_behind ok (by omega)
      rw [empty,List.drop_zero] at content
      rw [if_pos cling,next]
      apply ih fine
      rw [content]
      exact broken
    · rw [frames.split_frame found] at broken
      rcases after with ⟨none,_⟩ | ⟨q,_,next,fine,content⟩
      · rw [none,frames.split_nil] at broken
        cases broken
      · rw [if_pos cling,next]
        apply ih fine
        rw [content]
        exact broken

-- The loop ends exactly if it meets no header whose length is zero.
theorem cling_loop_ends {packet : NetPacket} (ok : packet.Ok) :
    Ends packet ↔ (frames.split packet.content).2 ≠ .broken := by
  constructor
  · rintro ⟨⟨fuel,ends⟩,_⟩ broken
    have stuck := pushLoop_broken ok broken fuel (⟨0,⟨0⟩,[],[],false⟩ : Entry Listener) false []
    have returned := ends (⟨0,⟨0⟩,[],[],false⟩ : Entry Listener) false []
    rw [stuck] at returned
    cases returned
  · intro sound
    refine ⟨⟨packet.content.length+1,?_⟩,?_⟩
    · intro T _ e closes times
      obtain ⟨rest,waits⟩ : ∃ rest, (frames.split packet.content).2 = .waiting rest := by
        cases tail : (frames.split packet.content).2 with
        | waiting rest => exact ⟨rest,rfl⟩
        | broken => exact absurd tail sound
      obtain ⟨_,_,_,_,_,ran,_⟩ := pushLoop_parts ok (Nat.lt_succ_self _) (Prod.ext rfl waits) e closes times
      rw [ran]
      rfl
    · intro p held cling
      obtain ⟨fine,whole⟩ := held.ok ok sound
      have before := fine.length_content
      rcases NetPacket.isCling_parts fine with ⟨_,waits⟩ | ⟨bad,_⟩ | ⟨rest,found,_,⟨_,last⟩ | ⟨q,_,next,good,content⟩⟩
      · rw [cling] at waits
        cases waits
      · rw [frames.split_bad bad] at whole
        exact absurd rfl whole
      · have shorter := frames.consumes found
        rw [last,left]
        omega
      · have shorter := frames.consumes found
        have after := good.length_content
        rw [content] at after
        rw [next,left]
        omega

-- What a socket that gives these bytes leaves in a new packet.
def received (bytes : List UInt8) : NetPacket := (NetPacket.new.recv (some bytes)).2

theorem received_ok (bytes : List UInt8) : (received bytes).Ok := (NetPacket.recv_ok NetPacket.new_ok).2.1

theorem cling_loop_ends_frames : Ends (received [0,0,0,0,0,8,0,1,0,0,0,0,0,8]) := by
  refine (cling_loop_ends (received_ok _)).mpr ?_
  have first : frames.next (received [0,0,0,0,0,8,0,1,0,0,0,0,0,8]).content = .frame [0,0,0,0,0,8,0,1] [0,0,0,0,0,8] := rfl
  have second : frames.next [0,0,0,0,0,8] = .more := rfl
  rw [frames.split_frame first,frames.split_more second]
  nofun

-- Eight zeros.
theorem cling_loop_endless : ¬ ∀ packet : NetPacket, packet.Ok → Ends packet := by
  intro claim
  obtain ⟨⟨fuel,ends⟩,_⟩ := claim (received (List.replicate 8 0)) (received_ok _)
  have bad : frames.next (received (List.replicate 8 0)).content = .bad := rfl
  have broken : (frames.split (received (List.replicate 8 0)).content).2 = .broken := by rw [frames.split_bad bad]
  have returned := ends (⟨0,⟨0⟩,[],[],false⟩ : Entry Listener) false []
  rw [pushLoop_broken (received_ok _) broken] at returned
  cases returned

end TcpSocket
end PcNetwork.Netlib
