import PcNetwork.Session.TcpSession
import Mathlib.Tactic.Common

namespace PcNetwork

theorem Keys.setSeed_seedLen {k : Keys} (full : k.seedLen = 16) (seed : Int32) : (k.setSeed seed).seedLen = 16 := by
  unfold Keys.setSeed
  split
  · exact full
  · rfl

namespace NetPacket

-- With a full key the loop is a map over the body: the byte at j meets the key byte
-- at j mod 16, up to NET_PACKET_HEAD_SIZE bytes before the end of the payload.
def crypted (seed : List UInt8) (size : Nat) (body : List UInt8) (start : Nat) : List UInt8 :=
  body.mapIdx fun j b => if start ≤ j ∧ j+5 < size then b ^^^ seed.getD (j % 16) 0 else b

theorem crypted_done {body : List UInt8} (beyond : size ≤ start+5) : crypted seed size body start = body := by
  have none : ∀ j (b : UInt8), (if start ≤ j ∧ j+5 < size then b ^^^ seed.getD (j % 16) 0 else b) = b := by
    intro j b
    rw [if_neg (by omega)]
  apply List.ext_getElem?
  intro j
  simp only [crypted,List.getElem?_mapIdx,none,Option.map_id']

theorem crypted_step {body : List UInt8} (inside : start+5 < size) :
    crypted seed size (body.set start (body.getD start 0 ^^^ seed.getD (start % 16) 0)) (start+1) =
      crypted seed size body start := by
  apply List.ext_getElem?
  intro j
  simp only [crypted,List.getElem?_mapIdx,List.getElem?_set]
  by_cases here : start = j
  · subst here
    by_cases within : start < body.length
    · simp [within,inside]
    · simp [within]
  · rw [if_neg here]
    have apart : (start+1 ≤ j ∧ j+5 < size) = (start ≤ j ∧ j+5 < size) := by
      apply propext; omega
    simp only [apart]

theorem cryptLoop_full {p : NetPacket} {seed : List UInt8} {behind : Nat → UInt8} {k fuel : Nat} (start : Nat)
    (length : seed.length = 16) (low : k ≤ 16) (phase : k % 16 = start % 16)
    (enough : p.pktDataSize.toNat ≤ start+5+fuel) (body : List UInt8) :
    cryptLoop p seed behind 16 fuel (start+5) k body = crypted seed p.pktDataSize.toNat body start := by
  induction fuel generalizing k start body with
  | zero => rw [cryptLoop,crypted_done (by omega)]
  | succ fuel ih =>
    unfold cryptLoop
    by_cases inside : start+5 < p.pktDataSize.toNat
    · have round : (if (k : Int) = 16 then 0 else k) = start % 16 := by
        split <;> omega
      have place : start+5-netPacketHeadSize.toNat = start := Nat.add_sub_cancel start 5
      have byte : seedAt seed behind (start % 16) = seed.getD (start % 16) 0 := by
        have bound : start % 16 < seed.length := by omega
        simp [seedAt,bound]
      simp only [if_pos inside,round,place,byte]
      rw [show start+5+1 = start+1+5 by omega,ih _ (by omega) (by omega) (by omega),crypted_step inside]
    · rw [if_neg inside,crypted_done (by omega)]

-- So nothing behind m_seed matters.
theorem crypt_full {k : Keys} (full : k.seedLen = 16) (p : NetPacket) :
    p.crypt k.seed k.behindSeed k.seedLen = {p with body := crypted k.seed p.pktDataSize.toNat p.body 0} := by
  unfold crypt
  rw [full]
  congr 1
  exact cryptLoop_full 0 k.seedSize (by omega) rfl (by omega) _

-- Encrypting twice with one key gives the body back.
theorem crypted_twice (seed : List UInt8) (size : Nat) (body : List UInt8) :
    crypted seed size (crypted seed size body 0) 0 = body := by
  apply List.ext_getElem?
  intro j
  simp only [crypted,List.getElem?_mapIdx,Option.map_map]
  have back : ((fun b : UInt8 => if 0 ≤ j ∧ j+5 < size then b ^^^ seed.getD (j % 16) 0 else b) ∘
      fun b : UInt8 => if 0 ≤ j ∧ j+5 < size then b ^^^ seed.getD (j % 16) 0 else b) = id := by
    funext b
    simp only [Function.comp]
    split
    · rw [UInt8.xor_assoc,UInt8.xor_self,UInt8.xor_zero]; rfl
    · rfl
  rw [back,Option.map_id]
  rfl

theorem getD_crypted {seed body : List UInt8} (inside : j < body.length) :
    (crypted seed size body 0).getD j 0 = if j+5 < size then body.getD j 0 ^^^ seed.getD (j % 16) 0 else body.getD j 0 := by
  simp [crypted,inside]

-- A frame as SendPacket makes it, before Encrypt.
def clear (packet : NetPacket) (cmd : CmdPacket) (seq : UInt16) : NetPacket := (packet.addCmdPacket cmd).setSeq seq

theorem clear_parts {cmd : CmdPacket} {payload : List UInt8} (size : cmd.getDataSize = payload.length)
    (content : cmd.getData.take payload.length = payload) (fits : payload.length ≤ 16384) (packet : NetPacket) (seq : UInt16) :
    (clear packet cmd seq).pktDataSize.toNat = payload.length ∧
    (clear packet cmd seq).body = payload ++ packet.body.drop payload.length := by
  have count : (UInt16.ofInt cmd.getDataSize).toNat = payload.length := by
    rw [UInt16.ofInt,UInt16.toNat_ofNat']
    omega
  refine ⟨count,?_⟩
  unfold clear addCmdPacket setSeq
  simp [count,content,Block.patch]

-- What Encrypt is for: every byte of the payload meets its key byte, the rest of the
-- header stays, and Decrypt gives the frame back.
structure Enciphers (frame : NetPacket) (payload seed : List UInt8) (behind : Nat → UInt8) : Prop where
  covered : ∀ j < payload.length,
    (frame.encrypt seed behind 16).body.getD j 0 = payload.getD j 0 ^^^ seed.getD (j % 16) 0
  seq : (frame.encrypt seed behind 16).pktSeq = frame.pktSeq
  size : (frame.encrypt seed behind 16).pktDataSize = frame.pktDataSize
  flag : (frame.encrypt seed behind 16).pktFlag &&& ~~~flagEncrypt = frame.pktFlag &&& ~~~flagEncrypt
  restored : (frame.encrypt seed behind 16).decrypt seed behind 16 = frame

-- The loop leaves out the last five bytes of the payload.
theorem encrypt_covers {cmd : CmdPacket} {payload seed : List UInt8} (size : cmd.getDataSize = payload.length)
    (content : cmd.getData.take payload.length = payload) (fits : payload.length ≤ 16384) (key : seed.length = 16)
    (packet : NetPacket) (seq : UInt16) (behind : Nat → UInt8) :
    Enciphers (clear packet cmd seq) payload seed behind ↔
      ∀ j < payload.length, payload.length ≤ j+5 → seed.getD (j % 16) 0 = 0 := by
  obtain ⟨count,body⟩ := clear_parts size content fits packet seq
  have short : ∀ j < payload.length, j < (clear packet cmd seq).body.length := by
    intro j inside
    rw [body,List.length_append]
    omega
  have front : ∀ j < payload.length, (clear packet cmd seq).body.getD j 0 = payload.getD j 0 := by
    intro j inside
    simp only [body,List.getD_eq_getElem?_getD,List.getElem?_append_left inside]
  have flag : (clear packet cmd seq).pktFlag = 80 := rfl
  have loop : ∀ p : NetPacket, p.crypt seed behind 16 = {p with body := crypted seed p.pktDataSize.toNat p.body 0} := by
    intro p
    unfold crypt
    congr 1
    exact cryptLoop_full 0 key (by omega) rfl (by omega) _
  have byte : ∀ j < payload.length, ((clear packet cmd seq).encrypt seed behind 16).body.getD j 0 =
      if j+5 < payload.length then payload.getD j 0 ^^^ seed.getD (j % 16) 0 else payload.getD j 0 := by
    intro j inside
    unfold encrypt
    rw [loop,getD_crypted (short j inside),front j inside,count]
  constructor
  · intro enciphers j inside tail
    have covered := enciphers.covered j inside
    rw [byte j inside,if_neg (by omega)] at covered
    calc seed.getD (j % 16) 0
      _ = payload.getD j 0 ^^^ (payload.getD j 0 ^^^ seed.getD (j % 16) 0) := by
        rw [← UInt8.xor_assoc,UInt8.xor_self,UInt8.zero_xor]
      _ = 0 := by rw [← covered,UInt8.xor_self]
  · intro zeros
    refine ⟨fun j inside => ?_,rfl,rfl,?_,?_⟩
    · rw [byte j inside]
      split
      · rfl
      · rename_i beyond
        rw [zeros j inside (by omega),UInt8.xor_zero]
    · unfold encrypt
      rw [loop]
      dsimp only
      rw [flag]
      decide
    · unfold encrypt decrypt
      rw [loop]
      dsimp only
      rw [loop]
      dsimp only
      rw [crypted_twice,flag]
      rfl

-- With a key whose bytes are zero where the loop does not come.
theorem encrypt_covers_zeros :
    ∃ packet cmd, (cmd : CmdPacket).getDataSize = 6 ∧
      Enciphers (clear packet cmd 1) [1,2,3,4,5,6] (7 :: List.replicate 15 0) (fun _ => 0) := by
  let cmd : CmdPacket := ⟨[1,2,3,4,5,6],[],6,0,6,6⟩
  refine ⟨new,cmd,rfl,(encrypt_covers rfl rfl (by decide) rfl new 1 _).mpr fun j inside tail => ?_⟩
  have last : j = 1 ∨ j = 2 ∨ j = 3 ∨ j = 4 ∨ j = 5 := by
    simp at inside tail
    omega
  rcases last with rfl | rfl | rfl | rfl | rfl <;> rfl

-- A payload of one byte stays as it is.
theorem encrypt_uncovered :
    ¬ ∀ (packet : NetPacket) (cmd : CmdPacket) (payload seed : List UInt8) (behind : Nat → UInt8),
      cmd.getDataSize = payload.length → cmd.getData.take payload.length = payload → 1 ≤ payload.length →
      payload.length ≤ 16384 → seed.length = 16 → Enciphers (clear packet cmd 1) payload seed behind := by
  intro claim
  have covered := (claim new ⟨[65],[],1,0,1,1⟩ [65] (List.replicate 16 3) (fun _ => 0) rfl rfl (by decide) (by decide) rfl).covered
  have same : ((clear new ⟨[65],[],1,0,1,1⟩ 1).encrypt (List.replicate 16 3) (fun _ => 0) 16).body.getD 0 0 = 65 := rfl
  have other := covered 0 (by decide)
  rw [same] at other
  exact absurd other (by decide)

end NetPacket
end PcNetwork
