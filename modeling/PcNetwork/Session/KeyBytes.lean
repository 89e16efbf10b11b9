import PcNetwork.Session.Effects
import PcNetwork.Session.Crypt

namespace PcNetwork
namespace Keys

-- SetSeed adds 1 to a remainder that has the sign of the seed, so only the remainder -1
-- makes the byte zero.
theorem keyByte_zero (x : Int32) : ((x % 255)+1).toUInt32.toUInt8 = 0 ↔ x.toInt < 0 ∧ x.toInt.natAbs % 255 = 1 := by
  have size : (x.toInt.tmod 255).natAbs = x.toInt.natAbs % 255 := Int.natAbs_tmod _ _
  have below : x.toInt.natAbs % 255 < 255 := Nat.mod_lt _ (by decide)
  have sign : 0 ≤ x.toInt → 0 ≤ x.toInt.tmod 255 := fun nonneg => Int.tmod_nonneg 255 nonneg
  have negative : x.toInt < 0 → x.toInt.tmod 255 ≤ 0 := by
    intro low
    have positive := Int.tmod_nonneg 255 (show 0 ≤ -x.toInt by omega)
    rw [Int.neg_tmod] at positive
    omega
  have value : ((x % 255)+1).toInt = x.toInt.tmod 255+1 := by
    have divisor : (255 : Int32).toInt = 255 := rfl
    have one : (1 : Int32).toInt = 1 := rfl
    rw [Int32.toInt_add,Int32.toInt_mod,divisor,one]
    exact Int.bmod_eq_of_le (by omega) (by omega)
  have stored : ((x % 255)+1).toInt = (((x % 255)+1).toUInt32.toNat : Int).bmod (2^32) := BitVec.toInt_eq_toNat_bmod _
  have small := ((x % 255)+1).toUInt32.toNat_lt
  rw [← UInt8.toNat_inj,UInt32.toNat_toUInt8]
  rw [value] at stored
  generalize ((x % 255)+1).toUInt32.toNat = n at stored small
  have zero : (0 : UInt8).toNat = 0 := rfl
  have back : x.toInt.tmod 255+1 = n ∨ x.toInt.tmod 255+1 = n-2^32 := by
    rw [stored,Int.bmod_def]
    split <;> omega
  omega

-- seed /= 19 keeps the sign until nothing is left.
theorem seed_div (x : Int32) : (x/19).toInt.natAbs = x.toInt.natAbs/19 ∧ ((x/19).toInt < 0 → x.toInt < 0) ∧
    (x.toInt < 0 → (x/19).toInt ≤ 0) := by
  have quotient : (x/19).toInt = x.toInt.tdiv 19 := Int32.toInt_div_of_ne_right x 19 (by decide)
  have size : (x.toInt.tdiv 19).natAbs = x.toInt.natAbs/19 := Int.natAbs_tdiv _ _
  have sign : 0 ≤ x.toInt → 0 ≤ x.toInt.tdiv 19 := fun nonneg => Int.tdiv_nonneg nonneg (by decide)
  have negative : x.toInt < 0 → x.toInt.tdiv 19 ≤ 0 := by
    intro low
    have positive := Int.tdiv_nonneg (show 0 ≤ -x.toInt by omega) (show (0 : Int) ≤ 19 by decide)
    rw [Int.neg_tdiv] at positive
    omega
  rw [quotient]
  exact ⟨size,by omega,negative⟩

-- Without its last digits to the base 19, the absolute value of a seed below zero is
-- never 1 more than a multiple of 255.
def Spares (seed : Int32) (i : Nat) : Prop := seed.toInt < 0 → seed.toInt.natAbs/19^i % 255 ≠ 1

theorem setSeedLoop_nonzero (n : Nat) (seed : Int32) : (∀ b ∈ setSeedLoop n seed, b ≠ 0) ↔ ∀ i < n, Spares seed i := by
  induction n generalizing seed with
  | zero => exact ⟨fun _ _ bound => absurd bound (Nat.not_lt_zero _),fun _ => nofun⟩
  | succ n ih =>
    obtain ⟨size,above,below⟩ := seed_div seed
    have first : ((seed % 255)+1).toUInt32.toUInt8 ≠ 0 ↔ Spares seed 0 := by
      rw [Ne,keyByte_zero,not_and]
      unfold Spares
      rw [Nat.pow_zero,Nat.div_one]
    have later : ∀ i, Spares (seed/19) i ↔ Spares seed (i+1) := by
      intro i
      unfold Spares
      have digits : seed.toInt.natAbs/19^(i+1) = (seed/19).toInt.natAbs/19^i := by
        rw [size,Nat.div_div_eq_div_mul,Nat.pow_succ,Nat.mul_comm]
      rw [digits]
      constructor
      · intro spares low
        rcases Int.lt_or_eq_of_le (below low) with negative | zero
        · exact spares negative
        · rw [zero]
          simp
      · intro spares low
        exact spares (above low)
    unfold setSeedLoop
    rw [List.forall_mem_cons,first,ih]
    constructor
    · rintro ⟨now,rest⟩ i bound
      cases i with
      | zero => exact now
      | succ i => exact (later i).mp (rest i (Nat.lt_of_succ_lt_succ bound))
    · intro all
      exact ⟨all 0 (Nat.succ_pos n),fun i bound => (later i).mpr (all (i+1) (Nat.succ_lt_succ bound))⟩

-- A key without a zero byte, with which Encrypt leaves no byte as it is.
structure Strong (k : Keys) : Prop where
  nonzero : ∀ b ∈ k.seed, b ≠ 0
  changes : ∀ (p : NetPacket) (j : Nat), j+5 < p.pktDataSize.toNat → j < p.body.length →
    (p.encrypt k.seed k.behindSeed k.seedLen).body.getD j 0 ≠ p.body.getD j 0

theorem strong_nonzero {k : Keys} (full : k.seedLen = 16) : k.Strong ↔ ∀ b ∈ k.seed, b ≠ 0 := by
  refine ⟨Strong.nonzero,fun nonzero => ⟨nonzero,?_⟩⟩
  intro p j processed inside same
  have place : j % 16 < k.seed.length := by
    rw [k.seedSize]
    exact Nat.mod_lt _ (by decide)
  have byte : k.seed.getD (j % 16) 0 ∈ k.seed := by
    rw [List.getD_eq_getElem _ _ place]
    exact List.getElem_mem place
  unfold NetPacket.encrypt at same
  rw [NetPacket.crypt_full full] at same
  dsimp only at same
  rw [NetPacket.getD_crypted inside,if_pos processed] at same
  refine nonzero _ byte ?_
  calc k.seed.getD (j % 16) 0
    _ = p.body.getD j 0 ^^^ (p.body.getD j 0 ^^^ k.seed.getD (j % 16) 0) := by
      rw [← UInt8.xor_assoc,UInt8.xor_self,UInt8.zero_xor]
    _ = 0 := by rw [same,UInt8.xor_self]

end Keys

namespace TcpSession

-- SetSeed was called with this seed, by SendSeed or for a received SYS_PACKET_SET_SEED.
inductive Derived (seed : Int32) : TcpSession → Prop where
  | sent (s : TcpSession) : Derived seed (s.sendSeed seed)
  | received (s : TcpSession) (found : seedParam packet = some seed) : Derived seed (s.handleSysPacket packet)

theorem Derived.keys {s : TcpSession} (derived : Derived seed s) : ∃ k : Keys, s.toKeys = k.setSeed seed := by
  cases derived with
  | sent s => exact ⟨_,rfl⟩
  | received s found =>
    rw [handleSysPacket_seed s _ found]
    exact ⟨_,congrArg Receiver.toKeys (callback_outgoing _ _).toReceiver⟩

-- Sixteen rounds of SetSeed.
theorem derived_strong_iff {s : TcpSession} (derived : Derived seed s) (given : seed ≠ 0) :
    s.toKeys.Strong ↔ ∀ i < 16, Keys.Spares seed i := by
  obtain ⟨k,keys⟩ := derived.keys
  have made : k.setSeed seed = {k with
      seed := Keys.setSeedLoop maxNetSeedSize seed
      seedSize := Keys.length_setSeedLoop _ _
      seedLen := maxNetSeedSize
      bEncrypt := true} := if_neg given
  rw [keys,made,Keys.strong_nonzero rfl]
  exact Keys.setSeedLoop_nonzero 16 seed

theorem derived_strong_positive : ((default : TcpSession).sendSeed 7).toKeys.Strong :=
  (derived_strong_iff (.sent default) (by decide)).mpr fun _ _ negative => absurd negative (by decide)

-- The first byte of the key of -1.
theorem derived_weak : ¬ ∀ (seed : Int32) (s : TcpSession), Derived seed s → seed ≠ 0 → s.toKeys.Strong := by
  intro strong
  have zero : (0 : UInt8) ∈ Keys.setSeedLoop 16 (-1) := by decide
  exact (strong (-1) _ (.sent default) (by decide)).nonzero 0 zero rfl

end TcpSession
end PcNetwork
