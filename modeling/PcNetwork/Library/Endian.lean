import Mathlib.Algebra.Group.Nat.Defs
import Mathlib.Data.List.Basic

namespace PcNetwork.Endian

-- Little-endian byte strings of a fixed width, as the x86 code stores integers.
def encode : Nat → Nat → List UInt8
  | 0,_ => []
  | width+1,value => UInt8.ofNat (value % 256) :: encode width (value/256)

def decode : List UInt8 → Nat
  | [] => 0
  | byte :: rest => byte.toNat + 256*decode rest

@[simp] theorem length_encode (width value : Nat) : (encode width value).length = width := by
  induction width generalizing value with
  | zero => rfl
  | succ width ih => simp [encode,ih]

theorem decode_encode (width value : Nat) (fits : value < 256^width) : decode (encode width value) = value := by
  induction width generalizing value with
  | zero => simp at fits; simp [encode,decode,fits]
  | succ width ih =>
    have quotient : value/256 < 256^width := by
      rw [Nat.pow_succ] at fits
      exact Nat.div_lt_of_lt_mul (by omega)
    simp only [encode,decode,ih _ quotient,UInt8.toNat_ofNat']
    omega

theorem encode_mod (width value : Nat) : encode width (value % 256^width) = encode width value := by
  induction width generalizing value with
  | zero => rfl
  | succ width ih =>
    have digit : value % 256^(width+1) % 256 = value % 256 := Nat.mod_mod_of_dvd value ⟨256^width,Nat.pow_succ'⟩
    have quotient : value % 256^(width+1)/256 = value/256 % 256^width := by
      rw [Nat.pow_succ',Nat.mod_mul_right_div_self]
    simp only [encode,digit,quotient,ih]

theorem encode_add (m n value : Nat) : encode (m+n) value = encode m value ++ encode n (value/256^m) := by
  induction m generalizing value with
  | zero => simp [encode]
  | succ m ih => rw [Nat.add_right_comm,encode,encode,ih,Nat.div_div_eq_div_mul,Nat.pow_succ',List.cons_append]

theorem decode_lt (bytes : List UInt8) : decode bytes < 256^bytes.length := by
  induction bytes with
  | nil => simp [decode]
  | cons byte rest ih =>
    have bound := byte.toNat_lt
    rw [decode,List.length_cons,Nat.pow_succ']
    omega

theorem encode_decode (bytes : List UInt8) : encode bytes.length (decode bytes) = bytes := by
  induction bytes with
  | nil => rfl
  | cons byte rest ih =>
    have bound := byte.toNat_lt
    have digit : (byte.toNat+256*decode rest) % 256 = byte.toNat := by omega
    have quotient : (byte.toNat+256*decode rest)/256 = decode rest := by omega
    rw [decode,List.length_cons,encode,digit,quotient,ih,UInt8.ofNat_toNat]

-- The widths the code uses: unsigned and signed 16-bit, signed 32-bit.
def ofUInt16 (value : UInt16) : List UInt8 := encode 2 value.toNat
def toUInt16 (bytes : List UInt8) : UInt16 := UInt16.ofNat (decode bytes)
def ofInt16 (value : Int16) : List UInt8 := encode 2 value.toUInt16.toNat
def toInt16 (bytes : List UInt8) : Int16 := (UInt16.ofNat (decode bytes)).toInt16
def ofInt32 (value : Int32) : List UInt8 := encode 4 value.toUInt32.toNat
def toInt32 (bytes : List UInt8) : Int32 := (UInt32.ofNat (decode bytes)).toInt32

@[simp] theorem length_ofUInt16 (value : UInt16) : (ofUInt16 value).length = 2 := length_encode _ _
@[simp] theorem length_ofInt16 (value : Int16) : (ofInt16 value).length = 2 := length_encode _ _
@[simp] theorem length_ofInt32 (value : Int32) : (ofInt32 value).length = 4 := length_encode _ _

@[simp] theorem uint16_roundtrip (value : UInt16) : toUInt16 (ofUInt16 value) = value := by
  simp [toUInt16,ofUInt16,decode_encode 2 value.toNat value.toNat_lt]

@[simp] theorem int16_roundtrip (value : Int16) : toInt16 (ofInt16 value) = value := by
  simp [toInt16,ofInt16,decode_encode 2 _ value.toUInt16.toNat_lt]

@[simp] theorem int32_roundtrip (value : Int32) : toInt32 (ofInt32 value) = value := by
  simp [toInt32,ofInt32,decode_encode 4 _ value.toUInt32.toNat_lt]

theorem ofInt32_toInt32 {bytes : List UInt8} (four : bytes.length = 4) : ofInt32 (toInt32 bytes) = bytes := by
  have bound := decode_lt bytes
  rw [four] at bound
  rw [ofInt32,toInt32,UInt32.toUInt32_toInt32,UInt32.toNat_ofNat',Nat.mod_eq_of_lt (by omega),← four,encode_decode]

end PcNetwork.Endian
