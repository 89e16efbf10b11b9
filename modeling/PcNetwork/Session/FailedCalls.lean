import PcNetwork.Session.Fields

namespace PcNetwork
namespace CmdPacket

-- The Write and Read calls. WriteBinary takes any length along with its block.
inductive Call where
  | write (op : WriteOp)
  | writeBinary (data : List UInt8) (len : Int)
  | read (op : ReadOp)

-- What the call returns, and the packet after it.
def call (p : CmdPacket) : Call → Bool × CmdPacket
  | .write op => p.tryWrite op
  | .writeBinary data len => p.writeBinary data len
  | .read op => ((p.read op).1.isSome,(p.read op).2)

theorem writeData_refused {p : CmdPacket} {n : Int} (data : List UInt8) (full : p.maxSize < int32 (p.len+n)) :
    p.writeData data n = (false,p) := if_pos full

theorem writeData_taken {p : CmdPacket} {n : Int} (data : List UInt8) (room : int32 (p.len+n) ≤ p.maxSize) :
    p.writeData data n = (true,{p with
      data := Block.patch p.data p.writeOffset.toNat (data.take n.toNat)
      len := int32 (p.len+n)
      writeOffset := int32 (p.writeOffset+n)}) := if_neg (Int.not_lt.mpr room)

theorem writeData_failed {p : CmdPacket} {data : List UInt8} {n : Int} (failed : (p.writeData data n).1 = false) :
    p.writeData data n = (false,p) := by
  by_cases full : p.maxSize < int32 (p.len+n)
  · exact writeData_refused data full
  · simp [writeData_taken data (Int.not_lt.mp full)] at failed

theorem writeShort_taken {p : CmdPacket} (s : Int16) (room : int32 (p.len+shortSize) ≤ p.maxSize) :
    (p.writeShort s).1 = true ∧ (p.writeShort s).2.len = int32 (p.len+shortSize) ∧
    (p.writeShort s).2.writeOffset = int32 (p.writeOffset+shortSize) ∧ (p.writeShort s).2.maxSize = p.maxSize := by
  unfold writeShort
  rw [writeData_taken _ room]
  exact ⟨rfl,rfl,rfl,rfl⟩

-- WriteBinary and WriteString: the length, and behind it the bytes.
def writePrefixed (p : CmdPacket) (s : Int16) (data : List UInt8) (len : Int) : Bool × CmdPacket :=
  if (p.writeShort s).1 = false then (false,(p.writeShort s).2) else (p.writeShort s).2.writeData data len

theorem writeBinary_prefixed (p : CmdPacket) (data : List UInt8) (len : Int) :
    p.writeBinary data len = p.writePrefixed (Int16.ofInt len) data len := rfl

theorem writeString_prefixed (p : CmdPacket) (str : List UInt8) :
    p.writeString str = p.writePrefixed (Int16.ofInt (str.length+1)) (str ++ [0]) (Int16.ofInt (str.length+1)).toInt := rfl

theorem writePrefixed_refused {p : CmdPacket} (s : Int16) (data : List UInt8) (len : Int) (full : p.maxSize < int32 (p.len+shortSize)) :
    p.writePrefixed s data len = (false,p) := by
  have refused : p.writeShort s = (false,p) := writeData_refused _ full
  simp [writePrefixed,refused]

theorem writePrefixed_taken {p : CmdPacket} (s : Int16) (data : List UInt8) (len : Int) (room : int32 (p.len+shortSize) ≤ p.maxSize) :
    p.writePrefixed s data len = (p.writeShort s).2.writeData data len := by
  simp [writePrefixed,(writeShort_taken s room).1]

-- Where the length fits and the bytes do not, the length stays in the packet.
theorem writePrefixed_failed {p : CmdPacket} {s : Int16} {data : List UInt8} {len : Int}
    (failed : (p.writePrefixed s data len).1 = false) :
    (p.writePrefixed s data len).2 = p ↔ p.maxSize < int32 (p.len+shortSize) := by
  by_cases full : p.maxSize < int32 (p.len+shortSize)
  · simp [writePrefixed_refused s data len full,full]
  · have room := Int.not_lt.mp full
    rw [writePrefixed_taken s data len room] at failed ⊢
    rw [writeData_failed failed]
    have longer := (writeShort_taken s room).2.1
    constructor
    · intro same
      rw [same] at longer
      exact absurd longer.symm (int32_add_ne (by decide) (by decide))
    · intro none
      exact absurd none full

theorem readBytes_failed {p : CmdPacket} {n : Int} (failed : (p.readBytes n).1 = none) : p.readBytes n = (none,p) := by
  unfold readBytes at failed ⊢
  split at failed
  · rename_i short
    exact if_pos short
  · cases failed

-- Where there is a length and no bytes for it, the length has been read.
theorem readBlock_failed {p : CmdPacket} (failed : p.readBlock.1 = none) :
    p.readBlock.2 = p ↔ p.len < int32 (p.readOffset+shortSize) := by
  by_cases short : p.len < int32 (p.readOffset+shortSize)
  · have refused : p.readShort = (none,p) := by simp [readShort,readBytes,short]
    simp [readBlock,refused,short]
  · obtain ⟨s,found⟩ : ∃ s, p.readShort = (some s,{p with readOffset := int32 (p.readOffset+shortSize)}) := by
      simp [readShort,readBytes,short]
    -- what is given back has moved on by the length
    have moved : p.readBlock.2 = {p with readOffset := int32 (p.readOffset+shortSize)} := by
      unfold readBlock at failed ⊢
      rw [found] at failed ⊢
      dsimp only at failed ⊢
      split at failed
      · rename_i none
        rw [if_pos none]
      · rename_i some
        rw [if_neg some]
        split at failed
        · rename_i beyond
          rw [if_pos beyond]
        · cases failed
    rw [moved]
    constructor
    · intro same
      have offset := congrArg readOffset same
      exact absurd offset (int32_add_ne (by decide) (by decide))
    · intro none
      exact absurd none short

theorem readString_failed {p : CmdPacket} (failed : p.readString.1 = none) :
    p.readBlock.1 = none ∧ p.readString.2 = p.readBlock.2 := by
  unfold readString at failed ⊢
  generalize p.readBlock = r at failed ⊢
  obtain ⟨_ | ⟨start,len⟩,q⟩ := r
  · exact ⟨rfl,rfl⟩
  · cases failed

-- A call of one step, or one whose first step is the one that fails. The sums are those of
-- the code, which overflow as ints do.
def Refused (p : CmdPacket) : Call → Prop
  | .write (.binary _) | .write (.string _) | .writeBinary _ _ => p.maxSize < int32 (p.len+shortSize)
  | .read .binary | .read .string => p.len < int32 (p.readOffset+shortSize)
  | .write (.byte _) | .write (.short _) | .write (.long _) | .write (.float _) => True
  | .read .byte | .read .short | .read .long | .read .float => True

theorem failed_call_unchanged_iff (p : CmdPacket) (c : Call) (failed : (p.call c).1 = false) :
    (p.call c).2 = p ↔ p.Refused c := by
  have single : ∀ n, (p.readBytes n).1 = none → ((p.readBytes n).2 = p ↔ True) := by
    intro n none
    simp [readBytes_failed none]
  cases c with
  | write op =>
    cases op with
    | byte c => simp [call,tryWrite,writeByte,Refused,writeData_failed failed]
    | short s => simp [call,tryWrite,writeShort,Refused,writeData_failed failed]
    | long l => simp [call,tryWrite,writeLong,Refused,writeData_failed failed]
    | float f => simp [call,tryWrite,writeFloat,Refused,writeData_failed failed]
    | binary data =>
      simp only [call,tryWrite,writeBinary_prefixed] at failed ⊢
      exact writePrefixed_failed failed
    | string str =>
      simp only [call,tryWrite,writeString_prefixed] at failed ⊢
      exact writePrefixed_failed failed
  | writeBinary data len =>
    simp only [call,writeBinary_prefixed] at failed ⊢
    exact writePrefixed_failed failed
  | read op =>
    have none : (p.read op).1 = none := by simpa [call] using failed
    cases op with
    | byte => exact single byteSize (by simpa [read,readByte] using none)
    | short => exact single shortSize (by simpa [read,readShort] using none)
    | long => exact single longSize (by simpa [read,readLong] using none)
    | float => exact single floatSize (by simpa [read,readFloat] using none)
    | binary => exact readBlock_failed (by simpa [read,readBinary] using none)
    | string =>
      obtain ⟨block,same⟩ := readString_failed (by simpa [read] using none)
      show p.readString.2 = p ↔ _
      rw [same]
      exact readBlock_failed block

-- Two bytes where three fit: the length is left in the packet.
theorem failed_call_unchanged_two :
    let p := (new.setSize 3).2.beginWrite
    (p.call (.writeBinary [1,2] 2)).2 = p ↔ p.Refused (.writeBinary [1,2] 2) :=
  failed_call_unchanged_iff _ _ rfl

theorem failed_call_changes :
    ¬ ∀ (p : CmdPacket) (c : Call), (p.call c).1 = false → (p.call c).2 = p := by
  intro unchanged
  have same := congrArg len (unchanged (new.setSize 3).2.beginWrite (.writeBinary [1,2] 2) rfl)
  exact absurd same (by decide)

end CmdPacket
end PcNetwork
