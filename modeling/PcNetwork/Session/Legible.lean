import PcNetwork.Session.FailedCalls
import PcNetwork.Session.HostileReads

namespace PcNetwork
namespace CmdPacket

-- A string of the C language ends at its first zero.
def WriteOp.terminated : WriteOp → Prop
  | .string str => ∀ c ∈ str, c ≠ 0
  | .byte _ | .short _ | .long _ | .float _ | .binary _ => True

-- The length of the field, as it is written, is one that ReadBinary and ReadString take.
def WriteOp.legible : WriteOp → Prop
  | .string str => str.length+1 < 2^15
  | .binary data => data ≠ [] ∧ data.length < 2^15
  | .byte _ | .short _ | .long _ | .float _ => True

theorem WriteOp.legible_proper {op : WriteOp} (legible : op.legible) (terminated : op.terminated) : op.proper := by
  cases op with
  | byte | short | long | float => trivial
  | binary data => exact legible.1
  | string str => exact terminated

-- Legible is more than what memcpy needs.
theorem WriteOp.legible_copies {op : WriteOp} (legible : op.legible) : op.copies := by
  cases op with
  | byte | short | long | float => trivial
  | binary data =>
    have short := legible.2
    show maxCmdPacketSize+(data.length : Int) < 2^31
    unfold maxCmdPacketSize
    omega
  | string str =>
    have count : (Int16.ofInt (str.length+1)).toInt = (str.length+1 : Nat) := toInt_short legible
    show 0 ≤ (Int16.ofInt (str.length+1)).toInt
    omega

-- A legible field that was accepted had room.
theorem writeData_accepted {data : List UInt8} {n : Int} (writing : Writing p) (nonneg : 0 ≤ n) (short : n < 2^15)
    (accepted : (p.writeData data n).1 = true) : p.len+n ≤ p.maxSize := by
  have sum := writing.sum nonneg (by unfold maxCmdPacketSize; omega)
  by_contra full
  simp [writeData_refused data (by omega : p.maxSize < int32 (p.len+n))] at accepted

theorem writePrefixed_accepted {s : Int16} {data : List UInt8} {n : Int} (writing : Writing p) (nonneg : 0 ≤ n) (short : n < 2^15)
    (accepted : (p.writePrefixed s data n).1 = true) : p.len+shortSize+n ≤ p.maxSize := by
  have sum := writing.sum (by decide : 0 ≤ shortSize) (by decide)
  by_cases room : int32 (p.len+shortSize) ≤ p.maxSize
  · obtain ⟨_,len,_,max⟩ := writeShort_taken s room
    rw [writePrefixed_taken s data n room] at accepted
    have fits := writeData_accepted (writeShort_writing writing s) nonneg short accepted
    rwa [len,max,sum] at fits
  · simp [writePrefixed_refused s data n (Int.not_le.mp room)] at accepted

theorem tryWrite_room {op : WriteOp} (writing : Writing p) (legible : op.legible) (accepted : (p.tryWrite op).1 = true) :
    p.len+op.size ≤ p.maxSize := by
  cases op with
  | byte c => exact writeData_accepted (n := byteSize) writing (by decide) (by decide) accepted
  | short s => exact writeData_accepted (n := shortSize) writing (by decide) (by decide) accepted
  | long l => exact writeData_accepted (n := longSize) writing (by decide) (by decide) accepted
  | float f => exact writeData_accepted (n := floatSize) writing (by decide) (by decide) accepted
  | binary data =>
    have fits := writePrefixed_accepted writing (Int.natCast_nonneg _) (Int.ofNat_lt.mpr legible.2) accepted
    simpa [WriteOp.size,shortSize,Int.add_assoc] using fits
  | string str =>
    have count : (Int16.ofInt (str.length+1)).toInt = (str.length+1 : Nat) := toInt_short legible
    have fits := writePrefixed_accepted writing (by omega) (Int16.toInt_lt _) accepted
    rw [count] at fits
    simpa [WriteOp.size,shortSize,Int.add_assoc] using fits

theorem writeAll_room {ops : List WriteOp} (writing : Writing p) (legible : ∀ op ∈ ops, op.legible)
    (accepted : (writeAll ops p).1 = ops.map fun _ => true) : p.len+(ops.map WriteOp.size).sum ≤ p.maxSize := by
  induction ops generalizing p with
  | nil => simpa using writing.len_le
  | cons op rest ih =>
    simp only [writeAll,List.map_cons,List.cons.injEq] at accepted
    have room := tryWrite_room writing (legible op List.mem_cons_self) accepted.1
    obtain ⟨_,after,_,max,len⟩ := tryWrite_grew writing room
    have rest := ih after (fun o member => legible o (List.mem_cons_of_mem _ member)) accepted.2
    rw [max,len,WriteOp.length_bytes] at rest
    simp only [List.map_cons,List.sum_cons]
    omega

-- The readers give back no other field than a legible one. A string ends before the
-- zero that ReadString sets.
theorem readBlock_some {p : CmdPacket} {start len : Int} (found : p.readBlock.1 = some (start,len)) : 1 ≤ len ∧ len < 2^15 := by
  unfold readBlock at found
  generalize p.readShort = r at found
  obtain ⟨_ | s,q⟩ := r
  · cases found
  · dsimp only at found
    split at found
    · cases found
    · split at found
      · cases found
      · cases found
        have most := s.toInt_lt
        omega

theorem takeWhile_stops {α : Type} {q : α → Bool} {list : List α} {n : Nat} (stop : ∀ x, list[n]? = some x → q x = false) :
    (list.takeWhile q).length ≤ n := by
  induction list generalizing n with
  | nil => simp
  | cons x rest ih =>
    cases n with
    | zero => simp [stop x rfl]
    | succ n =>
      have later := ih fun y found => stop y (by simpa using found)
      rw [List.takeWhile_cons]
      split
      · simpa using later
      · simp

theorem readString_legible {p : CmdPacket} {op : WriteOp} (found : (p.read .string).1 = some op) : op.legible := by
  have block : ∀ start len, p.readBlock.1 = some (start,len) → 1 ≤ len ∧ len < 2^15 := fun _ _ => readBlock_some
  simp only [read,readString] at found
  generalize p.readBlock = r at found block
  obtain ⟨_ | ⟨start,len⟩,q⟩ := r
  · cases found
  · obtain ⟨some,most⟩ := block start len rfl
    cases found
    obtain ⟨n,place⟩ := Nat.exists_eq_add_of_le (show start.toNat ≤ (start+len-1).toNat by omega)
    -- the zero stands n characters behind the start
    have ends : (((q.readData.set (start+len-1).toNat 0).drop start.toNat).takeWhile (· ≠ 0)).length ≤ n := by
      apply takeWhile_stops
      intro x found
      rw [List.getElem?_drop,place,List.getElem?_set] at found
      simp at found
      simp [found.2.symm]
    have short : n+1 < 2^15 := by omega
    exact Nat.lt_of_le_of_lt (Nat.succ_le_succ ends) short

theorem readBinary_short {p : CmdPacket} {data : List UInt8} (found : (p.read .binary).1 = some (.binary data)) : data.length < 2^15 := by
  have block : ∀ start len, p.readBlock.1 = some (start,len) → 1 ≤ len ∧ len < 2^15 := fun _ _ => readBlock_some
  simp only [read,readBinary] at found
  generalize p.readBlock = r at found block
  obtain ⟨_ | ⟨start,len⟩,q⟩ := r
  · cases found
  · obtain ⟨some,most⟩ := block start len rfl
    cases found
    have taken : (Block.slice q.readData start.toNat len.toNat).length ≤ len.toNat := List.length_take_le _ _
    exact Nat.lt_of_le_of_lt taken (by omega)

theorem readBinary_legible {data : List UInt8} (inside : Inside payload p) (found : (p.read .binary).1 = some (.binary data)) :
    (WriteOp.binary data).legible := by
  refine ⟨?_,readBinary_short found⟩
  obtain ⟨after,bounds⟩ := readBlock_inside inside
  simp only [read,readBinary] at found
  generalize p.readBlock = r at found after bounds
  obtain ⟨_ | ⟨start,len⟩,q⟩ := r
  · cases found
  · obtain ⟨low,some,high⟩ := bounds start len rfl
    have memory := after.memory
    cases found
    have length : (Block.slice q.readData start.toNat len.toNat).length = len.toNat := Block.length_slice (by dsimp only at memory; omega)
    intro empty
    rw [empty] at length
    simp at length
    omega

theorem readAll_kind {ops : List WriteOp} (values : (readAll (ops.map WriteOp.kind) p).1 = ops.map some) {op : WriteOp}
    (member : op ∈ ops) : ∃ done, ((readAll done p).2.read op.kind).1 = some op := by
  induction ops generalizing p with
  | nil => cases member
  | cons first rest ih =>
    simp only [readAll,List.map_cons,List.cons.injEq] at values
    rcases List.mem_cons.mp member with rfl | later
    · exact ⟨[],values.1⟩
    · obtain ⟨done,found⟩ := ih values.2 later
      exact ⟨first.kind :: done,found⟩

theorem writeAll_writing {ops : List WriteOp} (writing : Writing p) (copies : ∀ op ∈ ops, op.copies) : Writing (writeAll ops p).2 := by
  induction ops generalizing p with
  | nil => exact writing
  | cons op rest ih =>
    have first := write_writing writing (copies op List.mem_cons_self)
    rw [write_tryWrite] at first
    exact ih first fun o member => copies o (List.mem_cons_of_mem _ member)

theorem Reads.inside (reads : Reads p [] left) : Inside left.length p := by
  obtain ⟨⟨tail,memory⟩,offset,len,small⟩ := reads
  simp only [List.length_nil,Nat.zero_add,List.nil_append] at memory offset len
  exact ⟨len,by omega,by omega,by simp [memory],by omega⟩

end CmdPacket

namespace NetPacket

-- Every field that was accepted is read back exactly if no field is an empty block, and
-- no string too long for the short that its length is written as.
theorem accepted_readable_iff {fields : List CmdPacket.WriteOp} (sized : CmdPacket.Sized p)
    (terminated : ∀ field ∈ fields, field.terminated)
    (accepted : (CmdPacket.writeAll fields p.beginWrite).1 = fields.map fun _ => true)
    (sender receiver : NetPacket) (seq : UInt16) (later : List UInt8) (cmd : CmdPacket) :
    let frame := ((sender.addCmdPacket (CmdPacket.writeAll fields p.beginWrite).2).setSeq seq).bytes
    (CmdPacket.readAll (fields.map CmdPacket.WriteOp.kind) (receiver.receive (frame ++ later) (frame ++ later).length cmd)).1 =
      fields.map some ↔ ∀ field ∈ fields, field.legible := by
  have start := sized.writing
  constructor
  · intro values field member
    -- no string but a legible one is ever read, and no long block: the packet has kept to its own
    have counts : ∀ field ∈ fields, field.copies := by
      intro field member
      obtain ⟨done,found⟩ := CmdPacket.readAll_kind values member
      cases field with
      | byte | short | long | float => trivial
      | binary data =>
        have short := CmdPacket.readBinary_short found
        show maxCmdPacketSize+(data.length : Int) < 2^31
        unfold maxCmdPacketSize
        omega
      | string str => exact CmdPacket.WriteOp.legible_copies (CmdPacket.readString_legible found)
    have writing := CmdPacket.writeAll_writing start counts
    have inside := ((addCmdPacket_carries sender seq writing).receive receiver later cmd).inside
    obtain ⟨done,found⟩ := CmdPacket.readAll_kind values member
    cases field with
    | byte | short | long | float => trivial
    | string str => exact CmdPacket.readString_legible found
    | binary data => exact CmdPacket.readBinary_legible (CmdPacket.readAll_inside inside done) found
  · intro legible
    have room := CmdPacket.writeAll_room start legible accepted
    have fits : ((fields.map CmdPacket.WriteOp.size).sum : Int) ≤ p.maxSize := by simpa [CmdPacket.beginWrite] using room
    have proper := fun field member => CmdPacket.WriteOp.legible_proper (legible field member) (terminated field member)
    have most : maxCmdPacketSize = 16384 := rfl
    have bound := sized.size_le
    obtain ⟨_,received⟩ := written_received sized fits sender receiver seq later cmd
    exact (CmdPacket.readAll_bytes proper (by omega) received).1

-- A string and an empty block.
theorem accepted_readable_iff_empty :
    let fields : List CmdPacket.WriteOp := [.string [104,105],.binary []]
    let frame := ((new.addCmdPacket (CmdPacket.writeAll fields CmdPacket.new.beginWrite).2).setSeq 1).bytes
    (CmdPacket.readAll (fields.map CmdPacket.WriteOp.kind) (new.receive (frame ++ []) (frame ++ []).length CmdPacket.new)).1 =
      fields.map some ↔ ∀ field ∈ fields, field.legible := by
  have terminated : ∀ field ∈ [CmdPacket.WriteOp.string [104,105],.binary []],field.terminated := by
    simp [CmdPacket.WriteOp.terminated]
  exact accepted_readable_iff CmdPacket.new_sized terminated rfl new new 1 [] CmdPacket.new

theorem accepted_unreadable :
    ¬ ∀ (p : CmdPacket) (fields : List CmdPacket.WriteOp) (sender receiver : NetPacket) (seq : UInt16) (later : List UInt8)
      (cmd : CmdPacket), CmdPacket.Sized p → (∀ field ∈ fields, field.terminated) →
      (CmdPacket.writeAll fields p.beginWrite).1 = fields.map (fun _ => true) →
      let frame := ((sender.addCmdPacket (CmdPacket.writeAll fields p.beginWrite).2).setSeq seq).bytes
      (CmdPacket.readAll (fields.map CmdPacket.WriteOp.kind) (receiver.receive (frame ++ later) (frame ++ later).length cmd)).1 =
        fields.map some := by
  intro readable
  have values := readable CmdPacket.new [.binary []] new new 1 [] CmdPacket.new CmdPacket.new_sized
    (by simp [CmdPacket.WriteOp.terminated]) rfl
  simp only [List.map_cons,List.map_nil,CmdPacket.readAll,List.cons.injEq] at values
  have nothing := congrArg Option.isSome values.1
  exact absurd nothing (by decide)

end NetPacket
end PcNetwork
