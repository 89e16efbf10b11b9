import PcNetwork.Library.Path
import PcNetwork.Netlib.Twins

namespace PcNetwork.Netlib
namespace NetPacket

-- A packet as it is after a receive: m_datalen bytes of its block have arrived, and the
-- cursor is behind the header, also where there are fewer.
structure Arrived (p : NetPacket) : Prop where
  nonneg : 0 ≤ p.datalen
  block : p.datalen ≤ p.data.length
  start : p.cursor = packetContentPos

theorem recv_arrived {bytes : List UInt8} (ok : Ok p) (some : (p.recv (some bytes)).1 > 0) : Arrived (p.recv (.some bytes)).2 := by
  obtain ⟨nonneg,_,fits,block⟩ : Ok (p.recv (.some bytes)).2 := (recv_ok ok).2.1
  exact ⟨nonneg,by omega,recv_start some⟩

-- The bytes that a call looks at, by their distance from m_data.
def examined16 (p : NetPacket) : List Int := if p.cursor ≤ p.datalen-2 then [p.cursor,p.cursor+1] else []

def examined (p : NetPacket) : ReadCall → List Int
  | .read8 => if p.cursor ≤ p.datalen-1 then [p.cursor] else []
  | .read16 | .readData | .readBinary => p.examined16
  | .read32 => if p.cursor ≤ p.datalen-4 then [p.cursor,p.cursor+1,p.cursor+2,p.cursor+3] else []
  | .readString =>
    let (len,q) := p.read16
    p.examined16 ++ if q.cursor ≤ q.datalen-len.toNat then [q.cursor+len.toNat-1] else []

-- What a call returns, a pointer as its distance from m_data.
inductive Answer where
  | uint8 (b : UInt8)
  | uint16 (w : UInt16)
  | uint32 (dw : UInt32)
  | pointer (ptr : Option Int)
  | binary (len : UInt16) (ptr : Option Int)

def answer (p : NetPacket) : ReadCall → Answer × NetPacket
  | .read8 => (.uint8 p.read8.1,p.read8.2)
  | .read16 => (.uint16 p.read16.1,p.read16.2)
  | .read32 => (.uint32 p.read32.1,p.read32.2)
  | .readString => (.pointer p.readString.1,p.readString.2)
  | .readData => (.pointer p.readData.1,p.readData.2)
  | .readBinary => (.binary p.readBinary.1.1 p.readBinary.1.2,p.readBinary.2)

def Agree (p q : NetPacket) (places : List Int) : Prop := ∀ i ∈ places, q.data.getD i.toNat 0 = p.data.getD i.toNat 0

theorem ntohs_agree {p q : NetPacket} {off : Int} (low : 0 ≤ off) (agree : Agree p q [off,off+1]) :
    ntohs q.data off.toNat = ntohs p.data off.toNat := by
  have first := agree off List.mem_cons_self
  have second := agree (off+1) (List.mem_cons_of_mem _ (List.mem_singleton_self _))
  have next : (off+1).toNat = off.toNat+1 := by omega
  rw [next] at second
  unfold ntohs
  rw [first,second]

theorem read16_agree {p : NetPacket} {data : List UInt8} (low : 0 ≤ p.cursor) (agree : Agree p {p with data} p.examined16) :
    ({p with data} : NetPacket).read16 = (p.read16.1,{p.read16.2 with data}) := by
  unfold examined16 at agree
  unfold read16
  dsimp only
  split
  · rename_i there
    rw [if_pos there] at agree
    rw [show ntohs data p.cursor.toNat = _ from ntohs_agree low agree]
  · rfl

theorem readString_agree {p : NetPacket} {data : List UInt8} (low : 0 ≤ p.cursor) (agree : Agree p {p with data} (p.examined .readString)) :
    ({p with data} : NetPacket).readString = (p.readString.1,{p.readString.2 with data}) := by
  unfold examined at agree
  dsimp only at agree
  have front : Agree p {p with data} p.examined16 := fun i member => agree i (List.mem_append_left _ member)
  have same := read16_data p
  unfold readString
  rw [read16_agree low front]
  dsimp only
  by_cases fits : p.read16.2.cursor ≤ p.read16.2.datalen-p.read16.1.toNat
  · have byte := agree (p.read16.2.cursor+p.read16.1.toNat-1) (List.mem_append_right _ (by rw [if_pos fits]; exact List.mem_singleton_self _))
    dsimp only at byte
    rw [← same] at byte
    rw [byte]
    split <;> rfl
  · rw [if_neg fun both => fits both.1,if_neg fun both => fits both.1]

-- Nothing else of the block gets into what a call returns.
theorem answer_agree {p : NetPacket} {data : List UInt8} {call : ReadCall} (low : 0 ≤ p.cursor)
    (agree : Agree p {p with data} (p.examined call)) :
    ({p with data} : NetPacket).answer call = ((p.answer call).1,{(p.answer call).2 with data}) := by
  cases call with
  | read8 =>
    dsimp only [examined] at agree
    dsimp only [answer,read8]
    split
    · rename_i there
      rw [if_pos there] at agree
      rw [show data.getD p.cursor.toNat 0 = _ from agree _ (List.mem_singleton_self _)]
    · rfl
  | read16 =>
    dsimp only [answer]
    rw [read16_agree low agree]
  | read32 =>
    dsimp only [examined] at agree
    dsimp only [answer,read32,ntohl]
    split
    · rename_i there
      rw [if_pos there] at agree
      have front := ntohs_agree low fun i member => agree i (List.mem_of_mem_take (i := 2) member)
      have rest : Agree p {p with data} [p.cursor+2,p.cursor+2+1] := by
        intro i member
        rw [show p.cursor+2+1 = p.cursor+3 by omega] at member
        exact agree i (List.mem_of_mem_drop (i := 2) member)
      have back := ntohs_agree (by omega) rest
      rw [show (p.cursor+2).toNat = p.cursor.toNat+2 by omega] at back
      dsimp only at front back
      rw [front,back]
    · rfl
  | readString =>
    dsimp only [answer]
    rw [readString_agree low agree]
  | readData =>
    dsimp only [answer,readData]
    rw [read16_agree low agree]
    dsimp only
    split <;> rfl
  | readBinary =>
    dsimp only [answer,readBinary]
    rw [read16_agree low agree]
    dsimp only
    split <;> rfl

-- What a call has to do: it looks at bytes that have arrived only, a string it gives has
-- its zero there, and so have data all their bytes.
structure Valid (p : NetPacket) (call : ReadCall) : Prop where
  within : ∀ i ∈ p.examined call, 0 ≤ i ∧ i < p.datalen
  string : call = .readString → ∀ str, p.readString.1 = some str → ∃ i : Nat, str ≤ i ∧ i < p.datalen ∧ p.data.getD i 0 = 0
  binary : call = .readBinary → p.readBinary.1.1 = 0 ∨ ∃ ptr, p.readBinary.1.2 = some ptr ∧ ptr+p.readBinary.1.1.toNat ≤ p.datalen

def ZeroFrom (p : NetPacket) (off : Int) : Prop := ∃ i : Nat, off ≤ i ∧ i < p.datalen ∧ p.data.getD i 0 = 0

-- A string of length 0, also one whose length has not arrived as a whole, has to be
-- followed by a zero, and data have to be there.
def Sure (p : NetPacket) : ReadCall → Prop
  | .readString =>
    if p.cursor+2 ≤ p.datalen then ntohs p.data p.cursor.toNat = 0 → ZeroFrom p (p.cursor+2)
    else p.cursor ≤ p.datalen → p.data.getD (p.cursor-1).toNat 0 = 0 → ZeroFrom p p.cursor
  | .readBinary => p.cursor+2 ≤ p.datalen → p.cursor+2+ntohs p.data p.cursor.toNat ≤ p.datalen
  | .read8 | .read16 | .read32 | .readData => True

structure Reading (p : NetPacket) : Prop where
  nonneg : 0 ≤ p.datalen
  block : p.datalen ≤ p.data.length
  low : packetContentPos ≤ p.cursor
  place : p.cursor = packetContentPos ∨ p.cursor ≤ p.datalen

theorem examined16_within (reading : Reading p) : ∀ i ∈ p.examined16, 0 ≤ i ∧ i < p.datalen := by
  have low := reading.low
  have eight : packetContentPos = 8 := rfl
  unfold examined16
  split
  · simp only [List.forall_mem_cons]
    exact ⟨by omega,by omega,nofun⟩
  · exact nofun

theorem read16_reading (reading : Reading p) : packetContentPos ≤ p.read16.2.cursor ∧ p.read16.2.datalen = p.datalen := by
  have low := reading.low
  unfold read16
  split
  · exact ⟨by dsimp only; omega,rfl⟩
  · exact ⟨low,rfl⟩

theorem examined_within (reading : Reading p) (call : ReadCall) : ∀ i ∈ p.examined call, 0 ≤ i ∧ i < p.datalen := by
  have low := reading.low
  have eight : packetContentPos = 8 := rfl
  cases call with
  | read8 =>
    dsimp only [examined]
    split
    · exact List.forall_mem_singleton.mpr ⟨by omega,by omega⟩
    · exact nofun
  | read16 | readData | readBinary => exact examined16_within reading
  | read32 =>
    dsimp only [examined]
    split
    · simp only [List.forall_mem_cons]
      exact ⟨by omega,by omega,by omega,by omega,nofun⟩
    · exact nofun
  | readString =>
    obtain ⟨start,length⟩ := read16_reading reading
    dsimp only [examined]
    rw [List.forall_mem_append,length]
    refine ⟨examined16_within reading,?_⟩
    generalize p.read16.2.cursor = off at start
    split
    · exact List.forall_mem_singleton.mpr ⟨by omega,by omega⟩
    · exact nofun

-- A length that is not 0 ends at a zero among the bytes that are there.
theorem string_iff (reading : Reading p) :
    (∀ str, p.readString.1 = some str → ZeroFrom p str) ↔
      (p.read16.1 = 0 → p.read16.2.cursor ≤ p.datalen → p.data.getD (p.read16.2.cursor-1).toNat 0 = 0 → ZeroFrom p p.read16.2.cursor) := by
  obtain ⟨start,length⟩ := read16_reading reading
  have data := read16_data p
  have eight : packetContentPos = 8 := rfl
  unfold readString
  dsimp only
  rw [length,data]
  generalize p.read16.1 = len at *
  generalize p.read16.2.cursor = off at *
  constructor
  · rintro given rfl fits zero
    refine given off ?_
    have none : (0 : UInt16).toNat = 0 := rfl
    rw [none,if_pos]
    refine ⟨by omega,?_⟩
    rw [show off+((0 : Nat) : Int)-1 = off-1 by omega]
    exact zero
  · intro empty str given
    split at given
    · rename_i both
      cases Option.some.inj given
      by_cases none : len = 0
      · subst none
        have none : (0 : UInt16).toNat = 0 := rfl
        obtain ⟨fits,zero⟩ := both
        rw [none] at fits zero
        rw [show off+((0 : Nat) : Int)-1 = off-1 by omega] at zero
        exact empty rfl (by omega) zero
      · have some : 0 < len.toNat := by
          apply Nat.pos_of_ne_zero
          intro same
          exact none (UInt16.toNat_inj.mp same)
        exact ⟨(off+len.toNat-1).toNat,by omega,by have := both.1; omega,both.2⟩
    · cases given

theorem valid_iff (reading : Reading p) (call : ReadCall) : Valid p call ↔ Sure p call := by
  have within := examined_within reading call
  have low := reading.low
  have eight : packetContentPos = 8 := rfl
  cases call with
  | read8 | read16 | read32 | readData => exact ⟨fun _ => trivial,fun _ => ⟨within,nofun,nofun⟩⟩
  | readString =>
    have parts : Valid p .readString ↔ ∀ str, p.readString.1 = some str → ZeroFrom p str :=
      ⟨fun valid => valid.string rfl,fun string => ⟨within,fun _ => string,nofun⟩⟩
    rw [parts,string_iff reading]
    dsimp only [Sure]
    split
    · rename_i there
      obtain ⟨len,read,count⟩ := read16_there there
      rw [read]
      dsimp only
      have prefixed : ntohs p.data p.cursor.toNat = 0 ↔ len = 0 := by
        rw [← UInt16.toNat_inj,count]
        rfl
      have zero : len = 0 → p.data.getD (p.cursor+2-1).toNat 0 = 0 := by
        rintro rfl
        have none : (0 : UInt16).toNat = 0 := rfl
        rw [show (p.cursor+2-1).toNat = p.cursor.toNat+1 by omega,← UInt8.toNat_inj]
        show _ = 0
        omega
      rw [prefixed]
      exact ⟨fun given empty => given empty there (zero empty),fun given empty _ _ => given empty⟩
    · rename_i torn
      rw [read16_short (by omega)]
      exact ⟨fun given => given rfl,fun given _ => given⟩
  | readBinary =>
    have parts : Valid p .readBinary ↔
        p.readBinary.1.1 = 0 ∨ ∃ ptr, p.readBinary.1.2 = some ptr ∧ ptr+p.readBinary.1.1.toNat ≤ p.datalen :=
      ⟨fun valid => valid.binary rfl,fun binary => ⟨within,nofun,fun _ => binary⟩⟩
    rw [parts]
    dsimp only [Sure,readBinary]
    by_cases there : p.cursor+2 ≤ p.datalen
    · obtain ⟨len,read,count⟩ := read16_there there
      rw [read]
      dsimp only
      have prefixed : ntohs p.data p.cursor.toNat = len.toNat := count.symm
      rw [prefixed]
      split
      · rename_i fits
        exact ⟨fun _ _ => by omega,fun _ => .inr ⟨_,rfl,by dsimp only; omega⟩⟩
      · rename_i beyond
        constructor
        · rintro (none | ⟨ptr,given,_⟩) _
          · have zero : len.toNat = 0 := congrArg UInt16.toNat none
            omega
          · cases given
        · intro fits
          exact absurd (fits there) (by omega)
    · rw [read16_short (by omega)]
      dsimp only
      refine ⟨fun _ whole => absurd whole there,fun _ => .inl ?_⟩
      split <;> rfl

-- A call leaves the cursor, or moves it on among the bytes that are there.
theorem read_onward (behind : List UInt8) (p : NetPacket) (call : ReadCall) : p.cursor ≤ (p.read behind call).2.cursor ∧
    ((p.read behind call).2.cursor = p.cursor ∨ (p.read behind call).2.cursor ≤ p.datalen) := by
  have short : p.cursor ≤ p.read16.2.cursor ∧ (p.read16.2.cursor = p.cursor ∨ p.read16.2.cursor ≤ p.datalen) ∧ p.read16.2.datalen = p.datalen := by
    unfold read16
    split
    · exact ⟨by dsimp only; omega,.inr (by dsimp only; omega),rfl⟩
    · exact ⟨Int.le_refl _,.inl rfl,rfl⟩
  obtain ⟨moved,place,length⟩ := short
  cases call with
  | read8 =>
    dsimp only [read,read8]
    split
    · exact ⟨by dsimp only; omega,.inr (by dsimp only; omega)⟩
    · exact ⟨Int.le_refl _,.inl rfl⟩
  | read16 => exact ⟨moved,place⟩
  | read32 =>
    dsimp only [read,read32]
    split
    · exact ⟨by dsimp only; omega,.inr (by dsimp only; omega)⟩
    · exact ⟨Int.le_refl _,.inl rfl⟩
  | readString =>
    dsimp only [read,readString]
    rw [length]
    split
    · exact ⟨by dsimp only; omega,.inr (by dsimp only; omega)⟩
    · exact ⟨moved,place⟩
  | readData =>
    dsimp only [read,readData]
    rw [length]
    split
    · exact ⟨by dsimp only; omega,.inr (by dsimp only; omega)⟩
    · exact ⟨moved,place⟩
  | readBinary =>
    dsimp only [read,readBinary]
    rw [length]
    split
    · exact ⟨by dsimp only; omega,.inr (by dsimp only; omega)⟩
    · exact ⟨moved,place⟩

theorem read_reading (reading : Reading p) (behind : List UInt8) (call : ReadCall) : Reading (p.read behind call).2 := by
  obtain ⟨nonneg,block,low,place⟩ := reading
  obtain ⟨moved,next⟩ := read_onward behind p call
  rw [read_cursor]
  refine ⟨nonneg,block,by dsimp only; omega,?_⟩
  rcases next with same | inside
  · rw [same]
    exact place
  · exact .inr inside

inductive ReadStep : NetPacket → ReadCall → NetPacket → Prop where
  | call (behind : List UInt8) (p : NetPacket) (call : ReadCall) : ReadStep p call (p.read behind call).2

theorem reads_valid_iff (arrived : Arrived p) (path : Path ReadStep p taken last) :
    (∀ t ∈ taken, Valid t.before t.event) ↔ ∀ t ∈ taken, Sure t.before t.event := by
  refine path.exactly_from Reading (fun before call _ => Valid before call) Sure ?_ ?_ ?_
  · exact ⟨arrived.nonneg,arrived.block,Int.le_of_eq arrived.start.symm,.inl arrived.start⟩
  · rintro before call after reading ⟨⟩ _
    exact read_reading reading _ call
  · intro before call after reading _
    exact valid_iff reading call

-- A byte string that is there.
def blob : NetPacket := (new.recv (some [0,0,0,0,0,12,0,1,0,2,7,9])).2

theorem blob_arrived : Arrived blob := recv_arrived new_ok (by decide)

theorem reads_valid_blob : Valid blob .readBinary :=
  (reads_valid_iff blob_arrived (.step .nil (.call [] _ .readBinary))).mpr
    (List.forall_mem_singleton.mpr fun _ => by decide) _ (List.mem_singleton_self _)

-- One that is longer than what has arrived.
theorem reads_invalid : ¬ ∀ (p last : NetPacket) (taken : List (Transition NetPacket ReadCall)), Arrived p →
    Path ReadStep p taken last → ∀ t ∈ taken, Valid t.before t.event := by
  intro claim
  have valid := claim (new.recv (some [0,0,0,0,0,12,0,1,0,3,7,9])).2 _ _ (recv_arrived new_ok (by decide))
    (.step .nil (.call [] _ .readBinary)) _ (List.mem_singleton_self _)
  rcases valid.binary rfl with none | ⟨ptr,given,_⟩
  · cases none
  · cases given

end NetPacket
end PcNetwork.Netlib
