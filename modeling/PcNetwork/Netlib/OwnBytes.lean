import PcNetwork.Netlib.Twins

namespace PcNetwork.Netlib
namespace NetPacket

-- The same frame with other bytes behind it, d bytes of them received in all.
def fill (p : NetPacket) (y : UInt8) (d : Int) : NetPacket :=
  {p with data := Block.patch p.data (max p.getLen 8) (List.replicate (2000-max p.getLen 8) y),datalen := d}

-- As short as it can be.
def least (p : NetPacket) : Int := max p.getLen 6

theorem fill_twin {y : UInt8} {d : Int} (framed : Framed p) (low : p.least ≤ d) (high : d ≤ maxPacketSize) : Twin p (p.fill y d) := by
  obtain ⟨ok,header,whole,start,place⟩ := id framed
  obtain ⟨nonneg,max,fits,block⟩ := id ok
  have limit : maxPacketSize = 2000 := rfl
  have six : packetHeaderSize = 6 := rfl
  unfold least at low
  have length : (p.fill y d).data.length = p.data.length := Block.length_patch (by rw [List.length_replicate]; omega)
  have same : (p.fill y d).getLen = p.getLen := ntohs_patch_before (by omega) (by omega)
  have front : (p.fill y d).frame = p.frame := by
    rw [frame,frame,same]
    exact Block.slice_patch_before (by omega) (by omega)
  refine ⟨framed,⟨⟨by show 0 ≤ d; omega,max,high,by rw [length]; exact block⟩,by show (_ : Int) ≤ d; omega,?_,start,?_⟩,same,front,rfl⟩
  · rw [same]
    show _ ≤ d
    omega
  · rw [same]
    exact place

theorem fill_byte {y : UInt8} {d : Int} {i : Nat} (framed : Framed p) (behind : p.getLen ≤ i) (low : 8 ≤ i) (high : i < 2000) :
    (p.fill y d).data.getD i 0 = y := by
  have block := framed.ok.block
  have limit : maxPacketSize = 2000 := rfl
  obtain ⟨k,rfl⟩ : ∃ k, i = max p.getLen 8+k := ⟨i-max p.getLen 8,by omega⟩
  have inside : k < (List.replicate (2000-max p.getLen 8) y).length := by rw [List.length_replicate]; omega
  unfold fill
  rw [Block.getD_patch_at (by omega) inside,List.getD_eq_getElem?_getD,List.getElem?_replicate_of_lt (by simpa using inside),
    Option.getD_some]

-- The two that differ most: no byte behind the frame, and as many as the block holds.
def bare (p : NetPacket) : NetPacket := p.fill 0 p.least
def followed (p : NetPacket) (y : UInt8) : NetPacket := p.fill y maxPacketSize

@[simp] theorem bare_cursor (p : NetPacket) : p.bare.cursor = p.cursor := rfl
@[simp] theorem bare_datalen (p : NetPacket) : p.bare.datalen = p.least := rfl
@[simp] theorem followed_cursor (p : NetPacket) (y : UInt8) : (p.followed y).cursor = p.cursor := rfl
@[simp] theorem followed_datalen (p : NetPacket) (y : UInt8) : (p.followed y).datalen = maxPacketSize := rfl

theorem least_le (framed : Framed p) : p.least ≤ maxPacketSize := by
  have whole := framed.whole
  have fits := framed.ok.fits
  have limit : maxPacketSize = 2000 := rfl
  unfold least
  omega

theorem bare_twin (framed : Framed p) : Twin p p.bare := fill_twin framed (Int.le_refl _) (least_le framed)
theorem followed_twin (framed : Framed p) (y : UInt8) : Twin p (p.followed y) := fill_twin framed (least_le framed) (Int.le_refl _)

theorem followed_byte {y : UInt8} {i : Nat} (framed : Framed p) (behind : p.getLen ≤ i) (low : 8 ≤ i) (high : i < 2000) :
    (p.followed y).data.getD i 0 = y := fill_byte framed behind low high

-- A call of a fixed length, whose value is not 0 if its last byte is 1.
theorem settled_of_same {f : List UInt8 → Nat → α} {n : Int} (zero : α) (framed : Framed p) (positive : 0 < n)
    (changes : ∀ data off, data.getD (off+(n.toNat-1)) 0 = 1 → f data off ≠ zero)
    (same : ∀ q, Twin p q → (taking n (fun data off => some (f data off)) q).1.getD zero =
      (taking n (fun data off => some (f data off)) p).1.getD zero) : Settled p n := by
  by_contra other
  unfold Settled at other
  rw [not_or] at other
  obtain ⟨beyond,room⟩ := other
  have low := framed.low
  have limit : maxPacketSize = 2000 := rfl
  have eight : packetContentPos = 8 := rfl
  have first := same _ (bare_twin framed)
  have second := same _ (followed_twin framed 1)
  rw [taking_out (by rw [bare_datalen,bare_cursor]; unfold least; omega)] at first
  have last : (p.followed 1).data.getD (p.cursor.toNat+(n.toNat-1)) 0 = 1 := followed_byte framed (by omega) (by omega) (by omega)
  rw [taking_some (by rw [followed_datalen,followed_cursor]; omega) rfl,← first] at second
  exact changes _ _ last second

theorem ntohs_last {data : List UInt8} {off : Nat} (last : data.getD (off+1) 0 = 1) : UInt16.ofNat (ntohs data off) ≠ 0 := by
  intro same
  have count := ntohs_small data off
  have zero : (0 : UInt16).toNat = 0 := rfl
  have one : (1 : UInt8).toNat = 1 := rfl
  rw [same] at count
  unfold ntohs at count
  rw [last] at count
  omega

theorem ntohl_last {data : List UInt8} {off : Nat} (last : data.getD (off+3) 0 = 1) : UInt32.ofNat (ntohl data off) ≠ 0 := by
  intro same
  have count := congrArg UInt32.toNat same
  have zero : (0 : UInt32).toNat = 0 := rfl
  have one : (1 : UInt8).toNat = 1 := rfl
  rw [UInt32.toNat_ofNat'] at count
  unfold ntohl ntohs at count
  rw [last] at count
  omega

theorem read16_keeps (p : NetPacket) : p.read16.2.datalen = p.datalen ∧ p.read16.2.getLen = p.getLen := by
  unfold read16
  split <;> exact ⟨rfl,rfl⟩

-- Where a length is settled, there is a frame with some content.
theorem settled_place (framed : Framed p) (own : Settled p 2) : p.read16.2.cursor ≤ p.getLen ∧ 10 ≤ p.getLen := by
  have after := (read16_twin ⟨framed,framed,rfl,rfl,rfl⟩ own).2.first.place
  have start := framed.place
  have low := framed.low
  have limit : maxPacketSize = 2000 := rfl
  have eight : packetContentPos = 8 := rfl
  rw [(read16_keeps p).2] at after
  unfold Settled at own
  omega

-- The bytes that a long call takes, where its length is settled.
theorem block_settled {f : UInt16 → List UInt8 → Nat → Option (List UInt8)} (framed : Framed p) (own : Settled p 2)
    (gives : ∀ len data off, data.getD (off+len.toNat-1) 0 = 0 → f len data off ≠ none)
    (same : ∀ q, Twin p q → (taking q.read16.1.toNat (f q.read16.1) q.read16.2).1 = (taking p.read16.1.toNat (f p.read16.1) p.read16.2).1) :
    Settled p.read16.2 p.read16.1.toNat := by
  by_contra other
  unfold Settled at other
  rw [not_or,(read16_keeps p).2] at other
  obtain ⟨beyond,room⟩ := other
  have limit : maxPacketSize = 2000 := rfl
  have eight : packetContentPos = 8 := rfl
  obtain ⟨within,some⟩ := settled_place framed own
  obtain ⟨length,bare⟩ := read16_twin (bare_twin framed) own
  obtain ⟨again,followed⟩ := read16_twin (followed_twin framed 0) own
  have low := bare.first.low
  have shorter : p.bare.read16.2.datalen = p.least := (read16_keeps _).1
  have longer : (p.followed 0).read16.2.datalen = maxPacketSize := (read16_keeps _).1
  have first := same _ (bare_twin framed)
  have second := same _ (followed_twin framed 0)
  rw [taking_out (by rw [shorter,length,bare.cursor]; unfold least; omega)] at first
  have zero : (p.followed 0).data.getD (p.read16.2.cursor.toNat+p.read16.1.toNat-1) 0 = 0 :=
    fill_byte framed (by omega) (by omega) (by omega)
  rw [again] at second
  cases found : f p.read16.1 (p.followed 0).read16.2.data (p.followed 0).read16.2.cursor.toNat with
  | none =>
    rw [read16_data,followed.cursor] at found
    exact gives _ _ _ zero found
  | some bytes =>
    rw [taking_some (by rw [longer,followed.cursor]; omega) found,← first] at second
    cases second

theorem ended_of_same (framed : Framed p) (own : Settled p 2)
    (same : ∀ q heap, Twin p q → (q.read heap .readString).1 = (p.read behind .readString).1) : Ended p.read16.2 p.read16.1 := by
  intro zero ending
  by_contra missing
  rw [read16_data] at ending missing
  rw [(read16_keeps p).2] at missing
  obtain ⟨within,some⟩ := settled_place framed own
  have whole := framed.whole
  have fits := framed.ok.fits
  have limit : maxPacketSize = 2000 := rfl
  have eight : packetContentPos = 8 := rfl
  -- the characters that there are up to the end of the frame, those up to the end of the
  -- block, and then the memory behind it
  have seen : ∀ heap, ((p.followed 1).read heap .readString).1 =
      .string (.some (Block.slice p.data p.read16.2.cursor.toNat (p.getLen-p.read16.2.cursor.toNat) ++
        (List.replicate (2000-p.getLen) 1 ++ heap).takeWhile (· ≠ 0))) := by
    intro heap
    have twin := followed_twin framed 1
    obtain ⟨length,after⟩ := read16_twin twin own
    have low := after.first.low
    have longer : (p.followed 1).read16.2.datalen = maxPacketSize := (read16_keeps _).1
    have further : ((p.followed 1).data ++ heap).drop p.read16.2.cursor.toNat =
        Block.slice p.data p.read16.2.cursor.toNat (p.getLen-p.read16.2.cursor.toNat) ++ (List.replicate (2000-p.getLen) 1 ++ heap) := by
      have block := framed.ok.block
      have whole : max p.getLen 8 = p.getLen := by omega
      have last : p.data.drop (p.getLen+(2000-p.getLen)) = [] := List.drop_eq_nil_of_le (by omega)
      unfold followed fill Block.patch
      dsimp only
      rw [whole,List.length_replicate,last,List.append_nil,List.append_assoc,
        List.drop_append_of_le_length (by rw [List.length_take]; omega),Block.slice,List.drop_take]
    have ends : (p.followed 1).data.getD (p.read16.2.cursor.toNat-1) 0 = 0 := (twin.byte (by omega)).trans ending
    have found := stringOf_empty heap ends
    rw [further,List.takeWhile_append_of_pos (by
      intro c member
      simpa using fun none : c = 0 => missing (none ▸ member))] at found
    rw [readString_taking _ after.second.low,length,zero,
      taking_some (by rw [longer,after.cursor]; show _+0 ≤ maxPacketSize; omega) (by rw [read16_data,after.cursor]; exact found)]
  have first := same _ [] (followed_twin framed 1)
  have second := same _ [1] (followed_twin framed 1)
  rw [seen,← second,seen] at first
  have count := congrArg List.length (Option.some.inj (Value.string.inj first))
  simp at count

-- A length that is not settled is not read where no byte follows.
theorem bare_read16 {p : NetPacket} (beyond : p.getLen < p.cursor+2) (low : packetContentPos ≤ p.cursor) : p.bare.read16 = (0,p.bare) := by
  have eight : packetContentPos = 8 := rfl
  apply read16_short
  show p.least < p.cursor+2
  unfold least
  omega

-- With y behind the frame it ends with y.
theorem followed_read16 (framed : Framed p) (beyond : p.getLen < p.cursor+2) (room : p.cursor+2 ≤ maxPacketSize) (y : UInt8) :
    ∃ len : UInt16, (p.followed y).read16 = (len,{p.followed y with cursor := p.cursor+2}) ∧
      len.toNat = 256*((p.followed y).data.getD p.cursor.toNat 0).toNat+y.toNat := by
  have low := framed.low
  have limit : maxPacketSize = 2000 := rfl
  have eight : packetContentPos = 8 := rfl
  have last : (p.followed y).data.getD (p.cursor.toNat+1) 0 = y := followed_byte framed (by omega) (by omega) (by omega)
  obtain ⟨len,read,count⟩ := read16_there (p := p.followed y) (by rw [followed_cursor,followed_datalen]; omega)
  rw [followed_cursor,last] at count
  exact ⟨len,read,count⟩

-- A length that ends with a 1 is not 0.
theorem binary_long {p : NetPacket} (there : p.cursor+2 ≤ p.datalen) (last : p.data.getD (p.cursor.toNat+1) 0 = 1) (bytes : Option (List UInt8)) :
    (p.read behind .readBinary).1 ≠ .binary 0 bytes := by
  obtain ⟨len,read,count⟩ := read16_there there
  rw [readBinary_taking,read]
  intro same
  have none : len.toNat = (0 : UInt16).toNat := congrArg UInt16.toNat (Value.binary.inj same).1
  have zero : (0 : UInt16).toNat = 0 := rfl
  have one : (1 : UInt8).toNat = 1 := rfl
  rw [last] at count
  omega

theorem data_long {p : NetPacket} (there : p.cursor+2 ≤ p.datalen) (low : 0 ≤ p.cursor) (within : p.datalen ≤ p.data.length)
    (last : p.data.getD (p.cursor.toNat+1) 0 = 1) : (p.read behind .readData).1 ≠ .data (some []) := by
  obtain ⟨len,read,count⟩ := read16_there there
  have one : (1 : UInt8).toNat = 1 := rfl
  rw [last] at count
  rw [readData_taking,read]
  intro same
  dsimp only at same
  by_cases fits : p.cursor+2+len.toNat ≤ p.datalen
  · rw [taking_some fits rfl] at same
    have nothing := congrArg List.length (Option.some.inj (Value.data.inj same))
    rw [Block.length_slice (by dsimp only; omega),List.length_nil] at nothing
    omega
  · rw [taking_out (by dsimp only; omega)] at same
    cases same

theorem binary_settled (framed : Framed p) (same : ∀ q, Twin p q → (q.read behind .readBinary).1 = (p.read behind .readBinary).1) : Settled p 2 := by
  by_contra other
  unfold Settled at other
  rw [not_or] at other
  have low := framed.low
  have limit : maxPacketSize = 2000 := rfl
  have eight : packetContentPos = 8 := rfl
  have first := same _ (bare_twin framed)
  have second := same _ (followed_twin framed 1)
  rw [readBinary_taking p.bare,bare_read16 (by omega) low] at first
  rw [← first] at second
  have last : (p.followed 1).data.getD (p.cursor.toNat+1) 0 = 1 := followed_byte framed (by omega) (by omega) (by omega)
  exact binary_long (p := p.followed 1) (by rw [followed_cursor,followed_datalen]; omega) last _ second

theorem data_settled (framed : Framed p) (same : ∀ q, Twin p q → (q.read behind .readData).1 = (p.read behind .readData).1) : Settled p 2 := by
  by_contra other
  unfold Settled at other
  rw [not_or] at other
  obtain ⟨beyond,room⟩ := other
  have low := framed.low
  have limit : maxPacketSize = 2000 := rfl
  have eight : packetContentPos = 8 := rfl
  have first := same _ (bare_twin framed)
  rw [readData_taking,bare_read16 (by omega) low] at first
  dsimp only at first
  by_cases there : p.cursor ≤ p.least
  · -- an empty block, or one that is not
    have second := same _ (followed_twin framed 1)
    have block := (followed_twin framed 1).second.ok.block
    rw [block_nothing there] at first
    rw [← first] at second
    have last : (p.followed 1).data.getD (p.cursor.toNat+1) 0 = 1 := followed_byte framed (by omega) (by omega) (by omega)
    exact data_long (p := p.followed 1) (by rw [followed_cursor,followed_datalen]; omega) (by rw [followed_cursor]; omega)
      (Int.le_of_eq block.symm) last second
  · -- none, or an empty block
    unfold least at there
    obtain ⟨len,read,count⟩ := followed_read16 framed (by omega) (by omega) 0
    have zero : (0 : UInt8).toNat = 0 := rfl
    have second := same _ (followed_twin framed 0)
    have byte : (p.followed 0).data.getD p.cursor.toNat 0 = 0 := followed_byte framed (by omega) (by omega) (by omega)
    rw [byte] at count
    rw [taking_out (by rw [bare_datalen,bare_cursor]; show p.least < p.cursor+0; unfold least; omega)] at first
    rw [← first,readData_taking,read,taking_some (by dsimp only; rw [followed_datalen]; omega) rfl] at second
    cases second

theorem string_settled (framed : Framed p) (same : ∀ q, Twin p q → (q.read behind .readString).1 = (p.read behind .readString).1) :
    Settled p 2 ∨ TornAt p := by
  by_contra other
  unfold Settled at other
  rw [not_or,not_or] at other
  obtain ⟨⟨beyond,room⟩,whole⟩ := other
  have low := framed.low
  have limit : maxPacketSize = 2000 := rfl
  have eight : packetContentPos = 8 := rfl
  have one : (1 : UInt8).toNat = 1 := rfl
  have first := same _ (bare_twin framed)
  have bare := bare_read16 (by omega) low
  rw [readString_taking p.bare (by rw [bare]; exact low),bare] at first
  dsimp only at first
  by_cases given : p.cursor ≤ p.least ∧ p.bare.data.getD (p.cursor.toNat-1) 0 = 0
  · -- an empty string, and none where it has to end in a 1
    obtain ⟨len,read,count⟩ := followed_read16 framed (by omega) (by omega) 1
    have second := same _ (followed_twin framed 1)
    rw [taking_some (by rw [bare_cursor]; show p.cursor+0 ≤ p.least; omega) (stringOf_empty _ given.2)] at first
    rw [← first,readString_taking _ (by rw [read]; dsimp only; omega),read] at second
    dsimp only at second
    by_cases fits : p.cursor+2+len.toNat ≤ maxPacketSize
    · have last : (p.followed 1).data.getD ((p.cursor+2).toNat+len.toNat-1) 0 = 1 := followed_byte framed (by omega) (by omega) (by omega)
      have missing := stringOf_other behind (fun zero => by rw [last] at zero; cases zero)
      rw [taking_none (p := {p.followed 1 with cursor := p.cursor+2}) missing] at second
      cases second
    · rw [taking_out (by dsimp only; rw [followed_datalen]; omega)] at second
      cases second
  · -- none, and one where it ends in a 0
    obtain ⟨len,read,count⟩ := followed_read16 framed (by omega) (by omega) 0
    have zero : (0 : UInt8).toNat = 0 := rfl
    have second := same _ (followed_twin framed 0)
    have refused : (taking (0 : UInt16).toNat (stringOf behind 0) p.bare).1 = none := by
      by_cases there : p.cursor ≤ p.least
      · rw [taking_none (stringOf_missing fun zero => given ⟨there,zero⟩)]
      · rw [taking_out (by rw [bare_datalen,bare_cursor]; show p.least < p.cursor+0; omega)]
    rw [← first,readString_taking _ (by rw [read]; dsimp only; omega),read,refused] at second
    dsimp only at second
    have large : maxPacketSize < p.cursor+2+len.toNat := by
      by_contra small
      have last : (p.followed 0).data.getD ((p.cursor+2).toNat+len.toNat-1) 0 = 0 := followed_byte framed (by omega) (by omega) (by omega)
      have given := stringOf_zero behind last
      rw [taking_some (p := {p.followed 0 with cursor := p.cursor+2}) (by dsimp only; rw [followed_datalen]; omega) given] at second
      cases second
    by_cases behind : p.getLen ≤ p.cursor.toNat
    · have byte : (p.followed 0).data.getD p.cursor.toNat 0 = 0 := followed_byte framed behind (by omega) (by omega)
      rw [byte] at count
      omega
    · rw [(followed_twin framed 0).byte (by omega)] at count
      rw [(bare_twin framed).byte (by omega)] at given
      refine whole ⟨by omega,by omega,by omega,fun zero => given ⟨?_,zero⟩⟩
      unfold least
      omega

theorem call_of_same {call : ReadCall} (framed : Framed p)
    (further : ∀ q heap, Twin p q → (q.read heap call).1 = (p.read behind call).1) :
    OwnCall p call ∨ call = .readString ∧ TornAt p := by
  have same : ∀ q, Twin p q → (q.read behind call).1 = (p.read behind call).1 := fun q => further q behind
  cases call with
  | read8 =>
    refine .inl (settled_of_same (f := fun data off => data.getD off 0) 0 framed (by decide) ?_ ?_)
    · intro data off one
      have one : data.getD off 0 = 1 := one
      rw [one]
      decide
    · intro q twin
      have value := Value.uint8.inj (same q twin)
      rw [read8_taking,read8_taking] at value
      exact value
  | read16 =>
    refine .inl (settled_of_same (f := fun data off => UInt16.ofNat (ntohs data off)) 0 framed (by decide) (fun _ _ => ntohs_last) ?_)
    intro q twin
    have value := Value.uint16.inj (same q twin)
    rw [read16_taking,read16_taking] at value
    exact value
  | read32 =>
    refine .inl (settled_of_same (f := fun data off => UInt32.ofNat (ntohl data off)) 0 framed (by decide) (fun _ _ => ntohl_last) ?_)
    intro q twin
    have value := Value.uint32.inj (same q twin)
    rw [read32_taking,read32_taking] at value
    exact value
  | readData =>
    have own := data_settled framed same
    refine .inl ⟨own,block_settled (f := blockOf) framed own (fun _ _ _ _ none => by cases none) fun q twin => ?_⟩
    have value := same q twin
    rw [readData_taking,readData_taking] at value
    exact Value.data.inj value
  | readBinary =>
    have own := binary_settled framed same
    refine .inl ⟨own,block_settled (f := blockOf) framed own (fun _ _ _ _ none => by cases none) fun q twin => ?_⟩
    have value := same q twin
    rw [readBinary_taking,readBinary_taking] at value
    exact (Value.binary.inj value).2
  | readString =>
    refine (string_settled framed same).imp (fun own => ⟨own,?_,ended_of_same framed own further⟩) fun torn => ⟨rfl,torn⟩
    refine block_settled (f := stringOf behind) framed own (fun len data off zero => by rw [stringOf,if_pos zero]; intro none; cases none) fun q twin => ?_
    have after := (read16_twin twin own).2
    have value := same q twin
    rw [readString_taking q after.second.low,readString_taking p after.first.low] at value
    exact Value.string.inj value

-- Behind a torn length: what a call gets where no byte follows, and one place further on.
def torn (p : NetPacket) (y : UInt8) (d : Int) : NetPacket := {p.fill y d with cursor := p.cursor+2}

theorem torn_adrift {y : UInt8} {d : Int} (at_last : TornAt p) (low : p.getLen+1 ≤ d) (high : d ≤ maxPacketSize) : Adrift p.getLen (p.torn y d) :=
  ⟨high,.inr ⟨by have := at_last.last; show p.cursor+2 = _; omega,low⟩⟩

theorem torn_least (framed : Framed p) (at_last : TornAt p) : p.least = p.getLen := by
  have low := framed.low
  have last := at_last.last
  have eight : packetContentPos = 8 := rfl
  unfold least
  omega

theorem bare_adrift (framed : Framed p) (at_last : TornAt p) : Adrift p.getLen p.bare :=
  ⟨least_le framed,.inl ⟨at_last.last,torn_least framed at_last⟩⟩

theorem torn_byte {y : UInt8} {i : Nat} (framed : Framed p) (behind : p.getLen ≤ i) (low : 8 ≤ i) (high : i < 2000) :
    (p.torn y maxPacketSize).data.getD i 0 = y := fill_byte (d := maxPacketSize) framed behind low high

theorem torn_string (framed : Framed p) (at_last : TornAt p) : ∃ str, ((p.torn 0 maxPacketSize).read behind .readString).1 = .string (some str) := by
  obtain ⟨room,last,_,_⟩ := at_last
  have low := framed.low
  have limit : maxPacketSize = 2000 := rfl
  have eight : packetContentPos = 8 := rfl
  have place : (p.torn 0 maxPacketSize).cursor = p.cursor+2 := rfl
  have size : (p.torn 0 maxPacketSize).datalen = maxPacketSize := rfl
  -- the length is 0, read or not
  obtain ⟨q,read,data,datalen,start,most⟩ : ∃ q, (p.torn 0 maxPacketSize).read16 = (0,q) ∧ q.data = (p.torn 0 maxPacketSize).data ∧
      q.datalen = maxPacketSize ∧ p.cursor+2 ≤ q.cursor ∧ q.cursor ≤ maxPacketSize := by
    by_cases more : p.cursor+4 ≤ maxPacketSize
    · obtain ⟨len,read,count⟩ := read16_there (p := p.torn 0 maxPacketSize) (by omega)
      have zero : (0 : UInt8).toNat = 0 := rfl
      rw [place,torn_byte framed (by omega) (by omega) (by omega),torn_byte framed (by omega) (by omega) (by omega)] at count
      have none : len = 0 := UInt16.toNat_inj.mp (by rw [count]; rfl)
      exact ⟨{p.torn 0 maxPacketSize with cursor := p.cursor+2+2},none ▸ read,rfl,rfl,by dsimp only; omega,by dsimp only; omega⟩
    · exact ⟨_,read16_short (by omega),rfl,rfl,by omega,by omega⟩
  have zero : q.data.getD (q.cursor.toNat-1) 0 = 0 := by
    rw [data]
    exact torn_byte framed (by omega) (by omega) (by omega)
  rw [readString_taking _ (by rw [read]; dsimp only; omega),read]
  dsimp only
  rw [taking_some (by show q.cursor+0 ≤ _; omega) (stringOf_empty _ zero)]
  exact ⟨_,rfl⟩

theorem harmless_of_same {call : ReadCall} (framed : Framed p) (at_last : TornAt p)
    (same : ∀ (y : UInt8) (d : Int), p.getLen+1 ≤ d → d ≤ maxPacketSize → ((p.torn y d).read behind call).1 = (p.bare.read behind call).1) :
    Harmless p.getLen call := by
  obtain ⟨room,last,long,before⟩ := id at_last
  have low := framed.low
  have limit : maxPacketSize = 2000 := rfl
  have eight : packetContentPos = 8 := rfl
  have least : p.bare.datalen = p.getLen := torn_least framed at_last
  have place : (p.torn 1 maxPacketSize).cursor = p.cursor+2 := rfl
  have size : (p.torn 1 maxPacketSize).datalen = maxPacketSize := rfl
  have start : p.bare.read16 = (0,p.bare) := bare_read16 (by omega) low
  have ones := same 1 maxPacketSize (by omega) (Int.le_refl _)
  cases call with
  | read8 =>
    have short : (p.torn 0 (p.getLen+1)).read8 = (0,p.torn 0 (p.getLen+1)) := if_neg (by show ¬ p.cursor+2 ≤ p.getLen+1-1; omega)
    have own : p.bare.read8 = (p.bare.data.getD p.cursor.toNat 0,{p.bare with cursor := p.cursor+1}) := if_pos (by rw [bare_cursor]; omega)
    have byte := Value.uint8.inj (same 0 (p.getLen+1) (Int.le_refl _) (by omega))
    rw [short,own,(bare_twin framed).byte (by omega)] at byte
    have none : (p.data.getD p.cursor.toNat 0).toNat = 0 := congrArg UInt8.toNat byte.symm
    omega
  | read16 =>
    by_contra more
    unfold Harmless at more
    have read : (p.torn 1 maxPacketSize).read16 = (UInt16.ofNat (ntohs (p.torn 1 maxPacketSize).data (p.cursor+2).toNat),_) := if_pos (by omega)
    have value := Value.uint16.inj ones
    rw [start,read] at value
    exact ntohs_last (torn_byte framed (by omega) (by omega) (by omega)) value
  | read32 =>
    by_contra more
    unfold Harmless at more
    have read : (p.torn 1 maxPacketSize).read32 = (UInt32.ofNat (ntohl (p.torn 1 maxPacketSize).data (p.cursor+2).toNat),_) := if_pos (by omega)
    have short : p.bare.read32 = (0,p.bare) := if_neg (by rw [bare_cursor]; omega)
    have value := Value.uint32.inj ones
    rw [short,read] at value
    exact ntohl_last (torn_byte framed (by omega) (by omega) (by omega)) value
  | readString =>
    obtain ⟨str,given⟩ := torn_string framed at_last
    obtain ⟨_,refused,_⟩ := read_torn _ (bare_twin framed) at_last
    have heads := same 0 maxPacketSize (by omega) (Int.le_refl _)
    rw [given,refused] at heads
    cases heads
  | readData =>
    by_contra more
    unfold Harmless at more
    have block := (followed_twin framed 1).second.ok.block
    have there : p.bare.cursor ≤ p.bare.datalen := by rw [bare_cursor]; omega
    rw [readData_taking p.bare,start,block_nothing there] at ones
    refine data_long (p := p.torn 1 maxPacketSize) (by omega) (by omega) (Int.le_of_eq block.symm) ?_ ones
    exact torn_byte framed (by omega) (by omega) (by omega)
  | readBinary =>
    by_contra more
    unfold Harmless at more
    rw [readBinary_taking p.bare,start] at ones
    refine binary_long (p := p.torn 1 maxPacketSize) (by omega) ?_ _ ones
    exact torn_byte framed (by omega) (by omega) (by omega)

theorem torn_of_same {calls : List ReadCall} (framed : Framed p) (at_last : TornAt p)
    (same : ∀ (y : UInt8) (d : Int), p.getLen+1 ≤ d → d ≤ maxPacketSize → (readAll behind calls (p.torn y d)).1 = (readAll behind calls p.bare).1) :
    ∀ call ∈ calls, Harmless p.getLen call := by
  induction calls with
  | nil => nofun
  | cons call rest ih =>
    have first : Harmless p.getLen call := harmless_of_same framed at_last fun y d low high => by
      have heads := same y d low high
      unfold readAll at heads
      exact (List.cons.inj heads).1
    intro other member
    rcases List.mem_cons.mp member with rfl | later
    · exact first
    · refine ih (fun y d low high => ?_) other later
      have tails := same y d low high
      unfold readAll at tails
      rw [read_harmless (torn_adrift at_last low high) first,read_harmless (bare_adrift framed at_last) first] at tails
      exact (List.cons.inj tails).2

theorem own_of_same (behind : List UInt8) {calls : List ReadCall} (framed : Framed p)
    (same : ∀ q heap, Twin p q → (readAll heap calls q).1 = (readAll behind calls p).1) : OwnBytes p calls := by
  induction calls generalizing p with
  | nil => trivial
  | cons call rest ih =>
    have heads : ∀ q heap, Twin p q → (q.read heap call).1 = (p.read behind call).1 :=
      fun q heap twin => (List.cons.inj (same q heap twin)).1
    have tails : ∀ q heap, Twin p q → (readAll heap rest (q.read heap call).2).1 = (readAll behind rest (p.read behind call).2).1 :=
      fun q heap twin => (List.cons.inj (same q heap twin)).2
    rcases call_of_same framed heads with own | ⟨rfl,at_last⟩
    · have moved : Framed (p.read behind call).2 := (call_twin behind behind ⟨framed,framed,rfl,rfl,rfl⟩ own).2.first
      refine .inl ⟨own,read_after behind p call ▸ ih moved fun r heap later => ?_⟩
      -- the packet r before the call
      have back : Twin p {r with cursor := p.cursor} := by
        have kept := read_cursor behind p call
        obtain ⟨_,⟨ok,header,whole,_,_⟩,getLen,frame,_⟩ := later
        rw [kept] at getLen frame
        refine ⟨framed,⟨⟨ok.nonneg,ok.max,ok.fits,ok.block⟩,header,whole,framed.low,?_⟩,getLen,frame,rfl⟩
        have length : NetPacket.getLen {r with cursor := p.cursor} = p.getLen := getLen
        rw [length]
        exact framed.place
      have after : (NetPacket.read heap {r with cursor := p.cursor} call).2 = r := by
        rw [read_cursor,(call_twin behind heap back own).2.cursor,← later.cursor]
      rw [← tails _ heap back,after]
    · have later : ∀ (y : UInt8) (d : Int), p.getLen+1 ≤ d → d ≤ maxPacketSize →
          (readAll behind rest (p.torn y d)).1 = (readAll behind rest p.bare).1 := by
        intro y d low high
        have least := torn_least framed at_last
        have twin : Twin p (p.fill y d) := fill_twin framed (by omega) high
        have further := tails _ behind twin
        have bare := tails _ behind (bare_twin framed)
        rw [read_behind twin at_last low] at further
        rw [read_last (bare_twin framed) at_last least] at bare
        exact further.trans bare.symm
      exact .inr ⟨rfl,at_last,torn_of_same framed at_last later⟩

theorem delivered_framed (delivered : Delivered p) : Framed p := by
  obtain ⟨ok,start,cling⟩ := (delivered_parts p).mp delivered
  obtain ⟨header,whole⟩ := (isCling_iff ok).mp cling
  exact ⟨ok,header,whole,Int.le_of_eq start.symm,.inl start⟩

-- A packet that was split off and any other with the same frame, with any memory behind
-- their blocks.
theorem own_bytes_iff (delivered : Delivered p) (behind : List UInt8) (calls : List ReadCall) :
    (∀ q heap, Delivered q → q.getLen = p.getLen → q.frame = p.frame → (readAll heap calls q).1 = (readAll behind calls p).1) ↔
      OwnBytes p calls := by
  have framed := delivered_framed delivered
  have start := ((delivered_parts p).mp delivered).2.1
  constructor
  · intro same
    apply own_of_same behind framed
    intro q heap twin
    obtain ⟨_,⟨ok,header,whole,_,_⟩,getLen,frame,cursor⟩ := twin
    exact same q heap ((delivered_parts q).mpr ⟨ok,cursor.trans start,(isCling_iff ok).mpr ⟨header,whole⟩⟩) getLen frame
  · intro own q heap other getLen frame
    have place := ((delivered_parts q).mp other).2.1
    exact own_same ⟨framed,delivered_framed other,getLen,frame,place.trans start.symm⟩ own

theorem own_bytes_iff_two :
    let p := (new.recv (some [0,0,0,0,0,10,0,1,0,7,0,0,0,0,0,8,0,2])).2
    (∀ q heap, Delivered q → q.getLen = p.getLen → q.frame = p.frame →
      (readAll heap [.read16,.read8] q).1 = (readAll [1] [.read16,.read8] p).1) ↔ OwnBytes p [.read16,.read8] :=
  own_bytes_iff ⟨new,_,new_ok,by decide,.first,by decide⟩ [1] [.read16,.read8]

-- A frame without content, alone and with the next one behind it.
theorem next_frame_read : ¬ ∀ (p q : NetPacket) (behind : List UInt8) (calls : List ReadCall),
    Delivered p → Delivered q → q.getLen = p.getLen → q.frame = p.frame →
    (readAll behind calls q).1 = (readAll behind calls p).1 := by
  intro same
  have alone : Delivered (new.recv (some [0,0,0,0,0,8,0,1])).2 := ⟨new,_,new_ok,by decide,.first,by decide⟩
  have followed : Delivered (new.recv (some [0,0,0,0,0,8,0,1,0,1,0,0,0,8,0,2])).2 := ⟨new,_,new_ok,by decide,.first,by decide⟩
  exact absurd (same _ _ [] [.read16] alone followed (by decide) (by decide)) (by decide)

end NetPacket
end PcNetwork.Netlib
