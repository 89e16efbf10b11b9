import PcNetwork.Libbase.Md5
import PcNetwork.Library.Absorb
import PcNetwork.Library.Endian

namespace PcNetwork.Md5
open Absorb Block

-- The digest as it is described: the message with a one bit, zeros up to eight bytes in front
-- of the end of a block, and its length in bits modulo 2^64.
def padded (message : List UInt8) : List UInt8 :=
  message ++ 0x80 :: List.replicate ((119-message.length % 64) % 64) 0 ++ Endian.encode 8 (8*message.length % 2^64)

def digest (para : Words) (message : List UInt8) : List UInt8 :=
  let w := (absorb md5Transform 64 para (padded message)).1
  encode [w.a,w.b,w.c,w.d]

-- What a context is after a message.
structure Holds (para : Words) (message : List UInt8) (context : Md5Ctx) : Prop where
  state : context.state = (absorb md5Transform 64 para message).1
  left : slice context.buffer 0 (message.length % 64) = (absorb md5Transform 64 para message).2
  count : context.count0.toNat+2^32*context.count1.toNat = 8*message.length % 2^64
  room : context.buffer.length = 64

variable {para : Words} {message input buffer : List UInt8} {context : Md5Ctx}

theorem init_holds (para : Words) (room : buffer.length = 64) : Holds para [] (md5Init buffer para) := by
  have nothing : absorb md5Transform 64 para [] = (para,[]) := absorb_short (by simp)
  exact ⟨by rw [nothing]; rfl,by rw [nothing]; rfl,rfl,room⟩

theorem index_count (context : Md5Ctx) : context.index = context.count0.toNat/8 % 64 := by
  unfold Md5Ctx.index
  rw [UInt32.toNat_and,UInt32.toNat_shiftRight]
  show context.count0.toNat >>> 3 &&& 2^6-1 = _
  rw [Nat.and_two_pow_sub_one_eq_mod,Nat.shiftRight_eq_div_pow]

-- The place in the buffer is the length of the message modulo 64.
theorem Holds.index (holds : Holds para message context) : context.index = message.length % 64 := by
  rw [index_count]
  have count := holds.count
  have small := context.count0.toNat_lt
  omega

-- The loop compresses the whole blocks from i on.
theorem transformBlocks_absorbs (small : input.length+63 < 2^32) (state : Words) (i : Nat) (inside : i ≤ input.length) :
    ∃ state' j, transformBlocks input state i = some (state',j) ∧ j ≤ input.length ∧
      absorb md5Transform 64 state (input.drop i) = (state',input.drop j) := by
  fun_induction transformBlocks input state i with
  | case1 state i more whole ih =>
    obtain ⟨state',j,ran,within,absorbed⟩ := ih whole
    refine ⟨state',j,ran,within,?_⟩
    have full : 64 ≤ (input.drop i).length := by rw [List.length_drop]; omega
    rw [absorb_block (by decide) full,List.drop_drop]
    exact absorbed
  | case2 state i more short =>
    rw [Nat.mod_eq_of_lt (by omega)] at more
    omega
  | case3 state i last =>
    rw [Nat.mod_eq_of_lt (by omega)] at last
    exact ⟨state,i,rfl,inside,absorb_short (by rw [List.length_drop]; omega)⟩

-- The two words count the bits modulo 2^64.
theorem counted (count0 count1 : UInt32) {n : Nat} (small : n < 2^32) :
    (count0+(UInt32.ofNat n <<< 3)).toNat+
        2^32*((if count0+(UInt32.ofNat n <<< 3) < UInt32.ofNat n <<< 3 then count1+1 else count1)+(UInt32.ofNat n >>> 29)).toNat =
      (count0.toNat+2^32*count1.toNat+8*n) % 2^64 := by
  have length : (UInt32.ofNat n).toNat = n := UInt32.toNat_ofNat_of_lt' small
  have low : (UInt32.ofNat n <<< 3).toNat = 8*n % 2^32 := by
    rw [UInt32.toNat_shiftLeft,length]
    show n <<< 3 % 2^32 = _
    rw [Nat.shiftLeft_eq]
    omega
  have high : (UInt32.ofNat n >>> 29).toNat = n/2^29 := by
    rw [UInt32.toNat_shiftRight,length]
    exact Nat.shiftRight_eq_div_pow n 29
  have bound0 := count0.toNat_lt
  have bound1 := count1.toNat_lt
  have sum : (count0+(UInt32.ofNat n <<< 3)).toNat = (count0.toNat+8*n % 2^32) % 2^32 := by rw [UInt32.toNat_add,low]
  by_cases carry : count0+(UInt32.ofNat n <<< 3) < UInt32.ofNat n <<< 3
  · rw [if_pos carry,sum,UInt32.toNat_add,UInt32.toNat_add,high]
    rw [UInt32.lt_iff_toNat_lt,sum,low] at carry
    show _+2^32*(((count1.toNat+1) % 2^32+n/2^29) % 2^32) = _
    omega
  · rw [if_neg carry,sum,UInt32.toNat_add,high]
    rw [UInt32.lt_iff_toNat_lt,sum,low] at carry
    omega

-- A buffer that is filled holds what was left and the beginning of the input.
theorem patch_full (room : buffer.length = 64) {index : Nat} (inside : index < 64) (fills : 64-index ≤ input.length) :
    patch buffer index (slice input 0 (64-index)) = (slice buffer 0 index ++ input).take 64 := by
  have kept : (slice buffer 0 index).length = index := length_slice (by omega)
  have taken : (slice input 0 (64-index)).length = 64-index := length_slice (by omega)
  have behind : buffer.drop (index+(slice input 0 (64-index)).length) = [] := List.drop_eq_nil_of_le (by omega)
  rw [List.take_append,List.take_of_length_le (by omega),kept,patch,behind,List.append_nil]
  rfl

theorem fill_absorbs {left : List UInt8} {state : Words} (inside : left.length < 64) (fills : 64-left.length ≤ input.length) :
    absorb md5Transform 64 state (left ++ input) =
      absorb md5Transform 64 (md5Transform state ((left ++ input).take 64)) (input.drop (64-left.length)) := by
  rw [absorb_block (by decide) (by rw [List.length_append]; omega),List.drop_append,List.drop_eq_nil_of_le (by omega),List.nil_append]

-- The next piece of the message, with what is left of the pieces before it.
theorem update_holds (holds : Holds para message context) (input : List UInt8) (small : input.length+63 < 2^32) :
    ∃ context', md5Update context input = some context' ∧ Holds para (message ++ input) context' := by
  have count := counted context.count0 context.count1 (n := input.length) (by omega)
  have total : (context.count0.toNat+2^32*context.count1.toNat+8*input.length) % 2^64 = 8*(message ++ input).length % 2^64 := by
    rw [holds.count,List.length_append]
    omega
  rw [total] at count
  have room := holds.room
  have inside : message.length % 64 < 64 := Nat.mod_lt _ (by decide)
  have kept : (slice context.buffer 0 (message.length % 64)).length = message.length % 64 := length_slice (by omega)
  have joined : absorb md5Transform 64 para (message ++ input) = _ := absorb_append (by decide) para message input
  rw [← holds.state,← holds.left] at joined
  have left : (absorb md5Transform 64 para (message ++ input)).2.length = _ := length_left (by decide) para _
  unfold md5Update
  rw [holds.index]
  by_cases fills : 64-message.length % 64 ≤ input.length
  · rw [if_pos fills,patch_full room inside fills]
    have filled := joined.trans (fill_absorbs (by omega) (by omega))
    rw [kept] at filled
    obtain ⟨state',j,ran,within,absorbed⟩ := transformBlocks_absorbs small
      (md5Transform context.state ((slice context.buffer 0 (message.length % 64) ++ input).take 64)) _ fills
    rw [absorbed] at filled
    rw [filled,List.length_drop] at left
    generalize whole : (slice context.buffer 0 (message.length % 64) ++ input).take 64 = block at ran ⊢
    have full : block.length = 64 := by
      rw [← whole,List.length_take,List.length_append]
      omega
    have fits : 0+(input.drop j).length ≤ block.length := by
      rw [List.length_drop]
      omega
    dsimp only
    rw [ran]
    refine ⟨_,rfl,?_,?_,count,?_⟩
    · rw [filled]
    · have written := slice_patch_same fits
      rw [filled,← left,← List.length_drop]
      exact written
    · exact (length_patch fits).trans full
  · rw [if_neg fills]
    have fits : message.length % 64+input.length ≤ context.buffer.length := by omega
    have waits := joined.trans (absorb_short (by rw [List.length_append]; omega))
    refine ⟨_,rfl,?_,?_,count,?_⟩
    · rw [waits]
    · have place : (message ++ input).length % 64 = message.length % 64+input.length := by
        rw [List.length_append]
        omega
      have extended : slice (patch context.buffer (0+message.length % 64) input) 0 (message.length % 64+input.length) = _ :=
        slice_patch_extend (by omega)
      rw [Nat.zero_add] at extended
      rw [waits,place]
      exact extended
    · exact (length_patch fits).trans room

theorem low_byte (w : UInt32) : (w &&& 0xff).toUInt8 = UInt8.ofNat (w.toNat % 256) := by
  apply UInt8.toNat.inj
  rw [UInt32.toNat_toUInt8,UInt32.toNat_and,UInt8.toNat_ofNat']
  show (w.toNat &&& 2^8-1) % 2^8 = _
  rw [Nat.and_two_pow_sub_one_eq_mod]

theorem shifted (w n : UInt32) (small : n.toNat < 32) : (w >>> n).toNat = w.toNat/2^n.toNat := by
  rw [UInt32.toNat_shiftRight,Nat.mod_eq_of_lt small,Nat.shiftRight_eq_div_pow]

theorem encodeWord_endian (w : UInt32) : encodeWord w = Endian.encode 4 w.toNat := by
  simp only [encodeWord,low_byte,shifted w 8 (by decide),shifted w 16 (by decide),shifted w 24 (by decide),Endian.encode,
    Nat.div_div_eq_div_mul]
  rfl

-- The two words are encoded as the number that they are together.
theorem encode_count (count0 count1 : UInt32) : encode [count0,count1] = Endian.encode 8 (count0.toNat+2^32*count1.toNat) := by
  have low := count0.toNat_lt
  have split := Endian.encode_add 4 4 (count0.toNat+2^32*count1.toNat)
  have first := Endian.encode_mod 4 (count0.toNat+2^32*count1.toNat)
  rw [show (count0.toNat+2^32*count1.toNat) % 256^4 = count0.toNat by omega] at first
  rw [show (count0.toNat+2^32*count1.toNat)/256^4 = count1.toNat by omega] at split
  rw [split,← first]
  simp [encode,encodeWord_endian]

-- The padding goes up to eight bytes in front of the end of a block.
theorem slice_padding (message : List UInt8) :
    slice padding 0 (if message.length % 64 < 56 then 56-message.length % 64 else 120-message.length % 64) =
      0x80 :: List.replicate ((119-message.length % 64) % 64) 0 := by
  have amount : (if message.length % 64 < 56 then 56-message.length % 64 else 120-message.length % 64) =
      (119-message.length % 64) % 64+1 := by
    split <;> omega
  rw [amount,slice,List.drop_zero,padding,List.take_succ_cons,List.take_replicate,Nat.min_eq_left (by omega)]

theorem final_holds (holds : Holds para message context) : md5Final context = some (digest para message) := by
  have bits : encode [context.count0,context.count1] = Endian.encode 8 (8*message.length % 2^64) := by
    rw [encode_count,holds.count]
  unfold md5Final
  rw [holds.index,bits]
  dsimp only
  rw [slice_padding]
  obtain ⟨first,padding,holds⟩ := update_holds holds (0x80 :: List.replicate ((119-message.length % 64) % 64) 0)
    (by rw [List.length_cons,List.length_replicate]; omega)
  obtain ⟨last,counting,holds⟩ := update_holds holds (Endian.encode 8 (8*message.length % 2^64))
    (by rw [Endian.length_encode]; omega)
  simp only [padding,counting,bind,Option.bind]
  rw [holds.state]
  rfl

theorem updates_hold {chunks : List (List UInt8)} (holds : Holds para message context) (small : ∀ chunk ∈ chunks, chunk.length+63 < 2^32) :
    ∃ context', chunks.foldlM md5Update context = some context' ∧ Holds para (message ++ chunks.flatten) context' := by
  induction chunks generalizing message context with
  | nil => exact ⟨context,rfl,by rw [List.flatten_nil,List.append_nil]; exact holds⟩
  | cons chunk chunks ih =>
    obtain ⟨first,others⟩ := List.forall_mem_cons.mp small
    obtain ⟨middle,updated,holds⟩ := update_holds holds chunk first
    obtain ⟨context',ran,holds⟩ := ih holds others
    refine ⟨context',by rw [List.foldlM_cons,updated]; exact ran,?_⟩
    rw [List.flatten_cons,← List.append_assoc]
    exact holds

theorem padded_whole (message : List UInt8) : (padded message).length % 64 = 0 := by
  simp only [padded,List.length_append,List.length_cons,List.length_replicate,Endian.length_encode]
  omega

-- However a message is cut, MD5Update and MD5Final make the digest of the whole of it, which
-- is that of whole blocks.
theorem chunks_digest (chunks : List (List UInt8)) (para : Words) (room : buffer.length = 64)
    (small : ∀ chunk ∈ chunks, chunk.length+63 < 2^32) :
    (chunks.foldlM md5Update (md5Init buffer para)).bind md5Final = some (digest para chunks.flatten) ∧
      (absorb md5Transform 64 para (padded chunks.flatten)).2 = [] := by
  obtain ⟨context,ran,holds⟩ := updates_hold (init_holds para room) small
  refine ⟨?_,?_⟩
  · rw [ran]
    exact final_holds holds
  · apply List.eq_nil_of_length_eq_zero
    rw [length_left (by decide)]
    exact padded_whole _

-- The second piece fills a block and begins another one.
theorem chunks_digest_blocks :
    ([List.replicate 40 97,List.replicate 40 98].foldlM md5Update (md5Init (List.replicate 64 0) standard)).bind md5Final =
      some (digest standard (List.replicate 40 97 ++ List.replicate 40 98)) :=
  (chunks_digest [List.replicate 40 97,List.replicate 40 98] standard rfl (by simp)).1

theorem hexDigit_injective {m n : Nat} (first : m < 16) (second : n < 16) (same : hexDigit m = hexDigit n) : m = n := by
  have all : ∀ m < 16, ∀ n < 16, hexDigit m = hexDigit n → m = n := by decide +kernel
  exact all m first n second same

theorem print_length (bytes : List UInt8) : (md5Print bytes).length = 2*bytes.length := by
  simp [md5Print,List.length_flatMap]
  omega

-- No two digests are written the same.
theorem print_injective {a b : List UInt8} (same : md5Print a = md5Print b) : a = b := by
  induction a generalizing b with
  | nil =>
    cases b with
    | nil => rfl
    | cons y b => cases same
  | cons x a ih =>
    cases b with
    | nil => cases same
    | cons y b =>
      have digits : hexDigit (x.toNat/16) = hexDigit (y.toNat/16) ∧ hexDigit (x.toNat % 16) = hexDigit (y.toNat % 16) ∧
          md5Print a = md5Print b := by
        simpa [md5Print] using same
      obtain ⟨high,low,rest⟩ := digits
      have boundx := x.toNat_lt
      have boundy := y.toNat_lt
      have high := hexDigit_injective (by omega) (by omega) high
      have low := hexDigit_injective (by omega) (by omega) low
      rw [UInt8.toNat.inj (show x.toNat = y.toNat by omega),ih rest]

-- MD5 gives 32 characters, which are those of the digest and of no other one.
theorem md5_digest (source : List UInt8) (paramType : Bool) (param : Words) (room : buffer.length = 64) (small : source.length+63 < 2^32) :
    ∃ text, md5 source paramType param buffer = some text ∧ text.length = 32 ∧
      ∀ bytes, md5Print bytes = text ↔ bytes = digest (if paramType then param else standard) source := by
  obtain ⟨context,updated,holds⟩ := update_holds (init_holds (if paramType then param else standard) room) source small
  have made := final_holds holds
  rw [List.nil_append] at made
  refine ⟨md5Print (digest (if paramType then param else standard) source),?_,?_,fun bytes => ⟨print_injective,fun same => by rw [same]⟩⟩
  · simp only [md5,updated,made,bind,Option.bind]
    rfl
  · rw [print_length]
    rfl

theorem md5_digest_abc : ∃ text, md5 [97,98,99] false standard (List.replicate 64 0) = some text ∧ text.length = 32 ∧
    ∀ bytes, md5Print bytes = text ↔ bytes = digest standard [97,98,99] :=
  md5_digest [97,98,99] false standard rfl (by decide)

example : md5 [97,98,99] false standard (List.replicate 64 0) =
    some ("900150983CD24FB0D6963F7D28E17F72".toList.map fun c => UInt8.ofNat c.toNat) := by decide +kernel

end PcNetwork.Md5
