import PcNetwork.Library.Endian
import PcNetwork.Libnet.SockBuf

namespace PcNetwork.NetEvent
open SockBuf

-- sizeof(MsgHeader), which is one int.
def msgHeaderLen : UInt32 := 4

-- What onRead makes of a message: the body that it prints, and what it gives to onSend_.
structure Message where
  body : List UInt8
  sent : List (List UInt8)
  deriving DecidableEq

-- std::string(s,n). An int below zero is, as a size_t, longer than any string.
def string (s : List UInt8) (n : Int) : Throwing SockBuf (List UInt8) := fun b =>
  if n < 0 then .error "string too long" b else .ok (s.take n.toNat) b

-- The bytes from readStart() on.
def readStart : Throwing SockBuf (List UInt8) := fun b => .ok (b.buf.drop b.readIndex.toNat) b

-- msg_header->len, and total_msg_len, which adds a size_t to it.
def len (header : List UInt8) : Int32 := Endian.toInt32 (header.take msgHeaderLen.toNat)
def totalMsgLen (header : List UInt8) : UInt32 := msgHeaderLen+(len header).toUInt32

-- NetEvent::onRead of the program over libnet.
def onReadLibnet : Throwing SockBuf (Option Message) := do
  let start ← readStart
  let readable ← readableBytes
  if readable ≤ msgHeaderLen then return none
  else if readable < totalMsgLen start then return none
  else
    let _strMsg ← string start (totalMsgLen start).toNat
    let strMsgBody ← string (start.drop msgHeaderLen.toNat) (len start).toInt
    readMove (totalMsgLen start)
    return some ⟨strMsgBody,[]⟩

-- That of the program over net_select, which sends the message back.
def onReadNetSelect : Throwing SockBuf (Option Message) := do
  let readable ← readableBytes
  if readable ≤ msgHeaderLen then return none
  else
    let header ← peek msgHeaderLen
    if readable < totalMsgLen header then return none
    else
      let totalMsg ← pop (totalMsgLen header)
      let strMsgBody ← string (totalMsg.drop msgHeaderLen.toNat) (len header).toInt
      return some ⟨strMsgBody,[totalMsg]⟩

inductive Program where
  | libnet
  | netSelect

def onRead : Program → Throwing SockBuf (Option Message)
  | .libnet => onReadLibnet
  | .netSelect => onReadNetSelect

def sendsBack : Program → List UInt8 → List (List UInt8)
  | .libnet,_ => []
  | .netSelect,totalMsg => [totalMsg]

-- The total length is no sum of naturals where the int is negative.
theorem toNat_total (header : List UInt8) : ((totalMsgLen header).toNat : Int) = (4+(len header).toInt) % 2^32 := by
  have signed : (len header).toInt = ((len header).toUInt32.toNat : Int).bmod (2^32) := BitVec.toInt_eq_toNat_bmod _
  have four : msgHeaderLen.toNat = 4 := rfl
  have bound := (len header).toUInt32.toNat_lt
  rw [totalMsgLen,UInt32.toNat_add,signed,Int.bmod_def]
  split <;> omega

theorem len_bounds (header : List UInt8) : -2^31 ≤ (len header).toInt ∧ (len header).toInt < 2^31 :=
  ⟨(len header).le_toInt,(len header).toInt_lt⟩

theorem total_nonneg {header : List UInt8} (nonneg : 0 ≤ (len header).toInt) :
    (totalMsgLen header).toNat = 4+(len header).toInt.toNat := by
  have total := toNat_total header
  have bounds := len_bounds header
  omega

-- What onRead does, by what is readable. The body is made before the message is taken in
-- libnet, and after it in net_select.
structure Handles (sends : List UInt8 → List (List UInt8)) (handler : Throwing SockBuf (Option Message)) (b : SockBuf) : Prop where
  waits : b.readable.length ≤ 4 ∨ b.readable.length < (totalMsgLen b.readable).toNat → handler b = .ok none b
  throws : 4 < b.readable.length → (totalMsgLen b.readable).toNat ≤ b.readable.length → (len b.readable).toInt < 0 →
    ∃ text c, handler b = .error text c
  takes : 4 < b.readable.length → (totalMsgLen b.readable).toNat ≤ b.readable.length → 0 ≤ (len b.readable).toInt →
    ∃ c, Ok c ∧ c.readable = b.readable.drop (4+(len b.readable).toInt.toNat) ∧
      handler b = .ok (some ⟨Block.slice b.readable 4 (len b.readable).toInt.toNat,
        sends (b.readable.take (4+(len b.readable).toInt.toNat))⟩) c

theorem start_readable (ok : Ok b) {k : Nat} (within : k ≤ b.readable.length) :
    (b.buf.drop b.readIndex.toNat).take k = b.readable.take k := by
  rw [ok.length_readable] at within
  rw [readable,Block.take_slice _ _ _ _ within]
  rfl

theorem start_len (ok : Ok b) (within : 4 ≤ b.readable.length) : len (b.buf.drop b.readIndex.toNat) = len b.readable :=
  congrArg Endian.toInt32 (start_readable ok within)

theorem start_total (ok : Ok b) (within : 4 ≤ b.readable.length) :
    totalMsgLen (b.buf.drop b.readIndex.toNat) = totalMsgLen b.readable :=
  congrArg (fun len : Int32 => msgHeaderLen+len.toUInt32) (start_len ok within)

theorem start_body (ok : Ok b) {n : Nat} (within : 4+n ≤ b.readable.length) :
    ((b.buf.drop b.readIndex.toNat).drop 4).take n = Block.slice b.readable 4 n := by
  have front := congrArg (List.drop 4) (start_readable ok within)
  rw [List.drop_take,List.drop_take,Nat.add_sub_cancel_left] at front
  exact front

theorem readable_count (ok : Ok b) {n : UInt32} :
    (b.writeIndex-b.readIndex ≤ n ↔ b.readable.length ≤ n.toNat) ∧ (b.writeIndex-b.readIndex < n ↔ b.readable.length < n.toNat) := by
  rw [UInt32.le_iff_toNat_le,UInt32.lt_iff_toNat_lt,(readableBytes_ok ok).2,ok.length_readable]
  exact ⟨Iff.rfl,Iff.rfl⟩

theorem string_negative (s : List UInt8) {n : Int} (negative : n < 0) (b : SockBuf) : string s n b = .error "string too long" b :=
  if_pos negative

theorem string_made (s : List UInt8) {n : Int} (nonneg : 0 ≤ n) (b : SockBuf) : string s n b = .ok (s.take n.toNat) b :=
  if_neg (Int.not_lt.mpr nonneg)

section libnet

theorem libnet_waits (ok : Ok b) (short : b.readable.length ≤ 4 ∨ b.readable.length < (totalMsgLen b.readable).toNat) :
    onReadLibnet b = .ok none b := by
  have form : onReadLibnet b = _ := (bind_ok rfl _).trans (bind_ok (readableBytes_ok ok).1 _)
  rw [form]
  by_cases header : b.writeIndex-b.readIndex ≤ msgHeaderLen
  · rw [if_pos header]
    rfl
  · have some := Nat.not_le.mp fun less => header ((readable_count ok).1.mpr less)
    have four : msgHeaderLen.toNat = 4 := rfl
    rw [if_neg header,start_total ok (by omega),if_pos ((readable_count ok).2.mpr (short.resolve_left (by omega)))]
    rfl

-- What is left to do for a message that is whole.
theorem libnet_whole (ok : Ok b) (some : 4 < b.readable.length) (whole : (totalMsgLen b.readable).toNat ≤ b.readable.length) :
    onReadLibnet b = (string ((b.buf.drop b.readIndex.toNat).drop 4) (len b.readable).toInt >>= fun body =>
      readMove (totalMsgLen b.readable) >>= fun _ => pure (.some ⟨body,[]⟩)) b := by
  have form : onReadLibnet b = _ := (bind_ok rfl _).trans (bind_ok (readableBytes_ok ok).1 _)
  have four : msgHeaderLen.toNat = 4 := rfl
  rw [form,if_neg fun less => absurd ((readable_count ok).1.mp less) (by omega),start_total ok (by omega),
    if_neg fun less => absurd ((readable_count ok).2.mp less) (by omega),start_len ok (by omega)]
  exact bind_ok (string_made _ (Int.natCast_nonneg _) b) _

theorem libnet_handles (ok : Ok b) : Handles (sendsBack .libnet) onReadLibnet b := by
  refine ⟨libnet_waits ok,?_,?_⟩
  · intro some whole negative
    rw [libnet_whole ok some whole]
    exact ⟨_,_,bind_error (string_negative _ negative b) _⟩
  · intro some whole nonneg
    have total := total_nonneg nonneg
    obtain ⟨c,moved,kept,parts,_⟩ := readMove_ok ok whole
    rw [libnet_whole ok some whole,bind_ok (string_made _ nonneg b),bind_ok moved,start_body ok (by omega)]
    refine ⟨c,kept,?_,rfl⟩
    have rest := congrArg (List.drop (totalMsgLen b.readable).toNat) parts
    rw [List.drop_left' (List.length_take_of_le whole),total] at rest
    exact rest.symm

end libnet

section netSelect

theorem header_len (bytes : List UInt8) : len (bytes.take msgHeaderLen.toNat) = len bytes := by
  simp [len,List.take_take]

theorem netSelect_waits (ok : Ok b) (short : b.readable.length ≤ 4 ∨ b.readable.length < (totalMsgLen b.readable).toNat) :
    onReadNetSelect b = .ok none b := by
  have form : onReadNetSelect b = _ := bind_ok (readableBytes_ok ok).1 _
  rw [form]
  by_cases header : b.writeIndex-b.readIndex ≤ msgHeaderLen
  · rw [if_pos header]
    rfl
  · have some := Nat.not_le.mp fun less => header ((readable_count ok).1.mpr less)
    have four : msgHeaderLen.toNat = 4 := rfl
    rw [if_neg header,bind_ok (peek_ok ok (by omega)),totalMsgLen,header_len,← totalMsgLen,
      if_pos ((readable_count ok).2.mpr (short.resolve_left (by omega)))]
    rfl

theorem netSelect_whole (ok : Ok b) (some : 4 < b.readable.length) (whole : (totalMsgLen b.readable).toNat ≤ b.readable.length) :
    onReadNetSelect b = (pop (totalMsgLen b.readable) >>= fun totalMsg =>
      string (totalMsg.drop 4) (len b.readable).toInt >>= fun body => pure (.some ⟨body,[totalMsg]⟩)) b := by
  have form : onReadNetSelect b = _ := bind_ok (readableBytes_ok ok).1 _
  have four : msgHeaderLen.toNat = 4 := rfl
  rw [form,if_neg fun less => absurd ((readable_count ok).1.mp less) (by omega),bind_ok (peek_ok ok (by omega)),
    totalMsgLen,header_len,← totalMsgLen,if_neg fun less => absurd ((readable_count ok).2.mp less) (by omega)]
  rfl

theorem netSelect_handles (ok : Ok b) : Handles (sendsBack .netSelect) onReadNetSelect b := by
  refine ⟨netSelect_waits ok,?_,?_⟩
  · intro some whole negative
    obtain ⟨c,popped,_,_⟩ := pop_ok ok whole
    rw [netSelect_whole ok some whole,bind_ok popped]
    exact ⟨_,_,bind_error (string_negative _ negative c) _⟩
  · intro some whole nonneg
    have total := total_nonneg nonneg
    obtain ⟨c,popped,kept,parts⟩ := pop_ok ok whole
    rw [netSelect_whole ok some whole,bind_ok popped,bind_ok (string_made _ nonneg c),total,List.drop_take,Nat.add_sub_cancel_left,
      List.take_take,Nat.min_self]
    refine ⟨c,kept,?_,rfl⟩
    have rest := congrArg (List.drop (totalMsgLen b.readable).toNat) parts
    rw [List.drop_left' (List.length_take_of_le whole),total] at rest
    exact rest.symm

end netSelect

theorem onRead_handles (program : Program) (ok : Ok b) : Handles (sendsBack program) (onRead program) b := by
  cases program with
  | libnet => exact libnet_handles ok
  | netSelect => exact netSelect_handles ok

-- The buffer is left as it is, or a message of a length that is no negative int is taken
-- whole; and nothing is thrown.
def Safe (b : SockBuf) : EStateM.Result String SockBuf (Option Message) → Prop
  | .error _ _ => False
  | .ok none c => c = b
  | .ok (some message) c => ∃ n : Nat, (len b.readable).toInt = n ∧ 4+n ≤ b.readable.length ∧
    message.body = Block.slice b.readable 4 n ∧ c.readable = b.readable.drop (4+n)

-- A header of -4 to -1, with anything behind it, passes for a message of 0 to 3 bytes.
theorem onRead_safe_iff (program : Program) (ok : Ok b) :
    Safe b (onRead program b) ↔ (4 < b.readable.length → ¬ (-4 ≤ (len b.readable).toInt ∧ (len b.readable).toInt < 0)) := by
  obtain ⟨waits,throws,takes⟩ := onRead_handles program ok
  have total := toNat_total b.readable
  have bounds := len_bounds b.readable
  have most : b.readable.length < 2^31 := by
    have small := ok.small
    have order := ok.write_le
    rw [ok.length_readable]
    omega
  constructor
  · rintro safe some ⟨low,negative⟩
    obtain ⟨text,c,threw⟩ := throws some (by omega) negative
    rw [threw] at safe
    exact safe
  · intro sound
    by_cases short : b.readable.length ≤ 4 ∨ b.readable.length < (totalMsgLen b.readable).toNat
    · rw [waits short]
      rfl
    · rw [not_or,Nat.not_le,Nat.not_lt] at short
      obtain ⟨some,whole⟩ := short
      have nonneg : 0 ≤ (len b.readable).toInt := by
        by_contra negative
        exact sound some ⟨by omega,by omega⟩
      obtain ⟨c,_,rest,took⟩ := takes some whole nonneg
      rw [took]
      refine ⟨(len b.readable).toInt.toNat,by omega,?_,rfl,rest⟩
      rw [← total_nonneg nonneg]
      exact whole

theorem onRead_safe_iff_byte :
    Safe ⟨[1,0,0,0,7],5,0,5⟩ (onRead .netSelect ⟨[1,0,0,0,7],5,0,5⟩) ↔
      (4 < (readable ⟨[1,0,0,0,7],5,0,5⟩).length →
        ¬ (-4 ≤ (len (readable ⟨[1,0,0,0,7],5,0,5⟩)).toInt ∧ (len (readable ⟨[1,0,0,0,7],5,0,5⟩)).toInt < 0)) :=
  onRead_safe_iff .netSelect ⟨by decide,by decide,by decide,rfl⟩

-- The header -1 and one byte.
theorem onRead_unsafe : ¬ ∀ (program : Program) (b : SockBuf), Ok b → Safe b (onRead program b) := by
  intro safe
  exact safe .libnet ⟨[255,255,255,255,7],5,0,5⟩ ⟨by decide,by decide,by decide,rfl⟩

end PcNetwork.NetEvent
