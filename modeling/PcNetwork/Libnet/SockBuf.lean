import PcNetwork.Library.Block
import PcNetwork.Library.Throwing
import PcNetwork.Library.Fifo
import Mathlib.Data.UInt

namespace PcNetwork

-- A block of the application. A Win32 process has none of 2^31 bytes.
structure Bytes where
  bytes : List UInt8
  small : bytes.length < 2^31

-- The buffer of libnet and of net_select. The two classes have the same bodies; only
-- net_select has pop and peek, and it calls apendBuf push.
structure SockBuf where
  buf : List UInt8
  size : UInt32
  readIndex : UInt32
  writeIndex : UInt32

namespace SockBuf

-- MPAlloc and malloc. What a fresh block holds is never read. Win32 has no block of 2^31
-- bytes: MPAlloc throws, the other malloc gives NULL, which ends the process.
def alloc (size : UInt32) : List UInt8 := List.replicate size.toNat 0

def new (size : UInt32) : SockBuf := ⟨alloc size,size,0,0⟩

def reset : Throwing SockBuf Unit := fun b => .ok () {b with readIndex := 0,writeIndex := 0}

def readMove (len : UInt32) : Throwing SockBuf Unit := fun b =>
  let b := {b with readIndex := b.readIndex+len}
  if b.readIndex > b.writeIndex then
    .error s!"write index:{b.writeIndex} is not bigger than read index:{b.readIndex}" b
  else .ok () b

def writeMove (len : UInt32) : Throwing SockBuf Unit := fun b =>
  let b := {b with writeIndex := b.writeIndex+len}
  if b.writeIndex > b.size then .error "write index is out of range." b else .ok () b

def readableBytes : Throwing SockBuf UInt32 := fun b =>
  let nret := (b.writeIndex-b.readIndex).toInt32
  if nret < 0 then .error s!"write index:{b.writeIndex} is not bigger than read index:{b.readIndex}" b
  else .ok nret.toUInt32 b

def writableBytes : Throwing SockBuf UInt32 := fun b =>
  let nret := (b.size-b.writeIndex).toInt32
  if nret < 0 then .error s!"write index:{b.writeIndex} is bigger than size:{b.size}" b
  else .ok nret.toUInt32 b

-- The readable bytes go to the front, of a larger block when this one is too small.
def relocate (len readable writable : UInt32) : Throwing SockBuf Unit := fun b =>
  let unread := Block.slice b.buf b.readIndex.toNat readable.toNat
  if writable+b.readIndex < len then
    if b.writeIndex+len ≥ 2^31 then .error "malloc error." b
    else .ok () {b with
      buf := Block.patch (alloc (b.writeIndex+len)) 0 unread
      size := b.writeIndex+len
      readIndex := 0
      writeIndex := readable}
  else .ok () {b with buf := Block.patch b.buf 0 unread,readIndex := 0,writeIndex := readable}

def makeSpace (len : UInt32) : Throwing SockBuf Unit := do
  let readable ← readableBytes
  let writable ← writableBytes
  relocate len readable writable

def ensureWritableBytes (len : UInt32) : Throwing SockBuf Unit := do
  let writable ← writableBytes
  if writable < len then makeSpace len else pure ()

-- What is stored at writeStart.
def fill (bytes : List UInt8) : Throwing SockBuf Unit := fun b =>
  .ok () {b with buf := Block.patch b.buf b.writeIndex.toNat bytes}

def apendBuf (bytes : List UInt8) : Throwing SockBuf Unit := do
  let len := UInt32.ofNat bytes.length
  ensureWritableBytes len
  fill bytes
  fun b =>
    let b := {b with writeIndex := b.writeIndex+len}
    if b.writeIndex > b.size then .error s!"write index:{b.writeIndex} is bigger than size:{b.size}" b
    else .ok () b

def push : List UInt8 → Throwing SockBuf Unit := apendBuf

def peek (len : UInt32) : Throwing SockBuf (List UInt8) := fun b =>
  if b.readIndex > b.writeIndex ∨ b.writeIndex > b.size ∨ b.readIndex > b.size then
    .error s!"read index:{b.readIndex}d, write index:{b.writeIndex}d, out of range." b
  else
    (readableBytes >>= fun size =>
      if len > size then throw s!"len:{len}d, readable bytes:{size}d, out of range."
      else return Block.slice b.buf b.readIndex.toNat len.toNat) b

def pop (len : UInt32) : Throwing SockBuf (List UInt8) := do
  let bytes ← peek len
  modify fun b => {b with readIndex := b.readIndex+len}
  return bytes

-- The bytes in [m_read_index, m_write_index).
def readable (b : SockBuf) : List UInt8 := Block.slice b.buf b.readIndex.toNat (b.writeIndex.toNat-b.readIndex.toNat)

-- What every operation keeps.
structure Ok (b : SockBuf) : Prop where
  read_le : b.readIndex.toNat ≤ b.writeIndex.toNat
  write_le : b.writeIndex.toNat ≤ b.size.toNat
  small : b.size.toNat < 2^31
  block : b.buf.length = b.size.toNat

theorem Ok.length_readable (ok : Ok b) : b.readable.length = b.writeIndex.toNat-b.readIndex.toNat := by
  obtain ⟨read,write,_,block⟩ := ok
  exact Block.length_slice (by omega)

-- The number of bytes between an index and its limit, taken as an int.
theorem gap_neg {x y : UInt32} : (x-y).toInt32 < 0 ↔ 2^31 ≤ (x-y).toNat := by
  have signed : (x-y).toInt32.toInt = ((x-y).toNat : Int).bmod (2^32) := BitVec.toInt_eq_toNat_bmod _
  have zero : (0 : Int32).toInt = 0 := rfl
  have bound := (x-y).toNat_lt
  rw [Int32.lt_iff_toInt_lt,signed,zero,Int.bmod_def]
  split <;> omega

-- A difference that is not negative as an int.
theorem difference {x y : UInt32} (order : y.toNat ≤ x.toNat) (small : x.toNat < 2^31) :
    ¬ (x-y).toInt32 < 0 ∧ (x-y).toNat = x.toNat-y.toNat := by
  have exact : (x-y).toNat = x.toNat-y.toNat := UInt32.toNat_sub_of_le _ _ (UInt32.le_iff_toNat_le.mpr order)
  refine ⟨fun negative => ?_,exact⟩
  have large := gap_neg.mp negative
  omega

theorem readableBytes_ok (ok : Ok b) :
    readableBytes b = .ok (b.writeIndex-b.readIndex) b ∧
    (b.writeIndex-b.readIndex).toNat = b.writeIndex.toNat-b.readIndex.toNat := by
  obtain ⟨read,write,small,_⟩ := ok
  obtain ⟨nonneg,count⟩ := difference read (Nat.lt_of_le_of_lt write small)
  refine ⟨?_,count⟩
  unfold readableBytes
  rw [if_neg nonneg,UInt32.toUInt32_toInt32]

theorem writableBytes_ok (ok : Ok b) :
    writableBytes b = .ok (b.size-b.writeIndex) b ∧ (b.size-b.writeIndex).toNat = b.size.toNat-b.writeIndex.toNat := by
  obtain ⟨_,write,small,_⟩ := ok
  obtain ⟨nonneg,count⟩ := difference write small
  refine ⟨?_,count⟩
  unfold writableBytes
  rw [if_neg nonneg,UInt32.toUInt32_toInt32]

theorem toNat_add {x y : UInt32} (fits : x.toNat+y.toNat < 2^32) : (x+y).toNat = x.toNat+y.toNat := by
  rw [UInt32.toNat_add,Nat.mod_eq_of_lt fits]

theorem not_greater {x y : UInt32} (order : x.toNat ≤ y.toNat) : ¬ x > y :=
  fun greater => absurd (UInt32.lt_iff_toNat_lt.mp greater) (Nat.not_lt.mpr order)

-- The front of the readable bytes is taken, `len` of them.
theorem taken_ok {len : UInt32} (ok : Ok b) (fits : len.toNat ≤ b.readable.length) :
    let c := {b with readIndex := b.readIndex+len}
    Ok c ∧ ¬ c.readIndex > c.writeIndex ∧ b.readable = Block.slice b.buf b.readIndex.toNat len.toNat ++ c.readable := by
  rw [ok.length_readable] at fits
  obtain ⟨read,write,small,block⟩ := ok
  have moved : (b.readIndex+len).toNat = b.readIndex.toNat+len.toNat := toNat_add (by omega)
  have inside : (b.readIndex+len).toNat ≤ b.writeIndex.toNat := by omega
  refine ⟨⟨inside,write,small,block⟩,not_greater inside,?_⟩
  unfold readable
  rw [moved,show b.writeIndex.toNat-b.readIndex.toNat = len.toNat+(b.writeIndex.toNat-(b.readIndex.toNat+len.toNat)) by omega,
    Block.slice_add]

-- Bytes stored at writeStart become readable.
theorem stored_ok {bytes : List UInt8} {len : UInt32} (ok : Ok b) (count : len.toNat = bytes.length)
    (room : bytes.length ≤ b.size.toNat-b.writeIndex.toNat) :
    let c := {b with buf := Block.patch b.buf b.writeIndex.toNat bytes,writeIndex := b.writeIndex+len}
    Ok c ∧ ¬ c.writeIndex > c.size ∧ c.readable = b.readable ++ bytes := by
  obtain ⟨read,write,small,block⟩ := ok
  have moved : (b.writeIndex+len).toNat = b.writeIndex.toNat+bytes.length := by rw [toNat_add,count]; omega
  have inside : (b.writeIndex+len).toNat ≤ b.size.toNat := by omega
  have length : (Block.patch b.buf b.writeIndex.toNat bytes).length = b.buf.length := Block.length_patch (by omega)
  refine ⟨⟨by dsimp only; omega,inside,small,length.trans block⟩,not_greater inside,?_⟩
  have behind : b.readIndex.toNat+(b.writeIndex.toNat-b.readIndex.toNat) = b.writeIndex.toNat := by omega
  have within : b.readIndex.toNat+(b.writeIndex.toNat-b.readIndex.toNat)+bytes.length ≤ b.buf.length := by omega
  have grown := Block.slice_patch_extend within
  rw [behind] at grown
  unfold readable
  dsimp only
  rw [moved,show b.writeIndex.toNat+bytes.length-b.readIndex.toNat = b.writeIndex.toNat-b.readIndex.toNat+bytes.length by omega]
  exact grown

theorem readMove_ok {len : UInt32} (ok : Ok b) (fits : len.toNat ≤ b.readable.length) :
    ∃ c, readMove len b = .ok () c ∧ Ok c ∧ b.readable = b.readable.take len.toNat ++ c.readable ∧
      c.writeIndex = b.writeIndex := by
  obtain ⟨kept,inside,parts⟩ := taken_ok ok fits
  refine ⟨_,if_neg inside,kept,?_,rfl⟩
  have front : b.readable.take len.toNat = Block.slice b.buf b.readIndex.toNat len.toNat :=
    Block.take_slice _ _ _ _ (ok.length_readable ▸ fits)
  rw [front]
  exact parts

theorem writeMove_ok {bytes : List UInt8} {len : UInt32} (ok : Ok b) (count : len.toNat = bytes.length)
    (room : bytes.length ≤ b.size.toNat-b.writeIndex.toNat) :
    ∃ c, (fill bytes >>= fun _ => writeMove len) b = .ok () c ∧ Ok c ∧ c.readable = b.readable ++ bytes := by
  obtain ⟨kept,inside,joined⟩ := stored_ok ok count room
  exact ⟨_,if_neg inside,kept,joined⟩

-- The readable bytes at the front of a block of `size` bytes.
theorem moved_ok (ok : Ok b) {buf : List UInt8} {size : UInt32} (length : buf.length = size.toNat)
    (small : size.toNat < 2^31) (room : b.writeIndex.toNat-b.readIndex.toNat ≤ size.toNat) :
    let c : SockBuf := ⟨Block.patch buf 0 b.readable,size,0,b.writeIndex-b.readIndex⟩
    Ok c ∧ c.readable = b.readable := by
  have count := (readableBytes_ok ok).2
  have unread := ok.length_readable
  have fits : 0+b.readable.length ≤ buf.length := by omega
  have zero : (0 : UInt32).toNat = 0 := rfl
  refine ⟨⟨?_,?_,small,(Block.length_patch fits).trans length⟩,?_⟩
  · dsimp only; omega
  · dsimp only; omega
  · have front : readable ⟨Block.patch buf 0 b.readable,size,0,b.writeIndex-b.readIndex⟩ =
        Block.slice (Block.patch buf 0 b.readable) 0 b.readable.length := by
      rw [readable,count,unread,zero,Nat.sub_zero]
    rw [front]
    exact Block.slice_patch_same fits

-- What there is when room for `len` bytes has been made.
structure Spaced (b : SockBuf) (len : UInt32) (c : SockBuf) : Prop where
  ok : Ok c
  readable : c.readable = b.readable
  room : len.toNat ≤ c.size.toNat-c.writeIndex.toNat
  less : c.writeIndex.toNat ≤ b.writeIndex.toNat

-- Only memory can be short, and never below 2^31 bytes.
theorem makeSpace_spaced {len : UInt32} (ok : Ok b) (small : len.toNat < 2^31) :
    (∃ c, makeSpace len b = .ok () c ∧ Spaced b len c) ∨
    (2^31 ≤ b.writeIndex.toNat+len.toNat ∧ ∃ text, makeSpace len b = .error text b) := by
  obtain ⟨readable,count⟩ := readableBytes_ok ok
  obtain ⟨writable,free⟩ := writableBytes_ok ok
  obtain ⟨read,write,bound,block⟩ := id ok
  have total : (b.size-b.writeIndex+b.readIndex).toNat = b.size.toNat-b.writeIndex.toNat+b.readIndex.toNat := by
    rw [toNat_add,free]; omega
  have grown : (b.writeIndex+len).toNat = b.writeIndex.toNat+len.toNat := toNat_add (by omega)
  have limit : (2^31 : UInt32).toNat = 2^31 := rfl
  unfold makeSpace
  rw [bind_ok readable,bind_ok writable]
  unfold relocate
  dsimp only
  rw [count]
  by_cases short : b.size-b.writeIndex+b.readIndex < len
  · rw [if_pos short]
    by_cases large : b.writeIndex+len ≥ 2^31
    · rw [if_pos large]
      have reached := UInt32.le_iff_toNat_le.mp large
      rw [limit,grown] at reached
      exact .inr ⟨reached,_,rfl⟩
    · rw [if_neg large]
      have under : (b.writeIndex+len).toNat < 2^31 := Nat.not_le.mp fun reached =>
        large (UInt32.le_iff_toNat_le.mpr (by rw [limit]; exact reached))
      obtain ⟨kept,same⟩ := moved_ok ok (List.length_replicate : (alloc (b.writeIndex+len)).length = _) under (by omega)
      exact .inl ⟨_,rfl,kept,same,by dsimp only; omega,by dsimp only; omega⟩
  · rw [if_neg short]
    have enough := Nat.not_lt.mp fun less => short (UInt32.lt_iff_toNat_lt.mpr less)
    obtain ⟨kept,same⟩ := moved_ok ok block bound (by omega)
    exact .inl ⟨_,rfl,kept,same,by dsimp only; omega,by dsimp only; omega⟩

theorem ensureWritableBytes_spaced {len : UInt32} (ok : Ok b) (small : len.toNat < 2^31) :
    (∃ c, ensureWritableBytes len b = .ok () c ∧ Spaced b len c) ∨
    (2^31 ≤ b.writeIndex.toNat+len.toNat ∧ ∃ text, ensureWritableBytes len b = .error text b) := by
  obtain ⟨writable,free⟩ := writableBytes_ok ok
  unfold ensureWritableBytes
  rw [bind_ok writable]
  by_cases short : b.size-b.writeIndex < len
  · rw [if_pos short]
    exact makeSpace_spaced ok small
  · rw [if_neg short]
    have enough := Nat.not_lt.mp fun less => short (UInt32.lt_iff_toNat_lt.mpr less)
    exact .inl ⟨b,rfl,ok,rfl,by omega,Nat.le_refl _⟩

theorem ensureWritableBytes_ok {len : UInt32} (ok : Ok b) (bound : b.writeIndex.toNat+len.toNat < 2^31) :
    ∃ c, ensureWritableBytes len b = .ok () c ∧ Spaced b len c := by
  have small : len.toNat < 2^31 := by omega
  rcases ensureWritableBytes_spaced ok small with done | ⟨reached,_⟩
  · exact done
  · omega

-- The bytes of a call follow the readable ones.
structure Grown (b : SockBuf) (bytes : List UInt8) (c : SockBuf) : Prop where
  ok : Ok c
  readable : c.readable = b.readable ++ bytes
  less : c.writeIndex.toNat ≤ b.writeIndex.toNat+bytes.length

theorem apendBuf_grown {bytes : List UInt8} (ok : Ok b) (small : bytes.length < 2^31) :
    (∃ c, apendBuf bytes b = .ok () c ∧ Grown b bytes c) ∨
    (2^31 ≤ b.writeIndex.toNat+bytes.length ∧ ∃ text, apendBuf bytes b = .error text b) := by
  have count : (UInt32.ofNat bytes.length).toNat = bytes.length := by
    rw [UInt32.toNat_ofNat']
    exact Nat.mod_eq_of_lt (by omega)
  unfold apendBuf
  rcases ensureWritableBytes_spaced ok (count ▸ small) with ⟨c,ran,ready,same,room,less⟩ | ⟨reached,text,threw⟩
  · rw [count] at room
    obtain ⟨kept,inside,joined⟩ := stored_ok ready count room
    have total : (c.writeIndex+UInt32.ofNat bytes.length).toNat = c.writeIndex.toNat+bytes.length := by
      have bound := ready.small
      have inside := ready.write_le
      rw [toNat_add,count]
      omega
    rw [bind_ok ran]
    exact .inl ⟨_,if_neg inside,kept,joined.trans (by rw [same]),by dsimp only; omega⟩
  · rw [bind_error threw]
    exact .inr ⟨count ▸ reached,text,rfl⟩

theorem apendBuf_ok {bytes : List UInt8} (ok : Ok b) (bound : b.writeIndex.toNat+bytes.length < 2^31) :
    ∃ c, apendBuf bytes b = .ok () c ∧ Grown b bytes c := by
  have small : bytes.length < 2^31 := by omega
  rcases apendBuf_grown ok small with done | ⟨reached,_⟩
  · exact done
  · omega

theorem peek_ok {len : UInt32} (ok : Ok b) (fits : len.toNat ≤ b.readable.length) :
    peek len b = .ok (b.readable.take len.toNat) b := by
  obtain ⟨readableBytes,count⟩ := readableBytes_ok ok
  rw [ok.length_readable] at fits
  have inside : ¬ (b.readIndex > b.writeIndex ∨ b.writeIndex > b.size ∨ b.readIndex > b.size) := by
    obtain ⟨read,write,_,_⟩ := ok
    rintro (low | high | both)
    · exact not_greater read low
    · exact not_greater write high
    · exact not_greater (Nat.le_trans read write) both
  have short : ¬ len > b.writeIndex-b.readIndex := not_greater (by omega)
  unfold peek
  rw [if_neg inside,bind_ok readableBytes,if_neg short,readable,Block.take_slice _ _ _ _ fits]
  rfl

theorem pop_ok {len : UInt32} (ok : Ok b) (fits : len.toNat ≤ b.readable.length) :
    ∃ c, pop len b = .ok (b.readable.take len.toNat) c ∧ Ok c ∧ b.readable = b.readable.take len.toNat ++ c.readable := by
  obtain ⟨kept,_,parts⟩ := taken_ok ok fits
  unfold pop
  rw [bind_ok (peek_ok ok fits)]
  refine ⟨_,rfl,kept,?_⟩
  have front : b.readable.take len.toNat = Block.slice b.buf b.readIndex.toNat len.toNat :=
    Block.take_slice _ _ _ _ (ok.length_readable ▸ fits)
  rw [front]
  exact parts

-- The calls of an owner. `write` stores bytes at writeStart and then calls writeMove.
inductive SockEvent where
  | apendBuf (bytes : List UInt8)
  | push (bytes : List UInt8)
  | write (bytes : List UInt8)
  | readMove (len : UInt32)
  | pop (len : UInt32)
  | peek (len : UInt32)
  | ensureWritableBytes (len : UInt32)
  | reset

namespace SockEvent

-- The result is what the owner gets to see.
def run : SockEvent → Throwing SockBuf (List UInt8)
  | apendBuf bytes => do SockBuf.apendBuf bytes; return []
  | push bytes => do SockBuf.push bytes; return []
  | write bytes => do fill bytes; writeMove (UInt32.ofNat bytes.length); return []
  | readMove len => do SockBuf.readMove len; return []
  | pop len => SockBuf.pop len
  | peek len => SockBuf.peek len
  | ensureWritableBytes len => do SockBuf.ensureWritableBytes len; return []
  | reset => do SockBuf.reset; return []

def Allowed (b : SockBuf) : SockEvent → Prop
  | apendBuf bytes | push bytes => b.writeIndex.toNat+bytes.length < 2^31
  | write bytes => bytes.length ≤ b.size.toNat-b.writeIndex.toNat
  | readMove len | pop len | peek len => len.toNat ≤ b.readable.length
  | ensureWritableBytes len => b.writeIndex.toNat+len.toNat < 2^31
  | reset => True

instance (b : SockBuf) : (event : SockEvent) → Decidable (event.Allowed b)
  | apendBuf _ | push _ | ensureWritableBytes _ => inferInstanceAs (Decidable (_ < _))
  | write _ | readMove _ | pop _ | peek _ => inferInstanceAs (Decidable (_ ≤ _))
  | reset => inferInstanceAs (Decidable True)

def appended : SockEvent → List UInt8
  | apendBuf bytes | push bytes | write bytes => bytes
  | readMove _ | pop _ | peek _ | ensureWritableBytes _ | reset => []

-- What a call consumes of the readable bytes.
def consumed (b : SockBuf) : SockEvent → List UInt8
  | readMove len | pop len => b.readable.take len.toNat
  | reset => b.readable
  | apendBuf _ | push _ | write _ | peek _ | ensureWritableBytes _ => []

-- What a call is for, besides the bytes it moves.
def Serves (b : SockBuf) (got : List UInt8) (c : SockBuf) : SockEvent → Prop
  | pop len | peek len => got = b.readable.take len.toNat
  | ensureWritableBytes len => (∃ room, writableBytes c = .ok room c ∧ len ≤ room) ∧ c.readable = b.readable
  | apendBuf _ | push _ | write _ | readMove _ | reset => True

end SockEvent

inductive SockStep : SockBuf → SockEvent → SockBuf → Prop where
  | call (allowed : event.Allowed b) : SockStep b event (final (event.run b))

theorem run_ok {event : SockEvent} (ok : Ok b) (allowed : event.Allowed b) :
    ∃ got c, event.run b = .ok got c ∧ Ok c ∧ b.readable ++ event.appended = event.consumed b ++ c.readable ∧
      event.Serves b got c := by
  cases event with
  | apendBuf bytes | push bytes =>
    obtain ⟨c,ran,kept,same,_⟩ := apendBuf_ok ok allowed
    exact ⟨[],c,bind_ok ran _,kept,same.symm,trivial⟩
  | write bytes =>
    have fits : bytes.length < 2^32 := by
      have small := ok.small
      have room : bytes.length ≤ b.size.toNat-b.writeIndex.toNat := allowed
      omega
    have count : (UInt32.ofNat bytes.length).toNat = bytes.length := by
      rw [UInt32.toNat_ofNat']
      exact Nat.mod_eq_of_lt fits
    obtain ⟨c,ran,kept,same⟩ := writeMove_ok ok count allowed
    exact ⟨[],c,bind_ok ran _,kept,same.symm,trivial⟩
  | readMove len =>
    obtain ⟨c,ran,kept,parts,_⟩ := readMove_ok ok allowed
    exact ⟨[],c,bind_ok ran _,kept,(List.append_nil _).trans parts,trivial⟩
  | pop len =>
    obtain ⟨c,ran,kept,parts⟩ := pop_ok ok allowed
    exact ⟨_,c,ran,kept,(List.append_nil _).trans parts,rfl⟩
  | peek len => exact ⟨_,b,peek_ok ok allowed,ok,List.append_nil _,rfl⟩
  | ensureWritableBytes len =>
    obtain ⟨c,ran,kept,same,room,_⟩ := ensureWritableBytes_ok ok allowed
    obtain ⟨writable,free⟩ := writableBytes_ok kept
    exact ⟨[],c,bind_ok ran _,kept,(List.append_nil _).trans same.symm,
      ⟨_,writable,UInt32.le_iff_toNat_le.mpr (by omega)⟩,same⟩
  | reset =>
    refine ⟨[],{b with readIndex := 0,writeIndex := 0},rfl,⟨Nat.le_refl _,Nat.zero_le _,ok.small,ok.block⟩,?_,trivial⟩
    exact congrArg (b.readable ++ ·) (Block.slice_zero _ _).symm

theorem sockStep_ok (ok : Ok b) (step : SockStep b event c) :
    Ok c ∧ ∃ got, event.run b = .ok got c ∧ b.readable ++ event.appended = event.consumed b ++ c.readable ∧
      event.Serves b got c := by
  cases step with
  | call allowed =>
    obtain ⟨got,c,ran,kept,parts,serves⟩ := run_ok ok allowed
    rw [ran]
    exact ⟨kept,got,rfl,parts,serves⟩

def fifoEvent (t : Transition SockBuf SockEvent) : FifoEvent UInt8 := ⟨t.event.appended,t.event.consumed t.before⟩

theorem new_ok {size : UInt32} (small : size.toNat < 2^31) : Ok (new size) where
  read_le := Nat.le_refl _
  write_le := Nat.zero_le _
  small := small
  block := List.length_replicate

-- The abstract queue that a buffer stands for.
def Queued (b : SockBuf) (q : Fifo UInt8) : Prop := Ok b ∧ q.queue = b.readable

theorem sockStep_queued {x : Fifo UInt8} (queued : Queued b x) (step : SockStep b event c) :
    ∃ y, Queued c y ∧ FifoStep x (fifoEvent ⟨b,event,c⟩) y := by
  obtain ⟨gone,queue⟩ := x
  obtain ⟨ok,rfl⟩ := queued
  obtain ⟨kept,_,_,parts,_⟩ := sockStep_ok ok step
  exact ⟨_,⟨kept,rfl⟩,.move parts⟩

-- Every run of calls is a run of a byte queue: nothing throws, the indices stay in
-- order, and what was appended is what was consumed and then the readable bytes.
theorem sockBuf_fifo {size : UInt32} (small : size.toNat < 2^31) (path : Path SockStep (new size) taken last) :
    (last.readIndex ≤ last.writeIndex ∧ last.writeIndex ≤ last.size) ∧
    (taken.flatMap fun t => t.event.appended) = (taken.flatMap fun t => t.event.consumed t.before) ++ last.readable ∧
    ∀ t ∈ taken, ∃ got, t.event.run t.before = .ok got t.after ∧ t.event.Serves t.before got t.after := by
  have start : Queued (new size) ⟨[],[]⟩ := ⟨new_ok small,(Block.slice_zero _ _).symm⟩
  obtain ⟨q,run,⟨ok,same⟩,moves,events⟩ := path.simulates Queued fifoEvent start fun _ _ _ _ queued step =>
    sockStep_queued queued step
  refine ⟨⟨UInt32.le_iff_toNat_le.mpr ok.read_le,UInt32.le_iff_toNat_le.mpr ok.write_le⟩,?_,?_⟩
  · have history := fifo_history moves
    rw [Fifo.history,fifo_taken moves,same,events,List.flatMap_map,List.flatMap_map] at history
    exact history.symm
  · refine path.along Ok (fun before event after => ∃ got, event.run before = .ok got after ∧ event.Serves before got after)
      (new_ok small) (fun _ _ _ kept step => (sockStep_ok kept step).1) ?_
    intro before event after kept step
    obtain ⟨_,got,ran,_,serves⟩ := sockStep_ok kept step
    exact ⟨got,ran,serves⟩

-- Two bytes are appended to a buffer of one byte, and one is taken out.
theorem sockBuf_fifo_pop : ∃ taken last, Path SockStep (new 1) taken last ∧ taken.length = 2 ∧
    last.readIndex ≤ last.writeIndex ∧ last.writeIndex ≤ last.size := by
  have first : SockStep (new 1) (.apendBuf [7,8]) _ := .call (by decide)
  have second : SockStep (final ((SockEvent.apendBuf [7,8]).run (new 1))) (.pop 1) _ := .call (by decide)
  have path := Path.step (.step .nil first) second
  exact ⟨_,_,path,rfl,(sockBuf_fifo (by decide) path).1⟩

end SockBuf
end PcNetwork
