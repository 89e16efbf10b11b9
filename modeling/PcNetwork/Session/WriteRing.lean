import PcNetwork.Session.TcpSession
import PcNetwork.Library.Fifo
import Mathlib.Tactic.Common

namespace PcNetwork.TcpSession

-- What m_writeBuf, m_writeBufSize, m_writeLen, m_writeBeg and m_writeEnd keep to.
-- Empty and full are told apart by writeLen alone, so full never happens.
structure RingOk (s : TcpSession) : Prop where
  len_nonneg : 0 ≤ s.writeLen
  len_lt : s.writeLen < s.writeBufSize
  beg_nonneg : 0 ≤ s.writeBeg
  beg_lt : s.writeBeg < s.writeBufSize
  end_eq : s.writeEnd = (s.writeBeg+s.writeLen) % s.writeBufSize
  size_eq : (s.writeBuf.length : Int) = s.writeBufSize
  size_le : s.writeBufSize ≤ 2^29
  max_le : s.maxBufSize ≤ 2^29
  inBounds : s.inBounds = true

theorem RingOk.end_bounds (ok : RingOk s) : 0 ≤ s.writeEnd ∧ s.writeEnd < s.writeBufSize := by
  have positive : 0 < s.writeBufSize := by have := ok.len_nonneg; have := ok.len_lt; omega
  rw [ok.end_eq]
  exact ⟨Int.emod_nonneg _ (by omega),Int.emod_lt_of_pos _ positive⟩

-- The two shapes of the ring: one stretch, or one that goes round the end.
theorem RingOk.shape (ok : RingOk s) :
    (s.writeBeg+s.writeLen < s.writeBufSize ∧ s.writeEnd = s.writeBeg+s.writeLen) ∨
    (s.writeBufSize ≤ s.writeBeg+s.writeLen ∧ s.writeEnd = s.writeBeg+s.writeLen-s.writeBufSize) := by
  obtain ⟨len0,len1,beg0,beg1,same,_,_,_,_⟩ := ok
  rcases Int.lt_or_le (s.writeBeg+s.writeLen) s.writeBufSize with short | long
  · exact .inl ⟨short,by rw [same,Int.emod_eq_of_lt (by omega) short]⟩
  · refine .inr ⟨long,?_⟩
    rw [same,← Int.sub_emod_right,Int.emod_eq_of_lt (by omega) (by omega)]

theorem RingOk.straight (ok : RingOk s) (order : s.writeEnd > s.writeBeg) :
    s.writeBeg+s.writeLen < s.writeBufSize := by
  have := ok.len_lt
  rcases ok.shape with ⟨short,_⟩ | ⟨_,back⟩ <;> omega

theorem RingOk.wrapped (ok : RingOk s) (some : s.writeLen ≠ 0) (order : ¬ s.writeEnd > s.writeBeg) :
    s.writeBufSize ≤ s.writeBeg+s.writeLen ∧ s.writeEnd = s.writeBeg+s.writeLen-s.writeBufSize := by
  have := ok.len_nonneg
  rcases ok.shape with ⟨_,back⟩ | long
  · omega
  · exact long

-- Send and its bookkeeping touch the ring, the socket's outgoing side and the state.
theorem send_toSocketIn (k : NetSocket) (buf : List UInt8) : (k.send buf).2.toSocketIn = k.toSocketIn := by
  unfold NetSocket.send; split <;> rfl

@[simp] theorem sendFrom_toReceiver (s : TcpSession) (off len : Int) :
    (s.sendFrom off len).2.toReceiver = s.toReceiver := by
  unfold sendFrom touch; dsimp only; split <;> rfl

@[simp] theorem sendFrom_socketIn (s : TcpSession) (off len : Int) :
    (s.sendFrom off len).2.socket.toSocketIn = s.socket.toSocketIn := by
  unfold sendFrom touch; dsimp only; split <;> exact send_toSocketIn _ _

@[simp] theorem flushData_toReceiver (s : TcpSession) : s.flushData.toReceiver = s.toReceiver := by
  unfold flushData; dsimp only
  repeat' split
  all_goals simp

-- What Send can do with the bytes it is offered.
theorem send_parts (k : NetSocket) (buf : List UInt8) :
    ((k.send buf).1 = -1 ∧ (k.send buf).2.accepted = k.accepted) ∨
    ∃ n, n ≤ buf.length ∧ (k.send buf).1 = n ∧ (k.send buf).2.accepted = k.accepted ++ buf.take n := by
  unfold NetSocket.send
  split
  · exact .inr ⟨0,Nat.zero_le _,by simp,by simp⟩
  · exact .inr ⟨0,Nat.zero_le _,by simp,by simp⟩
  · exact .inr ⟨0,Nat.zero_le _,by simp,by simp⟩
  · exact .inl ⟨rfl,rfl⟩
  · rename_i n _ _
    refine .inr ⟨min n buf.length,Nat.min_le_right _ _,by simp,?_⟩
    rw [List.take_eq_take_min]

theorem touch_inside {s : TcpSession} {off len : Int} (low : 0 ≤ off) (count : 0 ≤ len)
    (high : off+len ≤ s.writeBuf.length) : s.touch off len = s := by
  have same : (s.inBounds && decide (0 ≤ off ∧ 0 ≤ len ∧ off+len ≤ (s.writeBuf.length : Int))) = s.inBounds := by
    simp [low,count,high]
  unfold touch
  rw [same]

-- Everything that entered the queue: what Send took and what still waits.
def pushed (s : TcpSession) : List UInt8 := s.socket.accepted ++ s.buffered

theorem RingOk.same (ok : RingOk s) (same : t.toWriteSide = s.toWriteSide) : RingOk t ∧ t.buffered = s.buffered := by
  obtain ⟨len0,len1,beg0,beg1,back,size,limit,most,inside⟩ := ok
  unfold buffered
  refine ⟨⟨?_,?_,?_,?_,?_,?_,?_,?_,?_⟩,?_⟩ <;> rw [same] <;> assumption

-- Nothing that the sending side depends on has changed.
-- Taking n bytes from the front of the ring.
theorem RingOk.advance {n : Nat} (ok : RingOk s) (count : (n : Int) ≤ s.writeLen) (socket : NetSocket) :
    RingOk {s with socket,writeLen := s.writeLen-n,writeBeg := (s.writeBeg+n) % s.writeBufSize} ∧
    ({s with socket,writeLen := s.writeLen-n,writeBeg := (s.writeBeg+n) % s.writeBufSize} : TcpSession).buffered =
      s.buffered.drop n := by
  have ok' := ok
  obtain ⟨len0,len1,beg0,beg1,same,size,_,_,_⟩ := ok'
  have positive : 0 < s.writeBufSize := by omega
  refine ⟨⟨by dsimp only; omega,by dsimp only; omega,Int.emod_nonneg _ (by omega),
    Int.emod_lt_of_pos _ positive,?_,ok.size_eq,ok.size_le,ok.max_le,ok.inBounds⟩,?_⟩
  · dsimp only
    rw [same,Int.emod_add_emod]
    congr 1; omega
  · have turn : ((s.writeBeg+n) % s.writeBufSize).toNat = (s.writeBeg.toNat+n) % s.writeBuf.length := by
      rw [← size,Int.toNat_emod (by omega) (by omega)]
      congr 1; omega
    have left : (s.writeLen-n).toNat = s.writeLen.toNat-n := by omega
    simp only [buffered,turn,left]
    rw [Block.ring_drop _ _ (by omega)]

-- One call of Send on a stretch at the front of the ring that does not go round.
theorem sendFrom_parts (ok : RingOk s) (front : off = s.writeBeg) (nonneg : 0 ≤ len) (short : len ≤ s.writeLen)
    (inside : s.writeBeg+len ≤ s.writeBufSize) :
    RingOk (s.sendFrom off len).2 ∧ (s.sendFrom off len).2.pushed = s.pushed ∧
    ((∃ n : Nat, n ≤ len ∧ (s.sendFrom off len).1 = true ∧ (s.sendFrom off len).2.state = s.state ∧
        (s.sendFrom off len).2.writeLen = s.writeLen-n ∧
        (s.sendFrom off len).2.writeBeg = (s.writeBeg+n) % s.writeBufSize ∧
        (s.sendFrom off len).2.writeBufSize = s.writeBufSize ∧ (s.sendFrom off len).2.writeEnd = s.writeEnd) ∨
      ((s.sendFrom off len).1 = false ∧ (s.sendFrom off len).2.state = .dead)) := by
  subst front
  have size := ok.size_eq
  have low := ok.beg_nonneg
  have stretch : Block.slice s.writeBuf s.writeBeg.toNat len.toNat = s.buffered.take len.toNat := by
    rw [buffered,Block.ring_take _ _ (by omega),Block.ring_straight (by omega)]
  unfold sendFrom
  simp only [touch_inside low nonneg (by omega : s.writeBeg+len ≤ s.writeBuf.length)]
  rcases send_parts s.socket (Block.slice s.writeBuf s.writeBeg.toNat len.toNat) with ⟨ret,taken⟩ | ⟨n,bound,ret,taken⟩
  · simp only [ret]
    refine ⟨⟨ok.len_nonneg,ok.len_lt,low,ok.beg_lt,ok.end_eq,size,ok.size_le,ok.max_le,ok.inBounds⟩,?_,.inr ⟨rfl,rfl⟩⟩
    simp only [pushed,buffered]
    rw [if_neg (by decide)]
    dsimp only
    rw [taken]
  · have limit : n ≤ len.toNat := Nat.le_trans bound (Block.length_slice_le _ _ _)
    obtain ⟨kept,rest⟩ := ok.advance (by omega : (n : Int) ≤ s.writeLen)
      (s.socket.send (Block.slice s.writeBuf s.writeBeg.toNat len.toNat)).2
    simp only [ret]
    rw [if_pos (by omega)]
    refine ⟨kept,?_,.inl ⟨n,by omega,rfl,rfl,rfl,rfl,rfl,rfl⟩⟩
    simp only [pushed,rest,taken]
    rw [stretch,List.take_take,Nat.min_eq_left limit,List.append_assoc,List.take_append_drop]

theorem flushData_parts (ok : RingOk s) : RingOk s.flushData ∧ s.flushData.pushed = s.pushed := by
  have positive := ok.len_nonneg
  have room := ok.len_lt
  unfold flushData
  split
  · exact ⟨ok,rfl⟩
  · rename_i some
    split
    · rename_i order
      have short := ok.straight order
      obtain ⟨kept,same,_⟩ := sendFrom_parts ok rfl positive (Int.le_refl _) (by omega)
      exact ⟨kept,same⟩
    · rename_i order
      obtain ⟨beyond,behind⟩ := ok.wrapped some order
      have begin := ok.beg_lt
      obtain ⟨kept,same,outcome⟩ := sendFrom_parts ok rfl (by omega : 0 ≤ s.writeBufSize-s.writeBeg)
        (by omega) (by omega)
      dsimp only
      split
      · exact ⟨kept,same⟩
      · rename_i taken
        split
        · exact ⟨kept,same⟩
        · rename_i front
          -- the whole end of the block went out, so the rest starts at index 0
          have front : (s.sendFrom s.writeBeg (s.writeBufSize-s.writeBeg)).2.writeBeg = 0 := by simpa using front
          rcases outcome with ⟨n,limit,_,_,len,beg,_,tail⟩ | ⟨refused,_⟩
          · have all : (n : Int) = s.writeBufSize-s.writeBeg := by
              by_contra less
              have inside : s.writeBeg+n < s.writeBufSize := by omega
              rw [front,Int.emod_eq_of_lt (by have := ok.beg_nonneg; omega) inside] at beg
              omega
            have bounds := kept.end_bounds
            obtain ⟨again,still,_⟩ := sendFrom_parts kept front.symm bounds.1 (by omega) (by omega)
            exact ⟨again,still.trans same⟩
          · exact absurd refused taken

theorem step_round {x n : Int} (positive : 0 < n) :
    (x+1) % n = if x % n+1 = n then 0 else x % n+1 := by
  have low := Int.emod_nonneg x (by omega : n ≠ 0)
  have high := Int.emod_lt_of_pos x positive
  rw [← Int.emod_add_emod]
  split
  · rename_i turn; rw [turn,Int.emod_self]
  · exact Int.emod_eq_of_lt (by omega) (by omega)

-- The copying loop, from a ring that already holds k bytes and has room for the
-- rest. Only the block and writeEnd change.
theorem pushLoop_parts {s : TcpSession} (k : Nat) (bytes : List UInt8) (beg0 : 0 ≤ s.writeBeg)
    (size : (s.writeBuf.length : Int) = s.writeBufSize) (room : k+bytes.length < s.writeBuf.length)
    (behind : s.writeEnd = (s.writeBeg+k) % s.writeBufSize) :
    s.pushLoop bytes = {s with
      writeBuf := (s.pushLoop bytes).writeBuf
      writeEnd := (s.writeBeg+(k+bytes.length : Nat)) % s.writeBufSize} ∧
    (s.pushLoop bytes).writeBuf.length = s.writeBuf.length ∧
    Block.ring (s.pushLoop bytes).writeBuf s.writeBeg.toNat (k+bytes.length) =
      Block.ring s.writeBuf s.writeBeg.toNat k ++ bytes := by
  induction bytes generalizing s k with
  | nil => simp only [pushLoop,List.length_nil,Nat.add_zero,← behind]; simp
  | cons byte rest ih =>
    have positive : 0 < s.writeBufSize := by simp at room; omega
    have low : 0 ≤ s.writeEnd := behind ▸ Int.emod_nonneg _ (by omega)
    have high : s.writeEnd < s.writeBufSize := behind ▸ Int.emod_lt_of_pos _ positive
    let next : TcpSession := {s with
      writeBuf := s.writeBuf.set s.writeEnd.toNat byte
      writeEnd := (s.writeBeg+(k+1 : Nat)) % s.writeBufSize}
    have unroll : s.pushLoop (byte :: rest) = next.pushLoop rest := by
      have round := step_round (x := s.writeBeg+k) positive
      rw [← behind] at round
      have moved : (s.writeBeg+((k+1 : Nat) : Int)) % s.writeBufSize =
          if s.writeEnd+1 = s.writeBufSize then 0 else s.writeEnd+1 := by
        rw [← round]; congr 1; omega
      have inside : s.touch s.writeEnd 1 = s := touch_inside low (by omega) (by omega)
      simp only [pushLoop,inside,next,moved]
      split <;> rfl
    have place : s.writeEnd.toNat = (s.writeBeg.toNat+k) % s.writeBuf.length := by
      rw [behind,← size,Int.toNat_emod (by omega) (by omega)]
      congr 1; omega
    simp only [List.length_cons] at room ⊢
    have further := ih (s := next) (k+1) beg0 (by simp [next,size]) (by simp [next]; omega) rfl
    rw [unroll,show k+(rest.length+1) = k+1+rest.length by omega]
    obtain ⟨fields,count,content⟩ := further
    refine ⟨?_,by rw [count]; simp [next],?_⟩
    · conv => lhs; rw [fields]
    · rw [content]
      simp only [next,place]
      rw [Block.ring_push (by omega)]
      simp

-- Copying to the front of a fresh block.
theorem ring_copied {buf A : List UInt8} (room : A.length ≤ buf.length) :
    Block.ring (Block.patch buf 0 A) 0 A.length = A := by
  have fits : 0+A.length ≤ buf.length := by omega
  rw [Block.ring_straight (by rw [Block.length_patch fits]; omega),Block.slice_patch_same fits]

-- ResizeBuf moves the bytes of the ring to the front of a new block, in order.
def linear (s : TcpSession) (buf : List UInt8) : List UInt8 :=
  if s.writeLen > 0 then
    if s.writeEnd > s.writeBeg then
      Block.patch buf 0 (Block.slice s.writeBuf s.writeBeg.toNat s.writeLen.toNat)
    else
      Block.patch (Block.patch buf 0 (Block.slice s.writeBuf s.writeBeg.toNat (s.writeBufSize-s.writeBeg).toNat))
        (s.writeBufSize-s.writeBeg).toNat (Block.slice s.writeBuf 0 (s.writeLen-(s.writeBufSize-s.writeBeg)).toNat)
  else buf

theorem linear_parts (ok : RingOk s) (buf : List UInt8) (room : s.writeLen ≤ buf.length) :
    (s.linear buf).length = buf.length ∧ Block.ring (s.linear buf) 0 s.writeLen.toNat = s.buffered := by
  obtain ⟨len0,len1,beg0,beg1,_,size,_,_,_⟩ := id ok
  unfold linear
  by_cases some : s.writeLen > 0
  · by_cases order : s.writeEnd > s.writeBeg
    · have short := ok.straight order
      rw [if_pos some,if_pos order]
      generalize first : Block.slice s.writeBuf s.writeBeg.toNat s.writeLen.toNat = A
      have lengthA : A.length = s.writeLen.toNat := by rw [← first]; exact Block.length_slice (by omega)
      refine ⟨Block.length_patch (by omega),?_⟩
      rw [← lengthA,ring_copied (by omega),← first,buffered,Block.ring_straight (by omega)]
    · obtain ⟨beyond,_⟩ := ok.wrapped (by omega) order
      rw [if_pos some,if_neg order]
      generalize first : Block.slice s.writeBuf s.writeBeg.toNat (s.writeBufSize-s.writeBeg).toNat = A
      generalize second : Block.slice s.writeBuf 0 (s.writeLen-(s.writeBufSize-s.writeBeg)).toNat = B
      have lengthA : A.length = (s.writeBufSize-s.writeBeg).toNat := by
        rw [← first]; exact Block.length_slice (by omega)
      have lengthB : B.length = (s.writeLen-(s.writeBufSize-s.writeBeg)).toNat := by
        rw [← second]; exact Block.length_slice (by omega)
      have roomA : 0+A.length ≤ buf.length := by omega
      have roomB : 0+A.length+B.length ≤ (Block.patch buf 0 A).length := by rw [Block.length_patch roomA]; omega
      have both := Block.slice_patch_extend roomB
      rw [Nat.zero_add,Block.slice_patch_same roomA] at both
      have total : (Block.patch (Block.patch buf 0 A) A.length B).length = buf.length := by
        rw [Block.length_patch (by omega),Block.length_patch roomA]
      rw [← lengthA]
      refine ⟨total,?_⟩
      rw [Block.ring_straight (by omega),show s.writeLen.toNat = A.length+B.length by omega,both,buffered,
        Block.ring_wrapped (by omega) (by omega) (by omega),← first,← second]
      congr 2 <;> omega
  · have none : s.writeLen = 0 := by omega
    rw [if_neg some]
    exact ⟨rfl,by simp [buffered,none]⟩

theorem resizeBuf_unfold {min size : Int} (ok : RingOk s) (fits : min < s.maxBufSize)
    (chosen : (if int32 (min*2) > s.maxBufSize then s.maxBufSize else int32 (min*2)) = size)
    (room : s.writeLen ≤ size) :
    s.resizeBuf min = (true,{s with
      writeBuf := s.linear (List.replicate size.toNat 0)
      writeBeg := 0
      writeEnd := s.writeLen
      writeBufSize := size}) := by
  obtain ⟨len0,len1,beg0,beg1,_,block,_,_,_⟩ := id ok
  have clean : (s.inBounds && decide (s.writeLen ≤ size)) = s.inBounds := by simp [room]
  unfold resizeBuf linear
  simp only [chosen]
  rw [if_neg (by omega)]
  by_cases some : s.writeLen > 0
  · by_cases order : s.writeEnd > s.writeBeg
    · have short := ok.straight order
      have inside : s.touch s.writeBeg s.writeLen = s := touch_inside beg0 len0 (by omega)
      simp only [if_pos some,if_pos order,inside,clean]
    · obtain ⟨beyond,_⟩ := ok.wrapped (by omega) order
      have upper : s.touch s.writeBeg (s.writeBufSize-s.writeBeg) = s := touch_inside beg0 (by omega) (by omega)
      have lower : s.touch 0 (s.writeLen-(s.writeBufSize-s.writeBeg)) = s :=
        touch_inside (Int.le_refl 0) (by omega) (by omega)
      simp only [if_pos some,if_neg order,upper,lower,clean]
  · simp only [if_neg some,clean]

theorem resizeBuf_parts (ok : RingOk s) (count : 0 ≤ len) (small : len ≤ maxNetPacketSize) :
    s.resizeBuf (s.writeLen+len+1) = (false,s) ∨
    ∃ buf size, s.resizeBuf (s.writeLen+len+1) =
        (true,{s with writeBuf := buf,writeBeg := 0,writeEnd := s.writeLen,writeBufSize := size}) ∧
      (buf.length : Int) = size ∧ s.writeLen+len < size ∧ size ≤ 2^29 ∧
      Block.ring buf 0 s.writeLen.toNat = s.buffered := by
  obtain ⟨len0,len1,_,_,_,_,limit,most,_⟩ := id ok
  have narrow : len ≤ 16389 := small
  rcases Int.lt_or_le (s.writeLen+len+1) s.maxBufSize with fits | full
  · right
    have twice : int32 ((s.writeLen+len+1)*2) = (s.writeLen+len+1)*2 := by
      unfold int32; rw [Int.bmod_eq_of_le] <;> omega
    generalize chosen : (if int32 ((s.writeLen+len+1)*2) > s.maxBufSize then s.maxBufSize
      else int32 ((s.writeLen+len+1)*2)) = size
    have above : s.writeLen+len+1 ≤ size := by rw [← chosen,twice]; split <;> omega
    have below : size ≤ 2^29 := by rw [← chosen,twice]; split <;> omega
    obtain ⟨length,content⟩ := linear_parts ok (List.replicate size.toNat 0) (by rw [List.length_replicate]; omega)
    exact ⟨_,_,resizeBuf_unfold ok fits chosen (by omega),by rw [length,List.length_replicate]; omega,
      by omega,below,content⟩
  · left
    unfold resizeBuf
    rw [if_pos (by omega)]

-- The second half of PushData, once there is room.
theorem fill_parts (ok : RingOk s) (buf : List UInt8) (room : s.writeLen+buf.length < s.writeBufSize) :
    ∃ block, pushLoop {s with writeLen := s.writeLen+buf.length} buf = {s with
        writeLen := s.writeLen+buf.length
        writeBuf := block
        writeEnd := (s.writeBeg+(s.writeLen+buf.length)) % s.writeBufSize} ∧
      block.length = s.writeBuf.length ∧
      Block.ring block s.writeBeg.toNat (s.writeLen+buf.length).toNat = s.buffered ++ buf := by
  have len0 := ok.len_nonneg
  have size := ok.size_eq
  have behind : s.writeEnd = (s.writeBeg+(s.writeLen.toNat : Nat)) % s.writeBufSize := by
    rw [Int.toNat_of_nonneg len0]; exact ok.end_eq
  obtain ⟨fields,count,content⟩ := pushLoop_parts (s := {s with writeLen := s.writeLen+buf.length})
    s.writeLen.toNat buf ok.beg_nonneg size (by dsimp only; omega) behind
  refine ⟨_,?_,count,?_⟩
  · rw [show s.writeBeg+(s.writeLen+buf.length) = s.writeBeg+((s.writeLen.toNat+buf.length : Nat) : Int) by omega]
    exact fields
  · rw [show (s.writeLen+(buf.length : Int)).toNat = s.writeLen.toNat+buf.length by omega]
    exact content

theorem fill_ok (ok : RingOk s) (room : s.writeLen+(count : Nat) < s.writeBufSize)
    (length : block.length = s.writeBuf.length) :
    RingOk {s with
      writeLen := s.writeLen+count
      writeBuf := block
      writeEnd := (s.writeBeg+(s.writeLen+count)) % s.writeBufSize} :=
  ⟨by have := ok.len_nonneg; dsimp only; omega,room,ok.beg_nonneg,ok.beg_lt,rfl,
    by have := ok.size_eq; dsimp only; omega,ok.size_le,ok.max_le,ok.inBounds⟩

-- PushData takes all of the block or changes nothing.
theorem pushData_parts (ok : RingOk s) (small : (buf.length : Int) ≤ maxNetPacketSize) :
    s.pushData buf = (false,s) ∨
    ∃ w, s.pushData buf = (true,{s with toWriteSide := w}) ∧ RingOk {s with toWriteSide := w} ∧
      ({s with toWriteSide := w} : TcpSession).buffered = s.buffered ++ buf := by
  have len0 := ok.len_nonneg
  unfold pushData
  by_cases tight : (buf.length : Int) ≥ s.writeBufSize-s.writeLen
  · simp only [if_pos tight]
    rcases resizeBuf_parts ok (by omega : (0 : Int) ≤ buf.length) small with refused | ⟨block,size,grown,length,room,limit,content⟩
    · left; rw [refused]; rfl
    · right
      rw [grown]
      have kept : RingOk {s with writeBuf := block,writeBeg := 0,writeEnd := s.writeLen,writeBufSize := size} :=
        ⟨len0,by dsimp only; omega,Int.le_refl 0,by dsimp only; omega,
          by dsimp only; rw [Int.zero_add,Int.emod_eq_of_lt len0 (by omega)],length,limit,ok.max_le,ok.inBounds⟩
      obtain ⟨after,filled,same,joined⟩ := fill_parts kept buf room
      refine ⟨_,Prod.ext rfl filled,fill_ok kept room same,?_⟩
      rw [buffered]
      refine joined.trans ?_
      congr 1
  · right
    simp only [if_neg tight]
    obtain ⟨after,filled,same,joined⟩ := fill_parts ok buf (by omega)
    exact ⟨_,Prod.ext rfl filled,fill_ok ok (by omega) same,joined⟩

-- PushData works on the ring only.
theorem resizeBuf_side (s : TcpSession) (min : Int) :
    (s.resizeBuf min).2 = {s with toWriteSide := (s.resizeBuf min).2.toWriteSide} := by
  unfold resizeBuf touch
  dsimp only
  repeat' split
  all_goals rfl

theorem pushLoop_side (s : TcpSession) (bytes : List UInt8) :
    s.pushLoop bytes = {s with toWriteSide := (s.pushLoop bytes).toWriteSide} := by
  induction bytes generalizing s with
  | nil => rfl
  | cons byte rest ih =>
    simp only [pushLoop]
    rw [ih]
    split <;> rfl

theorem pushData_side (s : TcpSession) (buf : List UInt8) :
    (s.pushData buf).2 = {s with toWriteSide := (s.pushData buf).2.toWriteSide} := by
  have grown := resizeBuf_side s (s.writeLen+buf.length+1)
  unfold pushData
  dsimp only
  split
  · split
    · exact grown
    · rw [pushLoop_side,grown]
  · split
    · rfl
    · rw [pushLoop_side]

-- The operations on the ring. A flush meets whatever the socket answers; a push
-- carries its return value.
inductive WriteEvent where
  | push (buf : List UInt8) (returned : Bool)
  | flush (sends : List SendAnswer)
  | setBufSize (kb : Int)

inductive WriteStep : TcpSession → WriteEvent → TcpSession → Prop where
  | push (small : (buf.length : Int) ≤ maxNetPacketSize) :
      WriteStep s (.push buf (s.pushData buf).1) (s.pushData buf).2
  | flush : WriteStep s (.flush sends) (flushData {s with socket := {s.socket with sends}})
  | setBufSize (bound : kb*1000 ≤ 2^29) : WriteStep s (.setBufSize kb) (s.setBufSize kb)

def WriteEvent.pushed : WriteEvent → List UInt8
  | .push buf true => buf
  | .push _ false | .flush _ | .setBufSize _ => []

theorem sendFrom_accepted (s : TcpSession) (off len : Int) :
    s.socket.accepted <+: (s.sendFrom off len).2.socket.accepted := by
  unfold sendFrom touch
  dsimp only
  rcases send_parts s.socket (Block.slice s.writeBuf off.toNat len.toNat) with ⟨_,same⟩ | ⟨n,_,_,more⟩
  · split <;> exact same ▸ List.prefix_rfl
  · split <;> exact more ▸ List.prefix_append _ _

theorem flushData_accepted (s : TcpSession) : s.socket.accepted <+: s.flushData.socket.accepted := by
  unfold flushData
  split
  · exact List.prefix_rfl
  · split
    · exact sendFrom_accepted _ _ _
    · dsimp only
      split
      · exact sendFrom_accepted _ _ _
      · split
        · exact sendFrom_accepted _ _ _
        · exact (sendFrom_accepted _ _ _).trans (sendFrom_accepted _ _ _)

-- The ring as a byte queue: Send's side of it is the past.
def fifo (s : TcpSession) : Fifo UInt8 := ⟨s.socket.accepted,s.buffered⟩

def fifoEvent (t : Transition TcpSession WriteEvent) : FifoEvent UInt8 :=
  ⟨t.event.pushed,t.after.socket.accepted.drop t.before.socket.accepted.length⟩

theorem fifo_move {s next : TcpSession} {out : List UInt8} (more : next.socket.accepted = s.socket.accepted ++ out)
    (parts : s.buffered ++ event.pushed = out ++ next.buffered) :
    FifoStep s.fifo (fifoEvent ⟨s,event,next⟩) next.fifo := by
  have step : FifoStep s.fifo ⟨event.pushed,out⟩ ⟨s.socket.accepted ++ out,next.buffered⟩ := .move parts
  have after : next.fifo = ⟨s.socket.accepted ++ out,next.buffered⟩ := by rw [fifo,more]
  unfold fifoEvent
  rw [after,more,List.drop_left' rfl]
  exact step

theorem writeStep_refines (ok : RingOk s) (step : WriteStep s event next) :
    RingOk next ∧ FifoStep s.fifo (fifoEvent ⟨s,event,next⟩) next.fifo := by
  cases step with
  | @push _ buf small =>
    rcases pushData_parts ok small with refused | ⟨w,pushed,kept,joined⟩
    · rw [refused]
      exact ⟨ok,fifo_move (List.append_nil _).symm (List.append_nil _)⟩
    · rw [pushed]
      exact ⟨kept,fifo_move (List.append_nil _).symm joined.symm⟩
  | @flush _ sends =>
    let offered : TcpSession := {s with socket := {s.socket with sends}}
    have ready : RingOk offered := ⟨ok.1,ok.2,ok.3,ok.4,ok.5,ok.6,ok.7,ok.8,ok.9⟩
    obtain ⟨kept,same⟩ := flushData_parts ready
    obtain ⟨out,more⟩ := flushData_accepted offered
    refine ⟨kept,fifo_move more.symm ?_⟩
    refine (List.append_cancel_left : s.socket.accepted ++ _ = s.socket.accepted ++ _ → _) ?_
    calc s.socket.accepted ++ (s.buffered ++ []) = offered.flushData.pushed := by rw [List.append_nil]; exact same.symm
      _ = s.socket.accepted ++ (out ++ offered.flushData.buffered) := by rw [pushed,← more,List.append_assoc]
  | @setBufSize _ kb bound =>
    exact ⟨⟨ok.1,ok.2,ok.3,ok.4,ok.5,ok.6,ok.7,bound,ok.9⟩,fifo_move (List.append_nil _).symm (List.append_nil _)⟩

theorem writeStep_accepted (step : WriteStep s event next) : s.socket.accepted <+: next.socket.accepted := by
  cases step with
  | push => rw [pushData_side]
  | @flush _ sends => exact flushData_accepted {s with socket := {s.socket with sends}}
  | setBufSize => exact List.prefix_rfl

theorem reset_ring (s : TcpSession) (bound : limit ≤ 2^29) : RingOk {s.reset with maxBufSize := limit} where
  len_nonneg := Int.le_refl 0
  len_lt := (by decide : (0 : Int) < maxBufferSize)
  beg_nonneg := Int.le_refl 0
  beg_lt := (by decide : (0 : Int) < maxBufferSize)
  end_eq := (by decide : (0 : Int) = (0+0) % maxBufferSize)
  size_eq := by
    have length : (List.replicate maxBufferSize.toNat (0 : UInt8)).length = maxBufferSize.toNat :=
      List.length_replicate
    exact (congrArg Int.ofNat length).trans (Int.toNat_of_nonneg (by decide))
  size_le := (by decide : maxBufferSize ≤ 2^29)
  max_le := bound
  inBounds := rfl

-- From Reset on, the write ring is a byte queue that PushData fills and Send empties:
-- `out` is what Send accepted since then.
theorem writeRing_fifo (s : TcpSession) (bound : limit ≤ 2^29)
    (path : Path WriteStep {s.reset with maxBufSize := limit} taken last) :
    RingOk last ∧ (0 ≤ last.writeEnd ∧ last.writeEnd < last.writeBufSize) ∧
    (∃ out, last.socket.accepted = s.socket.accepted ++ out ∧
      out ++ last.buffered = taken.flatMap fun t => t.event.pushed) ∧
    ∀ t ∈ taken, ∀ buf returned, t.event = .push buf returned →
      if returned then t.after.socket = t.before.socket ∧ t.after.buffered = t.before.buffered ++ buf
      else t.after = t.before := by
  have start := reset_ring s bound
  obtain ⟨_,run,⟨ok,rfl⟩,moves,events⟩ := path.simulates (fun s q => RingOk s ∧ q = s.fifo) fifoEvent ⟨start,rfl⟩
    (fun _ _ after _ ⟨kept,same⟩ step => ⟨after.fifo,⟨(writeStep_refines kept step).1,rfl⟩,same ▸ (writeStep_refines kept step).2⟩)
  refine ⟨ok,ok.end_bounds,?_,?_⟩
  · have history := fifo_history moves
    rw [events,List.flatMap_map] at history
    have grows : s.socket.accepted <+: last.socket.accepted := by
      refine path.invariant (fun t => s.socket.accepted <+: t.socket.accepted) List.prefix_rfl ?_
      intro before event after earlier step
      exact earlier.trans (writeStep_accepted step)
    obtain ⟨out,more⟩ := grows
    refine ⟨out,more.symm,List.append_cancel_left (?_ : s.socket.accepted ++ _ = s.socket.accepted ++ _)⟩
    rw [← List.append_assoc,more]
    refine history.trans ?_
    congr 1
    exact List.append_nil _
  · refine path.along RingOk (fun before event after => ∀ buf returned, event = .push buf returned →
      if returned then after.socket = before.socket ∧ after.buffered = before.buffered ++ buf
      else after = before) start (fun _ _ _ kept step => (writeStep_refines kept step).1) ?_
    intro before event after kept step buf returned same
    subst same
    cases step with
    | push small =>
      rcases pushData_parts kept small with refused | ⟨w,pushed,_,joined⟩
      · rw [refused]; rfl
      · rw [pushed]; exact ⟨rfl,joined⟩

-- Two bytes pushed, one of them sent.
theorem writeRing_fifo_sent : ∃ taken last, Path WriteStep {new.reset with maxBufSize := 17000} taken last ∧
    taken.length = 2 ∧ ∃ out, last.socket.accepted = new.socket.accepted ++ out ∧ out ++ last.buffered = [7,8] := by
  have push : WriteStep {new.reset with maxBufSize := 17000} (.push [7,8] true) _ := .push (by decide)
  have flush : ∀ s, WriteStep s (.flush [.sent 1]) _ := fun _ => .flush
  have path := Path.step (.step .nil push) (flush _)
  exact ⟨_,_,path,rfl,(writeRing_fifo new (by decide) path).2.2.1⟩

end PcNetwork.TcpSession
