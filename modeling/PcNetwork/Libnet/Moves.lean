import PcNetwork.Libnet.SockBuf

namespace PcNetwork.SockBuf

-- What a function is for that moves `index` on by `len`, of the bytes that `avail` counts.
structure Moves (avail : Throwing SockBuf UInt32) (index : SockBuf → UInt32) (op : Throwing SockBuf α) (len : UInt32)
    (b : SockBuf) : Prop where
  throws : ∀ n, avail b = .ok n b → ((∃ text c, op b = .error text c) ↔ n < len)
  unchanged : ∀ text c, op b = .error text c → c = b
  advances : ∀ a c, op b = .ok a c → (index c).toNat = (index b).toNat+len.toNat

-- An index stays within its limit. One that has passed the limit by no more than an int
-- holds can be moved by 0: the function throws and has changed nothing.
def Within (index limit len : UInt32) : Prop :=
  index.toNat+len.toNat ≤ limit.toNat ∨ len = 0 ∧ limit.toNat < index.toNat ∧ index.toNat-limit.toNat ≤ 2^31

theorem gap_counted {x y n : UInt32} {text : String} {b : SockBuf} :
    (if (x-y).toInt32 < 0 then EStateM.Result.error text b else .ok (x-y).toInt32.toUInt32 b) = .ok n b ↔
      n = x-y ∧ (x-y).toNat < 2^31 := by
  by_cases negative : (x-y).toInt32 < 0
  · have large := gap_neg.mp negative
    rw [if_pos negative]
    exact iff_of_false nofun fun both => absurd both.2 (Nat.not_lt.mpr large)
  · have small := Nat.not_le.mp fun large => negative (gap_neg.mpr large)
    rw [if_neg negative,UInt32.toUInt32_toInt32]
    constructor
    · intro same
      cases same
      exact ⟨rfl,small⟩
    · rintro ⟨rfl,_⟩
      rfl

theorem readableBytes_some {b : SockBuf} {n : UInt32} :
    readableBytes b = .ok n b ↔ n = b.writeIndex-b.readIndex ∧ (b.writeIndex-b.readIndex).toNat < 2^31 := gap_counted

theorem writableBytes_some {b : SockBuf} {n : UInt32} :
    writableBytes b = .ok n b ↔ n = b.size-b.writeIndex ∧ (b.size-b.writeIndex).toNat < 2^31 := gap_counted

-- readMove and writeMove move first and check then.
theorem moves_checked_iff {avail : Throwing SockBuf UInt32} {index : SockBuf → UInt32} {op : Throwing SockBuf Unit}
    {b : SockBuf} {limit len : UInt32} {text : String} (moved : SockBuf)
    (counts : ∀ n, avail b = .ok n b ↔ n = limit-index b ∧ (limit-index b).toNat < 2^31)
    (checks : op b = if index b+len > limit then .error text moved else .ok () moved)
    (place : index moved = index b+len) (still : moved = b ↔ len = 0) :
    Moves avail index op len b ↔ Within (index b) limit len := by
  have sum : (index b+len).toNat = ((index b).toNat+len.toNat) % 2^32 := UInt32.toNat_add _ _
  have gap : (limit-index b).toNat = (2^32-(index b).toNat+limit.toNat) % 2^32 := UInt32.toNat_sub _ _
  have low := (index b).toNat_lt
  have high := limit.toNat_lt
  have most := len.toNat_lt
  by_cases beyond : index b+len > limit
  · rw [if_pos beyond] at checks
    have greater := UInt32.lt_iff_toNat_lt.mp beyond
    constructor
    · intro moves
      have zero := still.mp (moves.unchanged _ _ checks)
      have nothing : len.toNat = 0 := congrArg UInt32.toNat zero
      refine .inr ⟨zero,by omega,?_⟩
      by_contra far
      -- an int that is not negative again: there seem to be bytes, and 0 of them are too many
      have less := (moves.throws _ ((counts _).mpr ⟨rfl,by omega⟩)).mp ⟨_,_,checks⟩
      have fewer := UInt32.lt_iff_toNat_lt.mp less
      omega
    · rintro (fits | ⟨zero,passed,near⟩)
      · omega
      · have nothing : len.toNat = 0 := congrArg UInt32.toNat zero
        refine ⟨?_,?_,?_⟩
        · intro n counted
          have small := ((counts n).mp counted).2
          omega
        · intro t c threw
          rw [checks] at threw
          cases threw
          exact still.mpr zero
        · intro a c ran
          rw [checks] at ran
          cases ran
  · rw [if_neg beyond] at checks
    have within := Nat.not_lt.mp fun less => beyond (UInt32.lt_iff_toNat_lt.mpr less)
    constructor
    · intro moves
      have exact := moves.advances _ _ checks
      rw [place] at exact
      exact .inl (by omega)
    · rintro (fits | ⟨zero,passed,near⟩)
      · refine ⟨?_,?_,?_⟩
        · intro n counted
          obtain ⟨rfl,small⟩ := (counts n).mp counted
          refine iff_of_false ?_ fun less => ?_
          · rintro ⟨t,c,threw⟩
            rw [checks] at threw
            cases threw
          · have fewer := UInt32.lt_iff_toNat_lt.mp less
            omega
        · intro t c threw
          rw [checks] at threw
          cases threw
        · intro a c ran
          rw [checks] at ran
          cases ran
          rw [place]
          omega
      · have nothing : len.toNat = 0 := congrArg UInt32.toNat zero
        omega

-- pop checks first. None of the functions that it calls moves anything.
def Ordered (b : SockBuf) : Prop := b.readIndex.toNat ≤ b.writeIndex.toNat ∧ b.writeIndex.toNat ≤ b.size.toNat

theorem readableBytes_still (b : SockBuf) : final (readableBytes b) = b := by
  unfold readableBytes
  dsimp only
  split <;> rfl

theorem peek_still (len : UInt32) (b : SockBuf) : final (peek len b) = b := by
  have still := readableBytes_still b
  unfold peek
  split
  · rfl
  · cases counted : readableBytes b with
    | ok n c =>
      rw [counted] at still
      rw [bind_ok counted]
      split <;> exact still
    | error e c =>
      rw [counted] at still
      rw [bind_error counted]
      exact still

theorem ordered_iff (b : SockBuf) :
    ¬ (b.readIndex > b.writeIndex ∨ b.writeIndex > b.size ∨ b.readIndex > b.size) ↔ Ordered b := by
  simp only [not_or,gt_iff_lt,UInt32.lt_iff_toNat_lt,Nat.not_lt,Ordered]
  omega

theorem peek_returned {b c : SockBuf} {bytes : List UInt8} {len : UInt32} (ran : peek len b = .ok bytes c) :
    Ordered b ∧ ∃ n, readableBytes b = .ok n b ∧ len ≤ n := by
  unfold peek at ran
  split at ran
  · cases ran
  · rename_i inside
    obtain ⟨n,d,counted,checked⟩ := bind_returned ran
    have same : d = b := by simpa [counted,final] using readableBytes_still b
    subst same
    split at checked
    · cases checked
    · rename_i enough
      exact ⟨(ordered_iff d).mp inside,n,counted,UInt32.not_lt.mp enough⟩

theorem pop_returned {b c : SockBuf} {bytes : List UInt8} {len : UInt32} (ran : pop len b = .ok bytes c) :
    Ordered b ∧ (∃ n, readableBytes b = .ok n b ∧ len ≤ n) ∧ c = {b with readIndex := b.readIndex+len} := by
  obtain ⟨got,d,peeked,rest⟩ := bind_returned ran
  have same : d = b := by simpa [peeked,final] using peek_still len b
  subst same
  cases rest
  obtain ⟨ordered,enough⟩ := peek_returned peeked
  exact ⟨ordered,enough,rfl⟩

theorem pop_threw {b c : SockBuf} {text : String} {len : UInt32} (threw : pop len b = .error text c) : c = b := by
  have still := peek_still len b
  unfold pop at threw
  cases peeked : peek len b with
  | ok bytes d =>
    rw [bind_ok peeked] at threw
    cases threw
  | error e d =>
    rw [bind_error peeked] at threw
    rw [peeked] at still
    cases threw
    exact still

theorem pop_ran {b : SockBuf} {len n : UInt32} (ordered : Ordered b) (counted : readableBytes b = .ok n b) (enough : len ≤ n) :
    ∃ bytes c, pop len b = .ok bytes c := by
  have peeked : peek len b = .ok (Block.slice b.buf b.readIndex.toNat len.toNat) b := by
    unfold peek
    rw [if_neg ((ordered_iff b).mpr ordered),bind_ok counted,if_neg (UInt32.not_lt.mpr enough)]
    rfl
  exact ⟨_,_,bind_ok peeked _⟩

-- The indices are in order, or there are in any case fewer bytes.
def Poppable (b : SockBuf) (len : UInt32) : Prop := Ordered b ∨ ∀ n, readableBytes b = .ok n b → n < len

theorem pop_moves_iff (b : SockBuf) (len : UInt32) : Moves readableBytes readIndex (pop len) len b ↔ Poppable b len := by
  have throws : ∀ n, readableBytes b = .ok n b → ¬ Ordered b ∨ n < len → ∃ text c, pop len b = .error text c := by
    intro n counted stops
    cases ran : pop len b with
    | ok bytes c =>
      obtain ⟨ordered,⟨m,again,enough⟩,_⟩ := pop_returned ran
      rw [counted] at again
      cases again
      exact (stops.elim (absurd ordered) fun less => absurd enough (UInt32.not_le.mpr less))
    | error text c => exact ⟨text,c,rfl⟩
  constructor
  · intro moves
    by_cases ordered : Ordered b
    · exact .inl ordered
    · exact .inr fun n counted => (moves.throws n counted).mp (throws n counted (.inl ordered))
  · intro poppable
    refine ⟨?_,fun _ _ => pop_threw,?_⟩
    · intro n counted
      constructor
      · rintro ⟨text,c,threw⟩
        rcases poppable with ordered | fewer
        · by_contra enough
          obtain ⟨bytes,d,ran⟩ := pop_ran ordered counted (UInt32.not_lt.mp enough)
          rw [threw] at ran
          cases ran
        · exact fewer n counted
      · exact fun less => throws n counted (.inr less)
    · intro bytes c ran
      obtain ⟨⟨order,_⟩,⟨n,counted,enough⟩,rfl⟩ := pop_returned ran
      obtain ⟨rfl,small⟩ := readableBytes_some.mp counted
      have most := UInt32.le_iff_toNat_le.mp enough
      have gap : (b.writeIndex-b.readIndex).toNat = b.writeIndex.toNat-b.readIndex.toNat :=
        UInt32.toNat_sub_of_le _ _ (UInt32.le_iff_toNat_le.mpr order)
      have bound := b.writeIndex.toNat_lt
      exact toNat_add (by omega)

-- For every state, also one that an exception has left with its indices out of order.
theorem moves_iff (b : SockBuf) (len : UInt32) :
    (Moves readableBytes readIndex (readMove len) len b ↔ Within b.readIndex b.writeIndex len) ∧
    (Moves writableBytes writeIndex (writeMove len) len b ↔ Within b.writeIndex b.size len) ∧
    (Moves readableBytes readIndex (pop len) len b ↔ Poppable b len) := by
  have still : ∀ x : UInt32, x+len = x ↔ len = 0 := by
    intro x
    simp
  refine ⟨?_,?_,pop_moves_iff b len⟩
  · refine moves_checked_iff {b with readIndex := b.readIndex+len} (fun _ => readableBytes_some) rfl rfl ?_
    rw [← still b.readIndex]
    exact ⟨congrArg readIndex,fun same => by simp [same]⟩
  · refine moves_checked_iff {b with writeIndex := b.writeIndex+len} (fun _ => writableBytes_some) rfl rfl ?_
    rw [← still b.writeIndex]
    exact ⟨congrArg writeIndex,fun same => by simp [same]⟩

-- One byte is readable, and two are taken: the index has moved when the exception comes.
theorem readMove_moves_unchecked :
    ¬ ∀ (b : SockBuf) (len : UInt32), Moves readableBytes readIndex (readMove len) len b ∧
      Moves writableBytes writeIndex (writeMove len) len b ∧ Moves readableBytes readIndex (pop len) len b := by
  intro moves
  have kept := (moves ⟨[0],1,0,1⟩ 2).1.unchanged _ _ rfl
  exact absurd (congrArg readIndex kept) (by decide)

end PcNetwork.SockBuf
