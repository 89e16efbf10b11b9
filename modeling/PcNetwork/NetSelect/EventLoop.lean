import PcNetwork.NetSelect.Registration

namespace PcNetwork.NetSelect.SelectService

-- Only the read buffer, or the write buffer, of one peer has changed.
theorem read_still (calm : Calm s) (index : Nat) (b : SockBuf) :
    Still s (s.setPeer index {s.peers index with readBuf := b}) := by
  have quiet := setPeer_quiet s index (p := {s.peers index with readBuf := b}) rfl rfl
  refine ⟨quiet,fun script member => ?_,calm.room.readBuf index b⟩
  obtain ⟨positive,stale⟩ := calm.gentle script member
  exact ⟨positive,fun call inside => (stale call inside).quiet quiet⟩

theorem write_still (calm : Calm s) (index : Nat) {b : SockBuf} (ok : b.Ok)
    (less : b.writeIndex = (s.peers index).writeBuf.writeIndex) :
    Still s (s.setPeer index {s.peers index with writeBuf := b}) := by
  have quiet := setPeer_quiet s index (p := {s.peers index with writeBuf := b}) rfl rfl
  refine ⟨quiet,fun script member => ?_,?_⟩
  · obtain ⟨positive,stale⟩ := calm.gentle script member
    exact ⟨positive,fun call inside => (stale call inside).quiet quiet⟩
  · have fits := (calm.room index).2
    rw [← less] at fits
    exact calm.room.writeBuf index ok fits (Nat.le_refl _)

theorem onReadBuf_still (calm : Calm s) (index : Nat) (f : Throwing SockBuf α) :
    Keeps Still (fun _ => True) (onReadBuf index f) s := by
  obtain ⟨b,after⟩ := onReadBuf_quiet s index f
  exact ⟨after ▸ read_still calm index b,fun _ _ _ => trivial⟩

theorem getPeer_still (calm : Calm s) (index : Nat) : Keeps Still (· = s.peers index) (getPeer index) s := by
  by_cases outside : index ≥ maxPeerNum
  · have threw : getPeer index s = .error .nullPointer s := getPeer_outside outside
    constructor
    · rw [threw]
      exact .refl calm
    · rw [threw]
      exact nofun
  · have got : getPeer index s = .ok (s.peers index) s := getPeer_inside outside
    constructor
    · rw [got]
      exact .refl calm
    · rw [got]
      intro p t same
      cases same
      rfl

theorem sockRead_still (calm : Calm s) (index : Nat) {bytes : List UInt8} (some_bytes : bytes ≠ []) :
    Keeps Still (· = 0) (sockRead index (some bytes)) s := by
  cases bytes with
  | nil => exact absurd rfl some_bytes
  | cons byte rest =>
    unfold sockRead
    refine (onReadBuf_still calm index _).bind .trans fun _ t still _ => ?_
    refine (onReadBuf_still still.calm index _).bind .trans fun room u still _ => ?_
    refine (onReadBuf_still still.calm index _).bind .trans fun _ v still _ => ?_
    refine (onReadBuf_still still.calm index _).bind .trans fun _ w still _ => ?_
    exact .pure (.refl still.calm) rfl

theorem onWriteBuf_ok {f : Throwing SockBuf α} (ran : f (s.peers index).writeBuf = .ok a b) :
    onWriteBuf index f s = .ok a (s.setPeer index {s.peers index with writeBuf := b}) := by
  unfold onWriteBuf
  rw [ran]

theorem written_still (calm : Calm s) {f : Throwing SockBuf α} (ran : f (s.peers index).writeBuf = .ok a b) (ok : b.Ok)
    (less : b.writeIndex = (s.peers index).writeBuf.writeIndex) : Keeps Still (fun _ => True) (onWriteBuf index f) s := by
  constructor
  · rw [onWriteBuf_ok ran]
    exact write_still calm index ok less
  · exact fun _ _ _ => trivial

theorem setPeer_same (s : SelectService) (index : Nat) : s.setPeer index (s.peers index) = s := by
  have same : (fun i => if i = index then s.peers index else s.peers i) = s.peers := by
    funext i
    split
    · rename_i equal
      rw [equal]
    · rfl
  unfold setPeer
  rw [same]

theorem readableBytes_same (ok : (s.peers index).writeBuf.Ok) :
    onWriteBuf index SockBuf.readableBytes s =
      .ok ((s.peers index).writeBuf.writeIndex-(s.peers index).writeBuf.readIndex) s := by
  rw [onWriteBuf_ok (SockBuf.readableBytes_ok ok).1]
  exact congrArg _ (setPeer_same s index)

theorem sockWrite_still (calm : Calm s) (index : Nat) (count : Nat) :
    Keeps Still (· = 0) (sockWrite index (some count)) s := by
  have ok := (calm.room index).1
  obtain ⟨_,readable⟩ := SockBuf.readableBytes_ok ok
  let left := (s.peers index).writeBuf.writeIndex-(s.peers index).writeBuf.readIndex
  have length : left.toNat = (s.peers index).writeBuf.writeIndex.toNat-(s.peers index).writeBuf.readIndex.toNat := readable
  have first : sockWrite index (some count) s =
      (if left.toInt32 > 0 then do
        onWriteBuf index (SockBuf.readMove (UInt32.ofNat (min count left.toNat)))
        return 0
      else return 0 : Select Int) s := bind_ok (readableBytes_same ok) _
  have taken : Keeps Still (· = 0) (if left.toInt32 > 0 then do
      onWriteBuf index (SockBuf.readMove (UInt32.ofNat (min count left.toNat)))
      return 0
    else return 0 : Select Int) s := by
    split
    · have fits : (UInt32.ofNat (min count left.toNat)).toNat ≤ (s.peers index).writeBuf.readable.length := by
        have small := left.toNat_lt
        rw [UInt32.toNat_ofNat',Nat.mod_eq_of_lt (by omega),ok.length_readable,← length]
        exact Nat.min_le_right _ _
      obtain ⟨b,ran,fine,_,less⟩ := SockBuf.readMove_ok ok fits
      refine (written_still calm ran fine less).bind .trans fun _ t still _ => ?_
      exact .pure (.refl still.calm) rfl
    · exact .pure (.refl calm) rfl
  exact ⟨first ▸ taken.relates,first ▸ taken.returns⟩

-- No recv fails or ends a stream, no send fails.
structure Answered (o : Outside) (s : SelectService) : Prop where
  reads : ∀ sd ∈ s.readUse, sd ≠ s.listenSocket → ∃ bytes, o.recvs sd = some bytes ∧ bytes ≠ []
  writes : ∀ sd ∈ s.writeUse, o.sends sd ≠ none

theorem Answered.quiet (answered : Answered o s) (quiet : Quiet s t) : Answered o t where
  reads sd member := by
    rw [quiet.listenSocket]
    exact answered.reads sd (quiet.readUse ▸ member)
  writes sd member := answered.writes sd (quiet.writeUse sd member)

theorem get_still (calm : Calm s) : Keeps Still (· = s) (get : Select SelectService) s :=
  ⟨.refl calm,fun _ _ same => by cases same; rfl⟩

theorem serveRead_still (calm : Calm s) (answered : Answered o s) (apart : (s.peers index).socket ≠ s.listenSocket) :
    Keeps Still (fun _ => True) (serveRead o index) s := by
  unfold serveRead
  refine (getPeer_still calm index).bind .trans fun p t still same => ?_
  subst same
  refine (get_still still.calm).bind .trans fun u t' again same => ?_
  subst same
  split
  · rename_i ready
    rw [still.quiet.readUse] at ready
    obtain ⟨bytes,recv,some_bytes⟩ := answered.reads _ ready apart
    rw [recv]
    refine (sockRead_still again.calm index some_bytes).bind .trans fun ret v still zero => ?_
    rw [if_neg (not_not.mpr zero)]
    refine (callback_still still.calm (some index) _).1.bind .trans fun ret w still positive => ?_
    rw [if_neg (Int.not_lt.mpr positive)]
    exact .pure (.refl still.calm) trivial
  · exact .pure (.refl again.calm) trivial

theorem serveWrite_still (calm : Calm s) (answered : Answered o s) (index : Nat) :
    Keeps Still (fun _ => True) (serveWrite o index) s := by
  unfold serveWrite
  refine (getPeer_still calm index).bind .trans fun p t still same => ?_
  subst same
  refine (get_still still.calm).bind .trans fun u t' again same => ?_
  subst same
  split
  · rename_i ready
    obtain ⟨count,sent⟩ := Option.ne_none_iff_exists'.mp (answered.writes _ (still.quiet.writeUse _ ready))
    rw [sent]
    refine (sockWrite_still again.calm index count).bind .trans fun ret v still zero => ?_
    rw [if_neg (not_not.mpr zero)]
    have ok := (still.calm.room index).1
    refine (written_still still.calm (SockBuf.readableBytes_ok ok).1 ok rfl).bind .trans fun left w still _ => ?_
    split
    · refine ⟨⟨⟨rfl,rfl,rfl,rfl,rfl,rfl,fun _ => rfl,fun _ => rfl,fun sd member => .inl ?_,fun sd member => ?_⟩,
        still.calm.gentle,still.calm.room⟩,fun _ _ _ => trivial⟩
      · exact List.mem_of_mem_erase member
      · exact List.mem_of_mem_erase member
    · exact .pure (.refl still.calm) trivial
  · exact .pure (.refl again.calm) trivial

theorem serveFrom_still (books : Books s) (calm : Calm s) (answered : Answered o s) (count i : Nat) :
    Keeps Still (fun _ => True) (serveFrom o count i) s := by
  induction count generalizing s i with
  | zero => exact .pure (.refl calm) trivial
  | succ count ih =>
    unfold serveFrom
    refine (get_still calm).bind .trans fun u t still same => ?_
    subst same
    split
    · exact .pure (.refl still.calm) trivial
    · rename_i index found
      have member : index ∈ u.onlinePeerSet := List.mem_of_getElem? found
      have apart : (u.peers index).socket ≠ u.listenSocket := ((books.reads _).mpr ⟨index,member,rfl⟩).2
      rw [← still.quiet.listenSocket,← still.quiet.socket] at apart
      have answered := answered.quiet still.quiet
      have books := books.quiet still.quiet
      refine (serveRead_still still.calm answered apart).bind .trans fun reached v still _ => ?_
      have next (w : SelectService) (same : Still t w) : Keeps Still (fun _ => True) (serveFrom o count (i+1)) w :=
        ih (books.quiet same.quiet) same.calm (answered.quiet same.quiet) (i+1)
      split
      · refine (serveWrite_still still.calm (answered.quiet still.quiet) index).bind .trans fun _ w later _ => ?_
        exact next w (still.trans later)
      · exact next v still

-- The sets that initSets fills, cut down to what select finds ready.
def listed (s : SelectService) : List Int :=
  if s.listenSocket ≠ invalidSocket then fdSet s.listenSocket s.readBak else s.readBak

def polled (s : SelectService) (reads writes : Int → Bool) : SelectService :=
  {s with readBak := s.listed,readUse := s.listed.filter reads,writeUse := s.writeBak.filter writes}

theorem initSets_ok (s : SelectService) :
    initSets s = .ok () {s with readBak := s.listed,readUse := s.listed,writeUse := s.writeBak} := by
  by_cases listening : s.listenSocket ≠ invalidSocket
  · have sets : s.listed = fdSet s.listenSocket s.readBak := if_pos listening
    rw [sets]
    show EStateM.Result.ok () _ = _
    dsimp only
    rw [if_pos listening]
  · have sets : s.listed = s.readBak := if_neg listening
    rw [sets]
    show EStateM.Result.ok () _ = _
    dsimp only
    rw [if_neg listening]

theorem listed_apart (s : SelectService) : (sd ∈ s.listed ∧ sd ≠ s.listenSocket) ↔ (sd ∈ s.readBak ∧ sd ≠ s.listenSocket) := by
  unfold listed
  split
  · constructor
    · rintro ⟨member,apart⟩
      exact ⟨(fdSet_old member).resolve_right apart,apart⟩
    · rintro ⟨member,apart⟩
      refine ⟨?_,apart⟩
      unfold fdSet
      split
      · exact member
      · split
        · exact List.mem_append_left _ member
        · exact member
  · exact Iff.rfl

theorem listed_valid (books : Books s) : invalidSocket ∉ s.listed := by
  unfold listed
  split
  · rename_i listening
    intro member
    rcases fdSet_old member with old | new
    · exact books.valid.1 old
    · exact listening new.symm
  · exact books.valid.1

-- The two working sets may hold any part of what the other two hold.
theorem Books.uses (books : Books s) {reads writes : List Int} (fewer : ∀ sd ∈ reads, sd ∈ s.listed)
    (less : ∀ sd ∈ writes, sd ∈ s.writeBak) : Books {s with readBak := s.listed,readUse := reads,writeUse := writes} where
  once := books.once
  online := books.online
  reads sd := s.listed_apart.trans (books.reads sd)
  writes := books.writes
  valid := ⟨listed_valid books,fun member => listed_valid books (fewer _ member),books.valid.2.2.1,
    fun member => books.valid.2.2.1 (less _ member)⟩
  handed := books.handed

theorem Books.polled (books : Books s) (reads writes : Int → Bool) : Books (s.polled reads writes) :=
  books.uses (fun _ => List.mem_of_mem_filter) fun _ => List.mem_of_mem_filter

structure Sound (s : SelectService) : Prop where
  books : Books s
  buffers : ∀ i, (s.peers i).writeBuf.Ok

-- The process is gone, or a sound state is left.
def Orderly (r : EStateM.Result Fault SelectService α) : Prop := (∃ t, r = .error .nullPointer t) ∨ Sound (final r)

theorem Still.sound (still : Still s t) (books : Books s) : Sound t :=
  ⟨books.quiet still.quiet,fun i => (still.calm.room i).1⟩

theorem acceptNew_orderly (books : Books s) (calm : Calm s) (answered : Answered o s)
    (admits : s.listenSocket ∈ s.readUse → o.accepted.socket ≠ invalidSocket → Admits s o.accepted.socket) (count : SelectService → Nat) :
    Orderly ((do acceptNew o; let s ← get; serveFrom o (count s) 0) s) := by
  have serves (t : SelectService) (books : Books t) (calm : Calm t) (answered : Answered o t) :
      Orderly ((do let s ← get; serveFrom o (count s) 0) t) :=
    .inr ((serveFrom_still books calm answered (count t) 0).relates.sound books)
  unfold acceptNew
  rw [bind_assoc,bind_ok (rfl : (get : Select SelectService) s = .ok s s)]
  split
  · rename_i ready
    split
    · rename_i valid
      rcases registerSocket_books books calm valid (admits ready.2 valid) o.accepted.remoteIp o.accepted.remotePort with
        ⟨t,null⟩ | ⟨t,ran,books,calm,joined⟩
      · rw [bind_error null]
        exact .inl ⟨t,rfl⟩
      · rw [bind_ok ran]
        refine serves t books calm ⟨fun sd member => ?_,fun sd member => answered.writes sd (joined.writeUse sd member)⟩
        rw [joined.listenSocket]
        exact answered.reads sd (joined.readUse ▸ member)
    · exact .inr ⟨books,fun i => (calm.room i).1⟩
  · exact serves s books calm answered

theorem eventLoop_orderly (books : Books s) (buffers : ∀ i, (s.peers i).writeBuf.Ok)
    (meets : ∀ reads writes, o.ready = some (reads,writes) → Calm (s.polled reads writes) ∧ Answered o (s.polled reads writes) ∧
      (s.listenSocket ∈ (s.polled reads writes).readUse → o.accepted.socket ≠ invalidSocket → Admits (s.polled reads writes) o.accepted.socket)) :
    Orderly (eventLoop o s) := by
  unfold eventLoop
  rw [bind_ok (initSets_ok s)]
  cases ready : o.ready with
  | none => exact .inr ⟨books.uses (fun _ => id) fun _ => id,buffers⟩
  | some sets =>
    obtain ⟨reads,writes⟩ := sets
    obtain ⟨calm,answered,admits⟩ := meets reads writes ready
    have books := books.polled reads writes
    have looked (f : SelectService → Select Unit) : (do
        modify fun s : SelectService => {s with readUse := s.readUse.filter reads,writeUse := s.writeUse.filter writes}
        let s ← get
        f s : Select Unit) ({s with readBak := s.listed,readUse := s.listed,writeUse := s.writeBak} : SelectService) =
        f (s.polled reads writes) (s.polled reads writes) := rfl
    dsimp only
    rw [looked]
    split
    · exact acceptNew_orderly books calm answered admits fun s => s.onlinePeerSet.length
    · exact .inr ⟨books,buffers⟩

end PcNetwork.NetSelect.SelectService
