import PcNetwork.NetSelect.Bookkeeping

namespace PcNetwork.NetSelect.SelectService

theorem freeIndex_some {peers : Nat → Peer} {count start : Nat} (found : freeIndex peers count start = some index) :
    index < start+count ∧ (peers index).socket = invalidSocket := by
  induction count generalizing start with
  | zero => cases found
  | succ count ih =>
    unfold freeIndex at found
    split at found
    · rename_i free
      cases found
      exact ⟨by omega,free⟩
    · obtain ⟨bound,free⟩ := ih found
      exact ⟨by omega,free⟩

-- Slot `index` of s, which was free, has been given to a socket.
structure Opened (s : SelectService) (index : Nat) (socket : Int) (t : SelectService) : Prop where
  bound : index < maxPeerNum
  free : (s.peers index).socket = invalidSocket
  socket_at : (t.peers index).socket = socket
  serial_at : (t.peers index).serial = s.serial
  empty : (t.peers index).writeBuf = final (SockBuf.reset (s.peers index).writeBuf)
  others : ∀ i, i ≠ index → t.peers i = s.peers i
  online : t.onlinePeerSet = s.onlinePeerSet ++ [index]
  registered : t.registered = s.registered ++ [socket]
  listenSocket : t.listenSocket = s.listenSocket
  readBak : t.readBak = s.readBak
  readUse : t.readUse = s.readUse
  writeBak : t.writeBak = s.writeBak
  writeUse : t.writeUse = s.writeUse
  closed : t.closed = s.closed
  scripts : t.scripts = s.scripts

theorem Opened.calm (opened : Opened s index socket t) (calm : Calm s)
    (spared : ∀ script ∈ s.scripts, ∀ call ∈ script.calls, call ≠ .closePeer index s.serial) : Calm t := by
  have load : t.load = s.load := by unfold load; rw [opened.scripts]
  refine ⟨fun script member => ?_,fun i => ?_⟩
  · rw [opened.scripts] at member
    obtain ⟨positive,stale⟩ := calm.gentle script member
    refine ⟨positive,fun call inside => ?_⟩
    have old := stale call inside
    cases call with
    | closePeer i serial =>
      by_cases same : i = index
      · subst same
        refine .inl fun equal => ?_
        rw [opened.serial_at] at equal
        exact spared script member _ inside (by rw [equal])
      · have apart : (s.peers i).serial ≠ serial ∨ (s.peers i).socket = invalidSocket := old
        rw [← opened.others i same] at apart
        exact apart
    | send | pop => trivial
  · rw [load]
    obtain ⟨ok,fits⟩ := calm.room i
    by_cases same : i = index
    · subst same
      rw [opened.empty]
      have zero : (0 : UInt32).toNat = 0 := rfl
      exact ⟨⟨Nat.le_refl _,Nat.zero_le _,ok.small,ok.block⟩,by
        show (0 : UInt32).toNat+s.load < 2^31
        omega⟩
    · rw [opened.others i same]
      exact ⟨ok,fits⟩

theorem fdSet_room {set : List Int} (room : set.length < fdSetSize) : sd ∈ fdSet socket set ↔ sd ∈ set ∨ sd = socket := by
  unfold fdSet
  rw [if_pos room]
  split
  · rename_i inside
    constructor
    · exact .inl
    · rintro (old | rfl)
      · exact old
      · exact inside
  · rw [List.mem_append,List.mem_singleton]

theorem fdSet_old {set : List Int} (member : sd ∈ fdSet socket set) : sd ∈ set ∨ sd = socket := by
  unfold fdSet at member
  split at member
  · exact .inl member
  · split at member
    · rw [List.mem_append,List.mem_singleton] at member
      exact member
    · exact .inl member

theorem Opened.owned (opened : Opened s index socket t) (books : Books s) : t.Owned sd ↔ s.Owned sd ∨ sd = socket := by
  unfold Owned
  rw [opened.online]
  constructor
  · rintro ⟨i,member,same⟩
    rcases List.mem_append.mp member with old | new
    · have apart : i ≠ index := fun equal => ((books.online i).mp old).2 (equal ▸ opened.free)
      rw [opened.others i apart] at same
      exact .inl ⟨i,old,same⟩
    · rw [List.mem_singleton.mp new,opened.socket_at] at same
      exact .inr same.symm
  · rintro (⟨i,member,same⟩ | rfl)
    · have apart : i ≠ index := fun equal => ((books.online i).mp member).2 (equal ▸ opened.free)
      exact ⟨i,List.mem_append_left _ member,by rw [opened.others i apart]; exact same⟩
    · exact ⟨index,List.mem_append_right _ (List.mem_singleton.mpr rfl),opened.socket_at⟩

-- A handle that the operating system may hand out is none of those in use.
structure Fresh (s : SelectService) (socket : Int) : Prop where
  unowned : ¬ s.Owned socket
  apart : socket ≠ s.listenSocket

-- With the FD_SET at the end of registerSocket the books are in order again.
theorem Opened.books (opened : Opened s index socket t) (books : Books s) (valid : socket ≠ invalidSocket)
    (fresh : Fresh s socket) (room : s.readBak.length < fdSetSize) : Books {t with readBak := fdSet socket t.readBak} where
  once := by
    have absent : index ∉ s.onlinePeerSet := fun member => ((books.online index).mp member).2 opened.free
    show t.onlinePeerSet.Nodup
    rw [opened.online,List.nodup_append]
    refine ⟨books.once,List.pairwise_singleton _ _,?_⟩
    intro i member j new
    rw [List.mem_singleton.mp new]
    exact fun equal => absent (equal ▸ member)
  online i := by
    show i ∈ t.onlinePeerSet ↔ i < maxPeerNum ∧ (t.peers i).socket ≠ invalidSocket
    rw [opened.online,List.mem_append,List.mem_singleton]
    by_cases same : i = index
    · subst same
      rw [opened.socket_at]
      exact ⟨fun _ => ⟨opened.bound,valid⟩,fun _ => .inr rfl⟩
    · rw [opened.others i same,books.online i]
      exact ⟨fun either => either.resolve_right same,.inl⟩
  reads sd := by
    have owned : t.Owned sd ↔ s.Owned sd ∨ sd = socket := opened.owned books
    show (sd ∈ fdSet socket t.readBak ∧ sd ≠ t.listenSocket) ↔ t.Owned sd
    rw [opened.readBak,opened.listenSocket,owned,fdSet_room room,← books.reads sd]
    constructor
    · rintro ⟨old | new,apart⟩
      · exact .inl ⟨old,apart⟩
      · exact .inr new
    · rintro (⟨old,apart⟩ | rfl)
      · exact ⟨.inl old,apart⟩
      · exact ⟨.inr rfl,fresh.apart⟩
  writes sd member := by
    have old : sd ∈ s.writeBak := opened.writeBak ▸ member
    exact (opened.owned books).mpr (.inl (books.writes sd old))
  valid := by
    obtain ⟨readBak,readUse,writeBak,writeUse⟩ := books.valid
    refine ⟨fun member => ?_,opened.readUse ▸ readUse,opened.writeBak ▸ writeBak,opened.writeUse ▸ writeUse⟩
    rcases fdSet_old member with old | new
    · exact readBak (opened.readBak ▸ old)
    · exact valid new.symm
  handed sd member := by
    have inside : sd ∈ s.registered ++ [socket] := opened.registered ▸ member
    show t.Owned sd ∨ t.closed.count sd = 1
    rw [opened.owned books,opened.closed]
    rcases List.mem_append.mp inside with old | new
    · exact (books.handed sd old).imp_left .inl
    · exact .inl (.inr (List.mem_singleton.mp new))

theorem Quiet.listed (quiet : Quiet s t) (set : List Int) : Quiet {s with readBak := set} {t with readBak := set} :=
  ⟨quiet.listenSocket,rfl,quiet.readUse,quiet.online,quiet.registered,quiet.closed,quiet.socket,quiet.serial,
    quiet.writeBak,quiet.writeUse⟩

-- What registerSocket leaves alone.
structure Joined (s t : SelectService) : Prop where
  listenSocket : t.listenSocket = s.listenSocket
  readUse : t.readUse = s.readUse
  writeUse : ∀ sd ∈ t.writeUse, sd ∈ s.writeUse

-- What registerSocket needs of the state it is called in.
structure Admits (s : SelectService) (socket : Int) : Prop where
  fresh : Fresh s socket
  room : s.readBak.length < fdSetSize
  spared : ∀ script ∈ s.scripts, ∀ call ∈ script.calls, call ≠ .closePeer s.getFreeIndex.1 s.serial

theorem registerSocket_books (books : Books s) (calm : Calm s) (valid : socket ≠ invalidSocket) (admits : Admits s socket)
    (ip : String) (port : UInt32) :
    (∃ t, registerSocket socket ip port s = .error .nullPointer t) ∨
    ∃ t, registerSocket socket ip port s = .ok () t ∧ Books t ∧ Calm t ∧ Joined s t := by
  obtain ⟨fresh,room,spared⟩ := admits
  cases found : freeIndex s.peers maxPeerNum 0 with
  | none =>
    left
    have full : s.getFreeIndex = (2^32-1,s) := by unfold getFreeIndex; rw [found]
    have taken : (modifyGet fun s => s.getFreeIndex : Select Nat) s = .ok (2^32-1) s := by
      show EStateM.Result.ok s.getFreeIndex.1 s.getFreeIndex.2 = _
      rw [full]
    unfold registerSocket
    rw [bind_ok taken,bind_error (getPeer_outside (by decide))]
    exact ⟨s,rfl⟩
  | some index =>
    obtain ⟨bound,free⟩ := freeIndex_some found
    rw [Nat.zero_add] at bound
    have inside : ¬ index ≥ maxPeerNum := Nat.not_le.mpr bound
    let u := s.getFreeIndex.2
    have first : s.getFreeIndex.1 = index := by unfold getFreeIndex; rw [found]
    have taken : (modifyGet fun s => s.getFreeIndex : Select Nat) s = .ok index u := by
      show EStateM.Result.ok s.getFreeIndex.1 u = _
      rw [first]
    let v : SelectService := {u.setPeer index {u.peers index with remoteIp := ip,remotePort := port,socket} with
      onlinePeerSet := u.onlinePeerSet ++ [index]
      registered := u.registered ++ [socket]}
    have opened : Opened s index socket v := by
      have given : u = {s.setPeer index {s.peers index with
          serial := s.serial
          readBuf := final (SockBuf.reset (s.peers index).readBuf)
          writeBuf := final (SockBuf.reset (s.peers index).writeBuf)} with serial := s.serial+1} := by
        show s.getFreeIndex.2 = _
        unfold getFreeIndex
        rw [found]
      show Opened s index socket {u.setPeer index _ with onlinePeerSet := _,registered := _}
      rw [given]
      refine ⟨bound,free,?_,?_,?_,fun i apart => ?_,rfl,rfl,rfl,rfl,rfl,rfl,rfl,rfl,rfl⟩ <;>
        simp only [setPeer,if_true]
      rw [if_neg apart,if_neg apart]
    have calm := opened.calm calm (first ▸ spared)
    have books := opened.books books valid fresh room
    let c : Callback := .onCon index (v.peers index).serial ip port
    obtain ⟨⟨still,positive⟩,quiet⟩ := callback_still calm none c
    unfold registerSocket
    rw [bind_ok taken,bind_ok (getPeer_inside inside)]
    show (∃ t, (getPeer index >>= _) v = _) ∨ ∃ t, (getPeer index >>= _) v = _ ∧ _
    rw [bind_ok (getPeer_inside inside)]
    cases ran : callback closePeer none c v with
    | error e t =>
      rw [bind_error ran]
      cases e with
      | nullPointer => exact .inl ⟨t,rfl⟩
      | exception text => exact absurd ran (quiet rfl text t)
    | ok ret t =>
      have nonneg : ¬ ret < 0 := Int.not_lt.mpr (positive ret t ran)
      rw [ran] at still
      obtain ⟨quiet,calm⟩ : Still v t := still
      have same : (t.peers index).socket = socket := (quiet.socket index).trans opened.socket_at
      rw [bind_ok ran,bind_ok (getPeer_inside inside),if_neg nonneg]
      right
      refine ⟨{t with readBak := fdSet socket t.readBak},?_,?_,⟨calm.gentle,calm.room⟩,?_⟩
      · rw [← same]
        rfl
      · rw [quiet.readBak]
        exact books.quiet (quiet.listed _)
      · exact ⟨quiet.listenSocket.trans opened.listenSocket,quiet.readUse.trans opened.readUse,
          fun sd member => opened.writeUse ▸ quiet.writeUse sd member⟩

end PcNetwork.NetSelect.SelectService
