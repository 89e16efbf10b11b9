import PcNetwork.NetSelect.WritePath

namespace PcNetwork.NetSelect.Machine
open SelectService (Outside Connection Fresh getPeer onReadBuf sockRead)
variable {m n : Machine} {s t : SelectService} {index i : Nat} {o : Outside} {b c : SockBuf}

-- The bytes that ::recv stores: it is given what is writable when room has been made.
def recvTakes (answer : Option (List UInt8)) (b : SockBuf) : List UInt8 :=
  match answer,(SockBuf.ensureWritableBytes 512 >>= fun _ => SockBuf.writableBytes) b with
  | some bytes,.ok room _ => bytes.take room.toNat
  | _,_ => []

-- The same for a round of the loop, in which a peer is served.
def stores (i : Nat) (m : Machine) : MachineEvent → List UInt8
  | .round =>
    match m.stack with
    | .loop o k :: _ =>
      if m.service.onlinePeerSet[k]? = some i ∧ (m.service.peers i).socket ∈ m.service.readUse then
        recvTakes (o.recvs (m.service.peers i).socket) (m.service.peers i).readBuf
      else []
    | _ => []
  | .listen _ | .connectPeer _ | .send _ _ _ | .closePeer _ _ | .pop _ | .resume _ | .eventLoop _ => []

theorem onReadBuf_moved {f : Throwing SockBuf α} (ran : onReadBuf index f s = .ok a t) :
    ∃ b, f (s.peers index).readBuf = .ok a b ∧ t = s.setPeer index {s.peers index with readBuf := b} := by
  unfold onReadBuf at ran
  split at ran
  · rename_i b inner
    cases ran
    exact ⟨b,inner,rfl⟩
  · cases ran

-- What sockRead does to the buffer, whatever it returns.
structure Drew (answer : Option (List UInt8)) (b c : SockBuf) : Prop where
  ok : c.Ok
  readable : c.readable = b.readable ++ recvTakes answer b

theorem sockRead_drew {answer : Option (List UInt8)} {ret : Int} (ran : sockRead index answer s = .ok ret t)
    (ok : (s.peers index).readBuf.Ok) :
    ∃ b, Drew answer (s.peers index).readBuf b ∧ t = s.setPeer index {s.peers index with readBuf := b} := by
  unfold sockRead at ran
  obtain ⟨_,u,ensured,rest⟩ := bind_returned ran
  clear ran
  obtain ⟨b,made,rfl⟩ := onReadBuf_moved ensured
  obtain ⟨room,v,counted,last⟩ := bind_returned rest
  clear rest
  obtain ⟨c,count,rfl⟩ := onReadBuf_moved counted
  rw [setPeer_at] at count
  rw [setPeer_setPeer,setPeer_at] at last
  have small : (512 : UInt32).toNat < 2^31 := by decide
  rcases SockBuf.ensureWritableBytes_spaced ok small with ⟨d,spaced,kept,same,_,_⟩ | ⟨_,text,threw⟩
  · rw [spaced] at made
    cases made
    obtain ⟨writable,free⟩ := SockBuf.writableBytes_ok kept
    rw [writable] at count
    cases count
    have found : (SockBuf.ensureWritableBytes 512 >>= fun _ => SockBuf.writableBytes) (s.peers index).readBuf =
        .ok (b.size-b.writeIndex) b := (bind_ok spaced _).trans writable
    have nothing (none : recvTakes answer (s.peers index).readBuf = []) : Drew answer (s.peers index).readBuf b :=
      ⟨kept,by rw [none,List.append_nil,same]⟩
    split at last
    · cases last
      exact ⟨b,nothing rfl,rfl⟩
    · cases last
      refine ⟨b,nothing ?_,rfl⟩
      unfold recvTakes
      rw [found]
      exact List.take_nil
    · rename_i bytes _
      obtain ⟨_,w,filled,rest⟩ := bind_returned last
      obtain ⟨d,fills,rfl⟩ := onReadBuf_moved filled
      obtain ⟨_,x,moved,ended⟩ := bind_returned rest
      obtain ⟨e,moves,rfl⟩ := onReadBuf_moved moved
      cases ended
      rw [setPeer_setPeer,setPeer_setPeer,setPeer_at,setPeer_at]
      rw [setPeer_at] at fills moves
      have length : (bytes.take (b.size-b.writeIndex).toNat).length ≤ b.size.toNat-b.writeIndex.toNat := by
        rw [← free]
        exact List.length_take_le _ _
      have bound := kept.small
      have count : (UInt32.ofNat (bytes.take (b.size-b.writeIndex).toNat).length).toNat =
          (bytes.take (b.size-b.writeIndex).toNat).length := by
        rw [UInt32.toNat_ofNat']
        exact Nat.mod_eq_of_lt (by omega)
      obtain ⟨g,filled,fine,grown⟩ := SockBuf.writeMove_ok kept count length
      have taken : recvTakes (some bytes) (s.peers index).readBuf = bytes.take (b.size-b.writeIndex).toNat := by
        unfold recvTakes
        rw [found]
      rw [bind_ok fills,moves] at filled
      cases filled
      exact ⟨e,⟨fine,by rw [taken,grown,same]⟩,rfl⟩
  · rw [threw] at made
    cases made

-- A peer is served: what there is to read goes into its buffer first.
inductive Serving (m : Machine) (o : Outside) (index : Nat) (n : Machine) : Prop where
  | unready (none : (m.service.peers index).socket ∉ m.service.readUse) (writing : Writing m o index n)
  | failed (ready : (m.service.peers index).socket ∈ m.service.readUse) {b : SockBuf}
      (drew : Drew (o.recvs (m.service.peers index).socket) (m.service.peers index).readBuf b)
      (closing : Closing (m.on (m.service.setPeer index {m.service.peers index with readBuf := b})) index
        (m.service.peers index).serial n)
  | read (ready : (m.service.peers index).socket ∈ m.service.readUse) {b : SockBuf}
      (drew : Drew (o.recvs (m.service.peers index).socket) (m.service.peers index).readBuf b)
      (calls : n = (m.on (m.service.setPeer index {m.service.peers index with readBuf := b})).called
        (.onRead index (m.service.peers index).serial) (.onRead index o))

theorem serveRead_serving (ran : serveRead o index m = .ok () n) (ok : (m.service.peers index).readBuf.Ok) : Serving m o index n := by
  unfold serveRead at ran
  obtain ⟨p,u,got,rest⟩ := bind_returned ran
  clear ran
  obtain ⟨_,rfl,rfl⟩ := getPeer_returned got
  obtain ⟨_,_,looked,rest⟩ := bind_returned rest
  cases looked
  split at rest
  · rename_i ready
    obtain ⟨ret,v,reads,rest⟩ := bind_returned rest
    obtain ⟨s,read,rfl⟩ := call_returned reads
    obtain ⟨b,drew,rfl⟩ := sockRead_drew read ok
    split at rest
    · exact .failed ready drew (closePeer_closing rest)
    · cases rest
      exact .read ready drew rfl
  · rename_i none
    exact .unready none (serveWrite_writing rest)

-- A round serves a peer, or there is none to serve.
theorem round_serving (ran : round m = .ok () n) (ok : ∀ i, (m.service.peers i).readBuf.Ok) :
    (n.service = m.service ∧ n.passed = m.passed ∧ n.accepted = m.accepted ∧ ∀ i, stores i m .round = []) ∨
    ∃ o k rest index, m.stack = .loop o k :: rest ∧ m.service.onlinePeerSet[k]? = some index ∧
      Serving {m with stack := .loop o (k+1) :: rest} o index n := by
  unfold round at ran
  obtain ⟨_,_,looked,next⟩ := bind_returned ran
  cases looked
  unfold stores
  cases stack : m.stack with
  | nil =>
    rw [stack] at next
    cases next
    exact .inl ⟨rfl,rfl,rfl,fun _ => rfl⟩
  | cons frame rest =>
    rw [stack] at next
    cases frame with
    | onCon | onDisCon | onRead =>
      cases next
      exact .inl ⟨rfl,rfl,rfl,fun _ => rfl⟩
    | loop o k =>
      dsimp only at next ⊢
      cases found : m.service.onlinePeerSet[k]? with
      | none =>
        rw [found] at next
        cases next
        exact .inl ⟨rfl,rfl,rfl,fun _ => if_neg nofun⟩
      | some index =>
        rw [found] at next
        obtain ⟨_,u,moved,last⟩ := bind_returned next
        cases moved
        exact .inr ⟨o,k,rest,index,rfl,found,serveRead_serving last (ok index)⟩

end PcNetwork.NetSelect.Machine
