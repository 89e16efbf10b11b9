import PcNetwork.Netlib.Arrivals
import PcNetwork.Netlib.SessionFrames

namespace PcNetwork.Netlib
namespace TcpSession
open NetPacket

-- The places of a session's packets are the send list, the image map and the hands of
-- the call that runs. An image has its index, so that send does not delete it.
structure Owning (hand : List Nat) (s : PacketStore) : Prop where
  owns : s.ledger.Owns (s.lstSendPacket ++ s.mapPacketImage.map Prod.snd ++ hand)
  images : ∀ image ∈ s.mapPacketImage, (s.packets image.2).getIC ≠ icNull ∧ Placed (s.packets image.2)
  numbered : ∃ n, s.indexSendCheck.toNat = NetSession.indexOf n

variable {s : TcpSession} {hand : List Nat}

-- An address of an image or of a packet in hand.
theorem Owning.there (owning : Owning hand s.toPacketStore) (member : a ∈ s.held ∨ a ∈ hand) :
    a < s.ledger.count ∧ a ∉ s.ledger.deleted :=
  owning.owns.live a (List.mem_append.mpr member)

theorem Owning.touch (owning : Owning hand s.toPacketStore) (member : a ∈ s.held ∨ a ∈ hand) : s.touch a = s := by
  unfold TcpSession.touch
  rw [Ledger.touch_same owning.owns (List.mem_append.mpr member)]

-- A packet in hand is none of the images.
theorem Owning.apart (owning : Owning (a :: hand) s.toPacketStore) : a ∉ s.held := by
  intro member
  have split := List.nodup_append.mp owning.owns.apart
  exact split.2.2 a member a List.mem_cons_self rfl

theorem Owning.drop (owning : Owning (a :: hand) s.toPacketStore) : Owning hand s.toPacketStore := by
  refine ⟨owning.owns.moved ?_,owning.images,owning.numbered⟩
  exact (List.Sublist.append_left (List.sublist_cons_self a hand) _).subperm

theorem alloc_owning (owning : Owning hand s.toPacketStore) (p : NetPacket) :
    Owning ((s.alloc p).1 :: hand) (s.alloc p).2.toPacketStore := by
  refine ⟨(Ledger.alloc_owns owning.owns).moved List.perm_middle.subperm,?_,owning.numbered⟩
  intro image member
  have low := (owning.there (.inl (List.mem_append_right _ (List.mem_map_of_mem member)))).1
  have same : (s.alloc p).2.packets image.2 = s.packets image.2 := Function.update_of_ne (Nat.ne_of_lt low) _ _
  rw [same]
  exact owning.images image member

theorem delete_owning (owning : Owning (a :: hand) s.toPacketStore) : Owning hand (s.delete a).toPacketStore := by
  refine ⟨?_,owning.images,owning.numbered⟩
  apply Ledger.delete_owns
  · exact owning.owns.moved List.perm_middle.symm.subperm
  · exact List.subset_append_left _ _

theorem push_owning (owning : Owning (a :: hand) s.toPacketStore) : Owning hand (s.pushSendPacket a).toPacketStore := by
  refine ⟨owning.owns.moved ?_,owning.images,owning.numbered⟩
  have back : (s.lstSendPacket ++ [a] ++ s.mapPacketImage.map Prod.snd ++ hand).Perm
      (a :: (s.lstSendPacket ++ s.mapPacketImage.map Prod.snd ++ hand)) := by
    simp
  exact (back.trans List.perm_middle.symm).subperm

-- Writing to a packet, in hand or an image, of which its index stays.
theorem put_owning (owning : Owning hand s.toPacketStore) (member : a ∈ s.held ∨ a ∈ hand) {p : NetPacket}
    (kept : a ∈ s.mapPacketImage.map Prod.snd → p.getIC ≠ icNull ∧ Placed p) : Owning hand (s.put a p).toPacketStore := by
  unfold put
  rw [owning.touch member]
  refine ⟨owning.owns,fun image inside => ?_,owning.numbered⟩
  show (Function.update s.packets a p image.2).getIC ≠ icNull ∧ Placed (Function.update s.packets a p image.2)
  by_cases same : image.2 = a
  · have stays := kept (same ▸ List.mem_map_of_mem inside)
    rw [same,Function.update_self]
    exact stays
  · rw [Function.update_of_ne same]
    exact owning.images image inside

theorem put_hand (owning : Owning (a :: hand) s.toPacketStore) (p : NetPacket) : Owning (a :: hand) (s.put a p).toPacketStore :=
  put_owning owning (.inr List.mem_cons_self) fun image => absurd (List.mem_append_right _ image) owning.apart

theorem sendTo_hand (owning : Owning (a :: hand) s.toPacketStore) : Owning (a :: hand) (s.sendTo a).toPacketStore :=
  put_hand owning _

-- send, of a packet in hand.
theorem send_owning (owning : Owning (a :: hand) s.toPacketStore) : Owning hand (s.send a false).toPacketStore := by
  have sent := sendTo_hand owning
  unfold send
  rw [if_neg Bool.false_ne_true]
  dsimp only
  rw [sent.touch (.inr List.mem_cons_self)]
  split
  · exact delete_owning sent
  · exact sent.drop

theorem sendNew_owning (owning : Owning hand s.toPacketStore) (p : NetPacket) : Owning hand (s.sendNew p).toPacketStore :=
  send_owning (alloc_owning owning p)

theorem pushNew_owning (owning : Owning hand s.toPacketStore) (p : NetPacket) : Owning hand (s.pushNew p).toPacketStore :=
  push_owning (alloc_owning owning p)

theorem ping_owning (owning : Owning hand s.toPacketStore) : Owning hand s.ping.toPacketStore := pushNew_owning (s := s.getTime.2) owning _

theorem checkConnect_owning (owning : Owning hand s.toPacketStore) (tm : UInt32) : Owning hand (s.checkConnect tm).toPacketStore := by
  unfold checkConnect
  split
  · exact owning
  · split
    · exact pushNew_owning owning _
    · exact owning

theorem queryIC_owning (owning : Owning hand s.toPacketStore) : Owning hand s.queryIC.toPacketStore := by
  have timed : Owning hand s.getTime.2.toPacketStore := owning
  unfold queryIC
  dsimp only
  split
  · exact sendNew_owning (s := {s.getTime.2 with ricSeq := s.getTime.1}) timed _
  · exact timed

theorem checkIndex_owning (owning : Owning hand s.toPacketStore) (member : a ∈ hand) :
    Owning hand (s.checkIndex a).2.toPacketStore := by
  have touched : Owning hand (s.touch a).toPacketStore := by
    rw [owning.touch (.inr member)]
    exact owning
  obtain ⟨t,index,state,rfl | rfl⟩ := checkIndex_state s a
  · rw [state]
    exact touched
  · rw [state]
    exact sendNew_owning (s := {s.touch a with indexRecvCheck := s.indexRecvCheck+1}) touched (indexed nlibpIcOk (s.indexRecvCheck+1))

theorem end_image {p : NetPacket} (image : p.getIC ≠ icNull ∧ Placed p) : p.end_.getIC ≠ icNull ∧ Placed p.end_ := by
  rw [(end_header image.2).1]
  exact ⟨image.1,(end_parts image.2).1⟩

theorem sendTo_image (owning : Owning hand s.toPacketStore) {image : UInt16 × Nat} (member : image ∈ s.mapPacketImage) :
    Owning hand (s.sendTo image.2).toPacketStore :=
  put_owning owning (.inl (List.mem_append_right _ (List.mem_map_of_mem member))) fun _ => end_image (owning.images image member)

-- resend sends an image, which is not deleted, or a new packet.
theorem resend_owning (owning : Owning hand s.toPacketStore) (ic : UInt16) : Owning hand (s.resend ic).toPacketStore := by
  unfold resend
  dsimp only
  split
  · rename_i a found
    obtain ⟨before,after,parts,_⟩ := List.lookup_eq_some_iff.mp found
    have member : (ic,a) ∈ s.mapPacketImage := by
      rw [parts]
      simp
    have sent := sendTo_image (s := {s with calls := s.calls ++ [IcCall.resend ic]}) owning member
    have index : (({s with calls := s.calls ++ [IcCall.resend ic]} : TcpSession).sendTo a).packets a = (s.packets a).end_ :=
      Function.update_self _ _ _
    unfold send
    rw [if_neg Bool.false_ne_true]
    dsimp only
    rw [sent.touch (.inl (List.mem_append_right _ (List.mem_map_of_mem member))),index,
      if_neg (end_image (owning.images _ member)).1]
    exact sent
  · exact sendNew_owning (s := {s with calls := s.calls ++ [IcCall.resend ic]}) owning _

theorem updateLoop_owning {kept rest : List (UInt16 × Nat)} (owning : Owning hand s.toPacketStore)
    (shape : s.mapPacketImage = kept ++ rest) (lastIc : UInt16) : Owning hand (updateLoop lastIc kept rest s).toPacketStore := by
  induction rest generalizing kept s with
  | nil => exact owning
  | cons image rest ih =>
    have member : image ∈ s.mapPacketImage := by
      rw [shape]
      simp
    unfold updateLoop
    rw [owning.touch (.inl (List.mem_append_right _ (List.mem_map_of_mem member)))]
    dsimp only
    split
    · -- the image leaves the map and is then deleted from the hand
      have taken : Owning (image.2 :: hand) ({s with mapPacketImage := kept ++ rest} : TcpSession).toPacketStore := by
        refine ⟨owning.owns.moved (List.Perm.subperm ?_),?_,owning.numbered⟩
        · rw [shape]
          simp only [List.map_append,List.map_cons,List.append_assoc,List.cons_append]
          refine List.Perm.append_left _ (List.Perm.append_left _ ?_)
          exact List.perm_middle
        · intro other inside
          apply owning.images
          rw [shape]
          rcases List.mem_append.mp inside with left | right
          · exact List.mem_append_left _ left
          · exact List.mem_append_right _ (List.mem_cons_of_mem _ right)
      exact ih (delete_owning taken) rfl
    · exact ih owning (by rw [shape,List.append_assoc]; rfl)

theorem updateIcImage_owning (owning : Owning hand s.toPacketStore) (lastIc : UInt16) :
    Owning hand (s.updateIcImage lastIc).toPacketStore :=
  updateLoop_owning (s := {s with calls := s.calls ++ [IcCall.updateIcImage lastIc]}) owning rfl lastIc

-- A packet in hand that is marked becomes an image.
theorem insertImage_subperm (ic : UInt16) (a : Nat) (images : List (UInt16 × Nat)) :
    ((insertImage ic a images).map Prod.snd).Subperm (a :: images.map Prod.snd) := by
  induction images with
  | nil => exact .refl _
  | cons image rest ih =>
    unfold insertImage
    split
    · exact .refl _
    · split
      · exact (List.Sublist.cons_cons _ (List.sublist_cons_self _ _)).subperm
      · exact ((List.subperm_cons _).mpr ih).trans (List.Perm.swap _ _ _).subperm

theorem insertImage_mem {images : List (UInt16 × Nat)} (member : image ∈ insertImage ic a images) :
    image = (ic,a) ∨ image ∈ images := by
  induction images with
  | nil => exact .inl (List.mem_singleton.mp member)
  | cons first rest ih =>
    unfold insertImage at member
    split at member
    · exact List.mem_cons.mp member
    · split at member
      · exact (List.mem_cons.mp member).imp_right (List.mem_cons_of_mem _)
      · rcases List.mem_cons.mp member with rfl | later
        · exact .inr List.mem_cons_self
        · exact (ih later).imp_right (List.mem_cons_of_mem _)

theorem setIC_image {p : NetPacket} (placed : Placed p) (numbered : ic.toNat = NetSession.indexOf n) :
    (p.setIC ic).getIC ≠ icNull ∧ Placed (p.setIC ic) := by
  obtain ⟨max,block,datalen,low,high⟩ := placed
  have longer := Block.le_length_patch p.data 0 (htons ic)
  refine ⟨?_,⟨max,by dsimp only [setIC]; omega,datalen,low,high⟩⟩
  rw [getIC_setIC]
  rintro rfl
  unfold NetSession.indexOf at numbered
  cases numbered

theorem insertImage_there (ic : UInt16) (a : Nat) (images : List (UInt16 × Nat)) : (ic,a) ∈ insertImage ic a images := by
  induction images with
  | nil => exact List.mem_singleton.mpr rfl
  | cons image rest ih =>
    unfold insertImage
    split
    · exact List.mem_cons_self
    · split
      · exact List.mem_cons_self
      · exact List.mem_cons_of_mem _ ih

theorem markIndex_owning (owning : Owning (a :: hand) s.toPacketStore) (placed : Placed (s.packets a)) :
    Owning hand (s.markIndex a).toPacketStore := by
  obtain ⟨n,numbered⟩ := owning.numbered
  have image := setIC_image placed numbered
  have written := put_hand owning ((s.packets a).setIC s.indexSendCheck)
  have there : (s.put a ((s.packets a).setIC s.indexSendCheck)).packets a = (s.packets a).setIC s.indexSendCheck :=
    Function.update_self _ _ _
  refine ⟨written.owns.moved ?_,?_,n+1,NetSession.next_index numbered⟩
  · have inserted := insertImage_subperm s.indexSendCheck a s.mapPacketImage
    have appended := ((List.subperm_append_left s.lstSendPacket).mpr inserted).append (.refl hand)
    refine appended.trans (List.Perm.subperm ?_)
    simp only [List.append_assoc,List.cons_append]
    refine List.Perm.append_left _ ?_
    exact List.perm_middle.symm
  · intro other member
    rcases insertImage_mem member with rfl | old
    · show ((s.put a _).packets a).getIC ≠ icNull ∧ Placed ((s.put a _).packets a)
      rw [there]
      exact image
    · exact written.images other old

theorem send_marked (owning : Owning (a :: hand) s.toPacketStore) (placed : Placed (s.packets a)) :
    Owning hand (s.send a true).toPacketStore :=
  sendTo_image (markIndex_owning owning placed) (insertImage_there s.indexSendCheck a s.mapPacketImage)

-- A received packet that is answered in place.
def Replies (given : UInt16 × NetPacket) : Prop :=
  given.2.getCmd = nlibpPing.toNat ∧ (given.2.getIC = icNull ∨ given.1 = given.2.getIC)

-- A received packet on which CloseSession deletes the session.
def Closes (given : UInt16 × NetPacket) : Prop :=
  (given.2.getIC = icNull ∨ given.1 = given.2.getIC) ∧
  (given.2.getCmd = nlibpDisconnect.toNat ∨ (given.2.getCmd = nlibpCheckConnect.toNat ∧ given.2.read32.1.toNat > 20000))

theorem command_owning (owning : Owning [a] s.toPacketStore) (other : (s.packets a).getCmd ≠ nlibpPing.toNat) (time : UInt32) :
    Owning [a] (s.command a time).2.2.toPacketStore := by
  unfold command
  rw [owning.touch (.inr (List.mem_singleton_self a))]
  dsimp only
  rw [if_neg other]
  split
  · exact put_hand owning _
  · split
    · split
      · exact put_hand owning _
      · exact ping_owning (put_hand owning _)
    · split
      · exact owning
      · split
        · exact resend_owning owning _
        · split
          · exact updateIcImage_owning owning _
          · exact owning

theorem receive_owning (owning : Owning [a] s.toPacketStore) (quiet : ¬ Replies (s.indexRecvCheck,s.packets a)) (time : UInt32) :
    Owning [a] (s.receive a time).2.2.toPacketStore := by
  have there := List.mem_singleton_self a
  have low := (owning.there (.inr there)).1
  have timed : Owning [a] (s.timeSet time).toPacketStore := owning
  have checked := checkIndex_owning timed there
  have answer := checkIndex_answer (s.timeSet time) a
  have same : ((s.timeSet time).checkIndex a).2.packets a = s.packets a := checkIndex_packets low
  unfold receive
  dsimp only
  generalize (s.timeSet time).checkIndex a = r at checked answer same
  obtain ⟨ok,t⟩ := r
  cases ok with
  | false => exact queryIC_owning checked
  | true =>
    apply command_owning checked
    intro ping
    exact quiet ⟨same ▸ ping,answer.mp rfl⟩

-- A misuse that has happened stays.
open Ledger (Later alloc_later delete_later touch_later)

theorem send_later (s : TcpSession) (a : Nat) (bIC : Bool) : Later s.ledger (s.send a bIC).ledger := by
  unfold send
  cases bIC with
  | true =>
    have marked : Later s.ledger (s.markIndex a).ledger := touch_later _ _
    exact marked.trans (touch_later _ _)
  | false =>
    have sent : Later s.ledger ((s.sendTo a).touch a).ledger := (touch_later _ _).trans (touch_later _ _)
    rw [if_neg Bool.false_ne_true]
    dsimp only
    split
    · exact sent.trans (delete_later _ _ _)
    · exact sent

theorem sendNew_later (s : TcpSession) (p : NetPacket) : Later s.ledger (s.sendNew p).ledger :=
  (alloc_later _).trans (send_later (s.alloc p).2 _ _)

theorem checkConnect_later (s : TcpSession) (tm : UInt32) : Later s.ledger (s.checkConnect tm).ledger := by
  unfold checkConnect
  split
  · exact .refl _
  · split
    · exact alloc_later _
    · exact .refl _

theorem queryIC_later (s : TcpSession) : Later s.ledger s.queryIC.ledger := by
  unfold queryIC
  dsimp only
  split
  · exact sendNew_later {s.getTime.2 with ricSeq := s.getTime.1} _
  · exact .refl _

theorem checkIndex_later (s : TcpSession) (a : Nat) : Later s.ledger (s.checkIndex a).2.ledger := by
  have touched : Later s.ledger (s.touch a).ledger := touch_later _ _
  obtain ⟨t,index,state,rfl | rfl⟩ := checkIndex_state s a
  · rw [state]
    exact touched
  · rw [state]
    exact touched.trans (sendNew_later {s.touch a with indexRecvCheck := s.indexRecvCheck+1} (indexed nlibpIcOk (s.indexRecvCheck+1)))

theorem resend_later (s : TcpSession) (ic : UInt16) : Later s.ledger (s.resend ic).ledger := by
  unfold resend
  dsimp only
  split
  · exact send_later {s with calls := s.calls ++ [IcCall.resend ic]} _ _
  · exact sendNew_later {s with calls := s.calls ++ [IcCall.resend ic]} _

theorem updateLoop_later (lastIc : UInt16) (kept rest : List (UInt16 × Nat)) (s : TcpSession) :
    Later s.ledger (updateLoop lastIc kept rest s).ledger := by
  induction rest generalizing kept s with
  | nil => exact .refl _
  | cons image rest ih =>
    have touched : Later s.ledger (s.touch image.2).ledger := touch_later _ _
    unfold updateLoop
    dsimp only
    split
    · exact (touched.trans (delete_later _ _ _)).trans
        (ih kept (({s.touch image.2 with mapPacketImage := kept ++ rest} : TcpSession).delete image.2))
    · exact touched.trans (ih (kept ++ [image]) (s.touch image.2))

theorem updateIcImage_later (s : TcpSession) (lastIc : UInt16) : Later s.ledger (s.updateIcImage lastIc).ledger :=
  updateLoop_later lastIc [] s.mapPacketImage {s with calls := s.calls ++ [IcCall.updateIcImage lastIc]}

theorem command_later (s : TcpSession) (a : Nat) (time : UInt32) : Later s.ledger (s.command a time).2.2.ledger := by
  have read : Later s.ledger (s.touch a).ledger := touch_later _ _
  have written : Later s.ledger ((s.touch a).ledger.touch a) := read.trans (touch_later _ _)
  unfold command
  dsimp only
  split
  · exact written
  · split
    · exact written
    · split
      · split
        · exact written
        · exact written.trans (alloc_later _)
      · split
        · exact read
        · split
          · exact read.trans (resend_later _ _)
          · split
            · exact read.trans (updateIcImage_later _ _)
            · exact read

theorem receive_later (s : TcpSession) (a : Nat) (time : UInt32) : Later s.ledger (s.receive a time).2.2.ledger := by
  have checked : Later s.ledger ((s.timeSet time).checkIndex a).2.ledger := checkIndex_later (s.timeSet time) a
  unfold receive
  dsimp only
  generalize (s.timeSet time).checkIndex a = r at checked
  obtain ⟨ok,t⟩ := r
  cases ok with
  | false => exact checked.trans (queryIC_later t)
  | true => exact checked.trans (command_later t a time)

theorem pushRecvPacket_later (s : TcpSession) (p : NetPacket) (time : UInt32) : Later s.ledger (s.pushRecvPacket p time).2.ledger := by
  have received : Later s.ledger ((s.handed p).receive s.ledger.count time).2.2.ledger :=
    (alloc_later _).trans (receive_later (s.handed p) _ _)
  rw [pushRecvPacket_eq]
  split
  · exact received
  · exact received.trans (delete_later _ _ _)

-- A reply is in the send list when the loop deletes it.
theorem command_replies (ping : (s.packets a).getCmd = nlibpPing.toNat) (time : UInt32) :
    (s.command a time).1 = false ∧ a ∈ (s.command a time).2.2.held := by
  unfold command
  dsimp only
  rw [if_pos ping]
  refine ⟨rfl,?_⟩
  simp [held,pushSendPacket]

theorem receive_replies (low : a < s.ledger.count) (replies : Replies (s.indexRecvCheck,s.packets a)) (time : UInt32) :
    (s.receive a time).1 = false ∧ a ∈ (s.receive a time).2.2.held := by
  obtain ⟨ping,passes⟩ := replies
  have answer := (checkIndex_answer (s.timeSet time) a).mpr passes
  have same : ((s.timeSet time).checkIndex a).2.packets a = s.packets a := checkIndex_packets low
  unfold receive
  dsimp only
  generalize (s.timeSet time).checkIndex a = r at answer same
  obtain ⟨ok,t⟩ := r
  cases answer
  exact command_replies (same ▸ ping) time

theorem pushRecvPacket_replies (replies : Replies (s.indexRecvCheck,p)) (time : UInt32) :
    s.ledger.count ∈ (s.pushRecvPacket p time).2.ledger.early := by
  have there : (s.handed p).packets s.ledger.count = p := Function.update_self _ _ _
  obtain ⟨refused,member⟩ := receive_replies (s := s.handed p) (Nat.lt_succ_self _) (by rw [there]; exact replies) time
  rw [pushRecvPacket_eq,refused,if_neg Bool.false_ne_true]
  simp [delete,Ledger.delete,member]

theorem pushRecvPacket_owning (owning : Owning [] s.toPacketStore) (quiet : ¬ Replies (s.indexRecvCheck,p)) (time : UInt32) :
    Owning [] (s.pushRecvPacket p time).2.toPacketStore := by
  have allocated : Owning [s.ledger.count] (s.handed p).toPacketStore :=
    alloc_owning (s := {s with given := s.given ++ [(s.indexRecvCheck,p)]}) owning p
  have there : (s.handed p).packets s.ledger.count = p := Function.update_self _ _ _
  have received := receive_owning allocated (by rw [there]; exact quiet) time
  rw [pushRecvPacket_eq]
  split
  · exact received.drop
  · exact delete_owning received

-- What PushRecvPacket answers.
theorem command_closes (s : TcpSession) (a : Nat) (time : UInt32) : (s.command a time).2.1 = true ↔
    (s.packets a).getCmd = nlibpDisconnect.toNat ∨ ((s.packets a).getCmd = nlibpCheckConnect.toNat ∧ (s.packets a).read32.1.toNat > 20000) := by
  have ping : nlibpPing.toNat = 256 := rfl
  have ret : nlibpPingRet.toNat = 257 := rfl
  have check : nlibpCheckConnect.toNat = 2 := rfl
  have disconnect : nlibpDisconnect.toNat = 3 := rfl
  have query : nlibpIcQuery.toNat = 513 := rfl
  have ok : nlibpIcOk.toNat = 515 := rfl
  unfold command
  dsimp only
  split
  · simp only [Bool.false_eq_true,false_iff]
    omega
  · split
    · simp only [Bool.false_eq_true,false_iff]
      omega
    · split
      · rename_i checks
        split
        · simp [*]
        · simp only [Bool.false_eq_true,false_iff]
          omega
      · split
        · simp [*]
        · split
          · simp only [Bool.false_eq_true,false_iff]
            omega
          · split
            · simp only [Bool.false_eq_true,false_iff]
              omega
            · simp only [Bool.false_eq_true,false_iff]
              omega

theorem receive_closes (low : a < s.ledger.count) (time : UInt32) :
    (s.receive a time).2.1 = true ↔ Closes (s.indexRecvCheck,s.packets a) := by
  have answer := checkIndex_answer (s.timeSet time) a
  have same : ((s.timeSet time).checkIndex a).2.packets a = s.packets a := checkIndex_packets low
  unfold receive Closes
  dsimp only
  generalize (s.timeSet time).checkIndex a = r at answer same
  obtain ⟨ok,t⟩ := r
  dsimp only at answer same
  cases ok with
  | false => exact iff_of_false nofun fun closes => nomatch answer.mpr closes.1
  | true =>
    rw [command_closes,same]
    exact (and_iff_right (answer.mp rfl)).symm

theorem pushRecvPacket_closes (s : TcpSession) (p : NetPacket) (time : UInt32) :
    (s.pushRecvPacket p time).1 = true ↔ Closes (s.indexRecvCheck,p) := by
  have there : (s.handed p).packets s.ledger.count = p := Function.update_self _ _ _
  have closes := receive_closes (s := s.handed p) (Nat.lt_succ_self _) time
  rw [there] at closes
  exact closes

-- A session goes on behind the packet that has closed it exactly if another one comes.
structure Tracked (closes : Bool) (e : Entry TcpSession) : Prop where
  closed : closes = true ↔ ∃ g ∈ e.session.given, Closes g
  dangling : e.dangling = true ↔ ∃ g ∈ e.session.given.dropLast, Closes g

theorem Tracked.same {e t : Entry TcpSession} (tracked : Tracked closes e) (given : t.session.given = e.session.given)
    (dangling : t.dangling = e.dangling) : Tracked closes t :=
  ⟨by rw [given]; exact tracked.closed,by rw [given,dangling]; exact tracked.dangling⟩

theorem carried_tracked : Carried Tracked where
  new socket time := by
    have none : (Session.timeSet Session.new time : TcpSession).given = [] := rfl
    exact ⟨by simp [none],by simp [none]⟩
  sendNext e tracked := tracked.same (sendNext_kept e).given (TcpSocket.sendNext_entry e).2
  recv _ _ tracked := tracked.same rfl rfl
  timeSet _ _ _ tracked := tracked.same rfl rfl
  pushRecvPacket closes e p time tracked := by
    have given : (Session.pushRecvPacket e.session p time).2.given = e.session.given ++ [(e.session.indexRecvCheck,p)] :=
      pushRecvPacket_given e.session p time
    have answer : (Session.pushRecvPacket e.session p time).1 = true ↔ Closes (e.session.indexRecvCheck,p) :=
      pushRecvPacket_closes e.session p time
    refine ⟨?_,?_⟩
    · simp only [Bool.or_eq_true,given,answer,tracked.closed,List.mem_append,List.mem_singleton,or_and_right,exists_or,exists_eq_left]
    · -- all the packets before the last one have been given while it was there
      rw [given,List.dropLast_concat]
      simp only [Bool.or_eq_true,tracked.closed,tracked.dangling]
      constructor
      · rintro (⟨g,member,closes⟩ | closes)
        · exact ⟨g,List.mem_of_mem_dropLast member,closes⟩
        · exact closes
      · exact .inr
  checkConnect e time tracked := tracked.same (checkConnect_kept e.session time).given rfl

-- Either nothing is misused, or a reply was received and has been deleted too early.
def Owned (s : TcpSession) : Prop :=
  (Owning [] s.toPacketStore ∧ ∀ g ∈ s.given, ¬ Replies g) ∨ (s.ledger.early ≠ [] ∧ ∃ g ∈ s.given, Replies g)

theorem Owned.sound (owned : Owned s) : s.ledger.Sound ↔ ∀ g ∈ s.given, ¬ Replies g := by
  rcases owned with ⟨owning,quiet⟩ | ⟨misused,g,member,replies⟩
  · exact iff_of_true owning.owns.toSound quiet
  · apply iff_of_false
    · intro sound
      exact misused sound.early
    · intro quiet
      exact quiet g member replies

-- What keeps the places in order while nothing is misused.
theorem Owned.step {t : TcpSession} (owned : Owned s) (given : t.given = s.given) (later : Ledger.Later s.ledger t.ledger)
    (owning : Owning [] s.toPacketStore → Owning [] t.toPacketStore) : Owned t := by
  unfold Owned
  rw [given]
  rcases owned with ⟨mine,quiet⟩ | ⟨misused,replied⟩
  · exact .inl ⟨owning mine,quiet⟩
  · exact .inr ⟨later.misused misused,replied⟩

theorem new_owned : Owned new := by
  refine .inl ⟨⟨Ledger.new_owns,nofun,0,?_⟩,nofun⟩
  rfl

theorem pop_owning {rest : List Nat} (owning : Owning [] s.toPacketStore) (list : s.lstSendPacket = a :: rest) :
    Owning [a] ({s with lstSendPacket := rest,popped := none} : TcpSession).toPacketStore := by
  refine ⟨owning.owns.moved (List.Perm.subperm ?_),owning.images,owning.numbered⟩
  rw [list,List.append_nil]
  exact List.perm_append_comm

theorem sendNext_owned {e : Entry TcpSession} (owned : Owned e.session) : Owned (TcpSocket.sendNext e).session := by
  have given := (sendNext_kept e).given
  rw [sendNext_session] at given ⊢
  split
  · exact owned
  · rename_i a rest list
    rw [list] at given
    refine owned.step given ?_ ?_
    · exact send_later {e.session with lstSendPacket := rest,popped := none} _ _
    · exact fun owning => send_owning (pop_owning owning list)

theorem pushRecvPacket_owned (owned : Owned s) (p : NetPacket) (time : UInt32) : Owned (s.pushRecvPacket p time).2 := by
  have later := pushRecvPacket_later s p time
  unfold Owned
  rw [pushRecvPacket_given]
  simp only [List.forall_mem_append,List.forall_mem_singleton]
  rcases owned with ⟨owning,quiet⟩ | ⟨misused,g,member,replies⟩
  · by_cases replies : Replies (s.indexRecvCheck,p)
    · have early := pushRecvPacket_replies replies time
      exact .inr ⟨List.ne_nil_of_mem early,_,List.mem_append_right _ (List.mem_singleton_self _),replies⟩
    · exact .inl ⟨pushRecvPacket_owning owning replies time,quiet,replies⟩
  · exact .inr ⟨later.misused misused,g,List.mem_append_left _ member,replies⟩

theorem act_owned (owned : Owned s) (call : AppCall) : Owned (s.act call) := by
  cases call with
  | pushSendPacket ops => exact owned.step rfl (Ledger.alloc_later _) fun owning => pushNew_owning owning _
  | send ops bIC =>
    have placed := (foldl_parts new_placed ops).1
    refine owned.step (act_kept s (.send ops bIC)).given ((Ledger.alloc_later _).trans (send_later (s.alloc _).2 _ _)) fun owning => ?_
    have allocated := alloc_owning owning (ops.foldl NetPacket.apply NetPacket.new)
    cases bIC with
    | true =>
      have there : (s.alloc (ops.foldl NetPacket.apply NetPacket.new)).2.packets s.ledger.count = ops.foldl NetPacket.apply NetPacket.new :=
        Function.update_self _ _ _
      exact send_marked allocated (there.symm ▸ placed)
    | false => exact send_owning allocated
  | ping => exact owned.step rfl (Ledger.alloc_later _) fun owning => ping_owning owning
  | setConnectCheckTime time => exact owned
  | clock times => exact owned

theorem preserved_owned : Preserved Owned where
  new := new_owned
  timeSet _ _ owned := owned
  sendNext _ owned := sendNext_owned owned
  pushRecvPacket _ p time owned := pushRecvPacket_owned owned p time
  checkConnect s time owned := owned.step (checkConnect_kept s time).given (checkConnect_later s time) fun owning =>
    checkConnect_owning owning time
  act _ call owned := act_owned owned call

-- In every run no session is used after it has closed itself and every packet is deleted once,
-- by its last holder and after its last use, exactly if no ping that its index lets pass has
-- been received (it is put into the send list and then deleted by the loop) and no packet
-- behind one that closes the session.
theorem packets_owned (path : Path NetStep TcpSocket.created taken last) :
    (∀ e ∈ last.sessions ++ last.gone, e.dangling = false ∧ e.session.ledger.Sound) ↔
    ∀ e ∈ last.sessions ++ last.gone, (∀ g ∈ e.session.given.dropLast, ¬ Closes g) ∧ ∀ g ∈ e.session.given, ¬ Replies g := by
  have owned := net_keeps preserved_owned path
  obtain ⟨stay,gone⟩ := net_carries carried_tracked (fun e call tracked => tracked.same (act_kept e.session call).given rfl) path
  have dangling (e : Entry TcpSession) (member : e ∈ last.sessions ++ last.gone) :
      e.dangling = false ↔ ∀ g ∈ e.session.given.dropLast, ¬ Closes g := by
    have tracked := (List.mem_append.mp member).elim (fun here => (stay e here).dangling) fun left => (gone e left).dangling
    rw [Bool.eq_false_iff,ne_eq,tracked]
    push Not
    rfl
  exact forall₂_congr fun e member => and_congr (dangling e member) (owned e member).sound

open TcpSocket (reading)

def writing (socket : Nat) : Outside := {(default : Outside) with selects := true,writable := fun other => decide (other = socket)}

-- The check of a connection is answered by a ping, which is deleted when it is sent.
theorem packets_owned_checked : ∃ taken last, Path NetStep TcpSocket.created taken last ∧ ∃ e ∈ last.sessions,
    (e.dangling = false ∧ e.session.ledger.Sound) ∧ e.session.ledger.deleted = [1] := by
  have first := Path.step accepted_path (.processServer (o := reading [(5,[0,0,0,0,0,12,0,2,0,0,0,1])]) rfl)
  have second := first.step (.processServer (o := writing 5) rfl)
  have owned := (packets_owned second).mpr
  refine ⟨_,_,second,_,List.mem_singleton_self _,owned ?_ _ (List.mem_singleton_self _),rfl⟩
  intro e here
  cases List.mem_singleton.mp here
  refine ⟨fun g member => absurd member List.not_mem_nil,?_⟩
  intro g member
  cases List.mem_singleton.mp member
  rintro ⟨ping,_⟩
  revert ping
  decide

-- The reply is sent by the next call, which reads the packet and deletes it again.
theorem ping_deleted : ∃ taken last, Path NetStep TcpSocket.created taken last ∧ ∃ e ∈ last.sessions,
    ¬ e.session.ledger.Sound ∧ e.session.ledger = ⟨1,[0,0],[0],[0,0]⟩ := by
  have first := Path.step accepted_path (.processServer (o := reading [(5,[0,0,0,0,0,16,1,0,0,0,0,9,0,0,0,0])]) rfl)
  have second := first.step (.processServer (o := writing 5) rfl)
  refine ⟨_,_,second,_,List.mem_singleton_self _,?_,rfl⟩
  intro sound
  cases sound.early

end TcpSession
end PcNetwork.Netlib
