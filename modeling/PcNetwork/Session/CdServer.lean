import Mathlib.Data.List.Nodup
import PcNetwork.Session.Faults
import PcNetwork.Session.Legible

namespace PcNetwork.CdServer
open TcpSession (Outside SeedItem Half Over Fresh Readable UserItem receives recvCmdPkt)

-- BUFFER_MAX: fgets takes a line of fewer characters.
def bufferMax : Nat := 1024

-- What main of the client sends for a line.
def linePacket (line : List UInt8) : CmdPacket := ((CmdPacket.new.beginWrite.writeShort 100).2.writeString line).2

-- CD_ServerSession::OnReceive: the string that it hands to Sys_Log.
def onReceive (payload : List UInt8) : Option (List UInt8) :=
  let packet := recvCmdPkt.beginRead payload payload.length
  let (_cmd,packet) := packet.readShort
  let (str,packet) := packet.readString
  str.map fun str => (packet.readData.drop str.toNat).takeWhile (· ≠ 0)

-- Sys_Log. _vsnprintf keeps 255 characters of the text and puts no zero behind the last of
-- them, so that what lies behind buf[254] is printed too, up to a zero.
def sysLog (behind text : List UInt8) : List UInt8 :=
  (if text.length < 255 then text else text.take 255 ++ behind.takeWhile (· ≠ 0)) ++ [13,10]

-- "server_client recv:%s:%d:%s". `remote` are the address and the port, as GetRemoteAddr left them.
def recvText (remote str : List UInt8) : List UInt8 :=
  [115,101,114,118,101,114,95,99,108,105,101,110,116,32,114,101,99,118,58] ++ remote ++ 58 :: str

-- All that a session prints for the payloads it was given.
def printed (remote behind : Nat → List UInt8) (payloads : List (List UInt8)) : List (List UInt8) :=
  (payloads.filterMap onReceive).mapIdx fun i str => sysLog (behind i) (recvText (remote i) str)

-- The longest line for which a packet of the default size has room.
def maxLine : Nat := 1019

-- A client, with the lines for which SendPacket has returned true.
structure Client where
  session : TcpSession
  typed : List (List UInt8)

-- CD_Server and the clients that connect to it. With each session of m_sessions goes the
-- client at its other end.
structure World where
  clients : Nat → Client
  sessions : List (Nat × TcpSession)

inductive WorldEvent where
  | tick (k : Nat) (o : Outside)
  | line (k : Nat) (line : List UInt8) (o : Outside)
  | server (accepted : Option (Nat × Int32 × Outside)) (o : Nat → Outside)

namespace World

def new : World := ⟨fun _ => ⟨TcpSession.new.afterConnect,[]⟩,[]⟩

def setClient (w : World) (k : Nat) (c : Client) : World := {w with clients := Function.update w.clients k c}

-- AcceptNewSession, with the seed that ComputeSeed has given.
def acceptNewSession (w : World) : Option (Nat × Int32 × Outside) → List (Nat × TcpSession)
  | none => w.sessions
  | some (k,seed,o) => w.sessions ++ [(k,TcpSession.new.acceptNewSession o seed)]

-- CD_Server::Process.
def process (w : World) (accepted : Option (Nat × Int32 × Outside)) (o : Nat → Outside) : World :=
  {w with sessions := (w.acceptNewSession accepted).map fun (k,s) => (k,(s.meet (o k)).process)}

def tick (w : World) (k : Nat) (o : Outside) : World :=
  w.setClient k {w.clients k with session := ((w.clients k).session.meet o).process}

def sendLine (w : World) (k : Nat) (line : List UInt8) (o : Outside) : World :=
  let (ret,session) := ((w.clients k).session.meet o).sendPacket (linePacket line) true false
  w.setClient k ⟨session,if ret then (w.clients k).typed ++ [line] else (w.clients k).typed⟩

-- What TCP may have brought to a client.
def Carries (w : World) (k : Nat) (bytes : List UInt8) : Prop := bytes = [] ∨ ∃ s, (k,s) ∈ w.sessions ∧ bytes <+: s.socket.accepted

end World

-- Any call on a socket may fail, and the peers may close. The callbacks send nothing.
inductive WorldStep : World → WorldEvent → World → Prop where
  | tick (quiet : o.app = []) (carried : w.Carries k ((w.tick k o).clients k).session.socket.received) :
      WorldStep w (.tick k o) (w.tick k o)
  | line (short : line.length < bufferMax) (text : ∀ c ∈ line, c ≠ 0) : WorldStep w (.line k line o) (w.sendLine k line o)
  | server (fresh : ∀ k seed o, accepted = some (k,seed,o) → ∀ s, (k,s) ∉ w.sessions) (quiet : ∀ k, (o k).app = [])
      (carried : ∀ k s, (k,s) ∈ (w.process accepted o).sessions → s.socket.received <+: (w.clients k).session.socket.accepted) :
      WorldStep w (.server accepted o) (w.process accepted o)

section line
open CmdPacket (Writing WriteOp Reads)
variable {line : List UInt8}

theorem begun : Writing CmdPacket.new.beginWrite := CmdPacket.setSize_writing ⟨[],[],0,0,0,0⟩ (by decide) (by decide)

theorem commanded : CmdPacket.Grew CmdPacket.new.beginWrite (WriteOp.short 100).bytes (CmdPacket.new.beginWrite.writeShort 100) :=
  CmdPacket.tryWrite_grew begun (by decide : (0+2 : Int) ≤ 1024)

-- A line that fits is behind the command, and of one that does not there is its length.
theorem linePacket_fits (fits : line.length ≤ maxLine) :
    (linePacket line).content = (WriteOp.short 100).bytes ++ (WriteOp.string line).bytes := by
  obtain ⟨_,writing,content,max,len⟩ := commanded
  have room : (CmdPacket.new.beginWrite.writeShort 100).2.len+(WriteOp.string line).size ≤ (CmdPacket.new.beginWrite.writeShort 100).2.maxSize := by
    rw [max,len]
    unfold maxLine at fits
    show (0+2 : Int)+((2+line.length+1 : Nat) : Int) ≤ 1024
    omega
  obtain ⟨_,_,whole,_,_⟩ := CmdPacket.tryWrite_grew writing room
  exact whole.trans (by rw [content]; simp [CmdPacket.content,CmdPacket.getDataSize,CmdPacket.beginWrite])

theorem linePacket_long (long : maxLine < line.length) (short : line.length < bufferMax) :
    (linePacket line).content = (WriteOp.short 100).bytes ++ (WriteOp.short (Int16.ofInt (line.length+1))).bytes := by
  obtain ⟨_,writing,content,max,len⟩ := commanded
  have first : CmdPacket.new.beginWrite.content = [] := by simp [CmdPacket.content,CmdPacket.getDataSize,CmdPacket.beginWrite]
  rw [first,List.nil_append] at content
  have size : (CmdPacket.new.beginWrite.writeShort 100).2.maxSize = 1024 := max
  have used : (CmdPacket.new.beginWrite.writeShort 100).2.len = 2 := len
  generalize made : (CmdPacket.new.beginWrite.writeShort 100).2 = p at writing content size used
  unfold maxLine at long
  unfold bufferMax at short
  have fits : p.len+shortSize ≤ p.maxSize := by
    rw [size,used]
    decide
  have room : int32 (p.len+shortSize) ≤ p.maxSize := by
    rw [size,used]
    decide
  have grew : CmdPacket.Grew p (WriteOp.short (Int16.ofInt (line.length+1))).bytes (p.writeShort (Int16.ofInt (line.length+1))) :=
    CmdPacket.tryWrite_grew writing fits
  obtain ⟨_,_,grown,_,_⟩ := grew
  obtain ⟨_,len,_,max⟩ := CmdPacket.writeShort_taken (Int16.ofInt (line.length+1)) room
  have count : (Int16.ofInt (line.length+1)).toInt = (line.length+1 : Nat) := CmdPacket.toInt_short (n := line.length+1) (by omega)
  have refused : p.writeString line = (false,(p.writeShort (Int16.ofInt (line.length+1))).2) := by
    rw [CmdPacket.writeString_prefixed,CmdPacket.writePrefixed_taken _ _ _ room]
    refine CmdPacket.writeData_refused _ ?_
    rw [max,size,len,used,count]
    show (1024 : Int) < int32 (int32 (2+2)+((line.length+1 : Nat) : Int))
    rw [int32_small (x := 2+2) (by decide) (by decide),int32_small (by omega) (by omega)]
    omega
  have whole : linePacket line = (p.writeShort (Int16.ofInt (line.length+1))).2 := by
    rw [linePacket,made,refused]
  rw [whole,← content]
  exact grown

-- What the server logs of it.
theorem attached (payload : List UInt8) (small : payload.length < 2^16) :
    Reads (recvCmdPkt.beginRead payload payload.length) [] payload :=
  ⟨⟨[],(List.append_nil _).symm⟩,rfl,by simp [CmdPacket.beginRead],Int.ofNat_lt.mpr small⟩

theorem onReceive_fits (fits : line.length ≤ maxLine) (text : ∀ c ∈ line, c ≠ 0) : onReceive (linePacket line).content = some line := by
  rw [linePacket_fits fits]
  unfold maxLine at fits
  have reads : Reads (recvCmdPkt.beginRead ((WriteOp.short 100).bytes ++ (WriteOp.string line).bytes) _) [] (Endian.ofInt16 100 ++ (WriteOp.string line).bytes) :=
    attached ((WriteOp.short 100).bytes ++ (WriteOp.string line).bytes) (by simp [WriteOp.size]; omega)
  obtain ⟨_,_,after⟩ := reads.short
  unfold onReceive
  dsimp only
  generalize (recvCmdPkt.beginRead ((WriteOp.short 100).bytes ++ (WriteOp.string line).bytes)
    ((WriteOp.short 100).bytes ++ (WriteOp.string line).bytes).length).readShort.2 = p at after
  rw [← List.append_nil (WriteOp.string line).bytes] at after
  have small : (WriteOp.string line).size < 2^15 := by
    simp [WriteOp.size]
    omega
  have proper : (WriteOp.string line).proper := text
  obtain ⟨read,_⟩ := CmdPacket.read_bytes proper small after
  have found : (p.readString.1.map fun str => WriteOp.string ((p.readString.2.readData.drop str.toNat).takeWhile (· ≠ 0))) =
      some (.string line) := read
  cases string : p.readString.1 with
  | none =>
    rw [string] at found
    cases found
  | some str =>
    rw [string] at found
    exact congrArg some (WriteOp.string.inj (Option.some.inj found))

theorem onReceive_long (long : maxLine < line.length) (short : line.length < bufferMax) : onReceive (linePacket line).content = none := by
  rw [linePacket_long long short]
  unfold bufferMax at short
  have reads : Reads (recvCmdPkt.beginRead ((WriteOp.short 100).bytes ++ (WriteOp.short (Int16.ofInt (line.length+1))).bytes) _) []
      (Endian.ofInt16 100 ++ (WriteOp.short (Int16.ofInt (line.length+1))).bytes) :=
    attached ((WriteOp.short 100).bytes ++ (WriteOp.short (Int16.ofInt (line.length+1))).bytes) (by simp [WriteOp.size])
  obtain ⟨_,_,after⟩ := reads.short
  unfold onReceive
  dsimp only
  generalize (recvCmdPkt.beginRead ((WriteOp.short 100).bytes ++ (WriteOp.short (Int16.ofInt (line.length+1))).bytes)
    ((WriteOp.short 100).bytes ++ (WriteOp.short (Int16.ofInt (line.length+1))).bytes).length).readShort.2 = p at after
  rw [← List.append_nil (WriteOp.short (Int16.ofInt (line.length+1))).bytes] at after
  obtain ⟨value,_,⟨_,offset,len,_⟩⟩ := Reads.short (s := Int16.ofInt (line.length+1)) after
  have count : (Int16.ofInt (line.length+1)).toInt = (line.length+1 : Nat) := CmdPacket.toInt_short (n := line.length+1) (by omega)
  have blocked : p.readBlock.1 = none := by
    unfold CmdPacket.readBlock
    generalize p.readShort = r at value offset len
    obtain ⟨_,q⟩ := r
    subst value
    dsimp only at offset len ⊢
    rw [count,if_neg (by omega),offset,len]
    simp only [List.length_append,List.length_nil,Endian.length_ofInt16]
    rw [int32_small (by omega) (by omega),if_pos (by omega)]
  have unread : p.readString.1 = none := by
    unfold CmdPacket.readString
    generalize p.readBlock = r at blocked
    obtain ⟨_,q⟩ := r
    subst blocked
    rfl
  rw [unread]
  rfl

theorem linePacket_built (short : line.length < bufferMax) : (linePacket line).Built := by
  have small : line.length < 1024 := short
  have written : (linePacket line).Written := by
    refine ⟨CmdPacket.new,[.short 100,.string line],CmdPacket.new_sized,fun op member => ?_,rfl⟩
    rcases List.mem_cons.mp member with rfl | member
    · trivial
    · cases List.mem_singleton.mp member
      exact WriteOp.legible_copies (show line.length+1 < 2^15 by omega)
  refine ⟨written,?_⟩
  have writing := written.writing
  have count := writing.length_content
  by_cases fits : line.length ≤ maxLine
  · rw [linePacket_fits fits,List.length_append,CmdPacket.WriteOp.length_bytes] at count
    have two : (WriteOp.short 100).size = 2 := rfl
    omega
  · rw [linePacket_long (Nat.lt_of_not_le fits) short,List.length_append,CmdPacket.WriteOp.length_bytes] at count
    have two : (WriteOp.short 100).size = 2 := rfl
    omega

end line

variable {w v : World} {k : Nat} {c : Client} {s t : TcpSession} {seed : Int32} {p : NetPacket} {cs : List (NetPacket × List UInt8)}
  {o : Outside} {line : List UInt8}

-- The client of a connection: it waits for the seed packet p, or it has got it.
def Hears (seed : Int32) (p : NetPacket) (cs : List (NetPacket × List UInt8)) (s : TcpSession) : Prop :=
  Fresh s ∧ cs = [] ∨ Half seed [] cs [p] [] s

theorem Hears.stream (hears : Hears seed p cs s) : s.socket.accepted <+: (cs.map Prod.fst).flatMap NetPacket.bytes := by
  rcases hears with ⟨fresh,rfl⟩ | half
  · rw [fresh.unsent]
    exact List.nil_prefix
  · exact half.stream

theorem Hears.items (hears : Hears seed p cs s) : ∀ u ∈ cs, UserItem seed u := by
  rcases hears with ⟨_,rfl⟩ | half
  · exact List.forall_mem_nil _
  · exact half.items

theorem half_tick {own lead : List NetPacket} {mine theirs : List (NetPacket × List UInt8)} {carried : List UInt8}
    (half : Half seed own mine lead theirs s) (readable : Readable lead theirs) (items : ∀ u ∈ theirs, UserItem seed u) (quiet : o.app = [])
    (stream : carried <+: (lead ++ theirs.map Prod.fst).flatMap NetPacket.bytes)
    (part : (s.meet o).process.socket.received <+: carried) :
    Half seed own mine lead theirs (s.meet o).process ∧ s.socket.accepted <+: (s.meet o).process.socket.accepted := by
  cases half with
  | live sender reading => exact TcpSession.tick_live sender reading readable items quiet stream part
  | finished finished =>
    obtain ⟨ended,accepted,_⟩ := TcpSession.tick_over finished o
    exact ⟨.finished ended,accepted ▸ List.prefix_rfl⟩

theorem Hears.tick {carried : List UInt8} (hears : Hears seed p cs s) (seeded : SeedItem seed p) (quiet : o.app = [])
    (stream : carried <+: p.bytes) (part : (s.meet o).process.socket.received <+: carried) :
    Hears seed p cs (s.meet o).process ∧ s.socket.accepted <+: (s.meet o).process.socket.accepted := by
  have readable : Readable [p] [] := ⟨seeded.inLead,nofun⟩
  have all : carried <+: ([p] ++ ([] : List (NetPacket × List UInt8)).map Prod.fst).flatMap NetPacket.bytes := by
    rw [List.map_nil,List.append_nil,List.flatMap_singleton]
    exact stream
  rcases hears with ⟨fresh,rfl⟩ | half
  · obtain ⟨fresh' | half,more⟩ := TcpSession.tick_fresh fresh quiet seeded readable all part
    · exact ⟨.inl ⟨fresh',rfl⟩,more⟩
    · exact ⟨.inr half,more⟩
  · obtain ⟨half',more⟩ := half_tick half readable nofun quiet all part
    exact ⟨.inr half',more⟩

-- A line is typed: SendPacket takes it or not.
theorem Hears.send (hears : Hears seed p cs s) (built : (linePacket line).Built) (o : Outside) :
    ∃ more, Hears seed p (cs ++ more) ((s.meet o).sendPacket (linePacket line) true false).2 ∧
      s.socket.accepted <+: ((s.meet o).sendPacket (linePacket line) true false).2.socket.accepted ∧
      ((s.meet o).sendPacket (linePacket line) true false).2.socket.received = s.socket.received ∧
      more.map Prod.snd = if ((s.meet o).sendPacket (linePacket line) true false).1 then [(linePacket line).content] else [] := by
  rcases hears with ⟨fresh,rfl⟩ | half
  · have idle : (s.meet o).state ≠ .connected := by
      rcases fresh.trying with trying | still
      · exact fun live => nomatch live.symm.trans trying
      · exact fun live => nomatch live.symm.trans still
    rw [TcpSession.sendPacket_idle idle]
    exact ⟨[],.inl ⟨fresh.meet o,rfl⟩,List.prefix_rfl,rfl,rfl⟩
  · have call : (⟨linePacket line,true⟩ : SendCall).packet.Built := built
    obtain ⟨more,half',accepted,received,sent⟩ := TcpSession.send_half half call o
    exact ⟨more,.inr half',accepted,received,sent⟩

-- A client and the session that serves it.
structure Served (seed : Int32) (p : NetPacket) (cs : List (NetPacket × List UInt8)) (c : Client) (s : TcpSession) : Prop where
  seeded : SeedItem seed p
  hears : Hears seed p cs c.session
  serves : Half seed [p] [] [] cs s
  up : s.socket.received <+: c.session.socket.accepted
  down : c.session.socket.received <+: s.socket.accepted
  typed : cs.map Prod.snd = c.typed.map fun line => (linePacket line).content

-- A client that has no session yet has got and sent nothing.
structure Alone (c : Client) : Prop where
  hears : Fresh c.session ∨ Over 0 [] [] [] c.session
  unheard : c.session.socket.received = []
  typed : c.typed = []

structure WorldOk (w : World) : Prop where
  once : (w.sessions.map Prod.fst).Nodup
  served : ∀ k s, (k,s) ∈ w.sessions → ∃ seed p cs, Served seed p cs (w.clients k) s
  alone : ∀ k, (∀ s, (k,s) ∉ w.sessions) → Alone (w.clients k)
  lines : ∀ k, ∀ line ∈ (w.clients k).typed, line.length < bufferMax ∧ ∀ c ∈ line, c ≠ 0

theorem over_seed {own : List NetPacket} {theirs : List (NetPacket × List UInt8)} (finished : Over seed own [] theirs s) (other : Int32) :
    Over other own [] theirs s := ⟨finished.state,finished.stream,finished.sent,List.forall_mem_nil _,finished.handed⟩

theorem over_idle {own : List NetPacket} {mine theirs : List (NetPacket × List UInt8)} (finished : Over seed own mine theirs s) :
    s.state ≠ .connected := by
  rcases finished.state with dead | zero
  · exact fun live => nomatch live.symm.trans dead
  · exact fun live => nomatch live.symm.trans zero

-- Without the seed packet a client does not get CONNECTED.
theorem half_unheard (half : Half seed [] [] [p] [] s) (unheard : s.socket.received = []) : Over 0 [] [] [] s := by
  cases half with
  | finished finished => exact over_seed finished 0
  | live sender reading =>
    obtain ⟨done,todo,_,_,split⟩ := reading.taken
    rw [unheard,frames.split_nil] at split
    cases congrArg Prod.fst split

theorem some_seed : ∃ p, SeedItem 0 p := ⟨_,TcpSession.wire_seed TcpSession.new 0⟩

theorem Alone.tick (alone : Alone c) (quiet : o.app = []) (unheard : (c.session.meet o).process.socket.received = []) :
    Alone {c with session := (c.session.meet o).process} := by
  refine ⟨?_,unheard,alone.typed⟩
  obtain ⟨p,seeded⟩ := some_seed
  rcases alone.hears with fresh | finished
  · have part : (c.session.meet o).process.socket.received <+: [] := by rw [unheard]
    have readable : Readable [p] [] := ⟨seeded.inLead,nofun⟩
    obtain ⟨fresh' | half,_⟩ := TcpSession.tick_fresh fresh quiet seeded readable List.nil_prefix part
    · exact .inl fresh'
    · exact .inr (half_unheard half unheard)
  · exact .inr (TcpSession.tick_over finished o).1

theorem Alone.send (alone : Alone c) (o : Outside) (line : List UInt8) :
    (c.session.meet o).sendPacket (linePacket line) true false = (false,c.session.meet o) ∧ Alone {c with session := c.session.meet o} := by
  have idle : (c.session.meet o).state ≠ .connected := by
    rcases alone.hears with fresh | finished
    · rcases fresh.trying with trying | still
      · exact fun live => nomatch live.symm.trans trying
      · exact fun live => nomatch live.symm.trans still
    · exact over_idle (s := c.session) finished
  refine ⟨TcpSession.sendPacket_idle idle _ _ _,?_,alone.unheard,alone.typed⟩
  rcases alone.hears with fresh | finished
  · exact .inl (fresh.meet o)
  · exact .inr ⟨finished.state,finished.stream,finished.sent,finished.items,finished.handed⟩

theorem Served.tick (served : Served seed p cs c s) (quiet : o.app = [])
    (carried : (c.session.meet o).process.socket.received <+: s.socket.accepted) :
    Served seed p cs {c with session := (c.session.meet o).process} s := by
  have stream := served.serves.stream
  rw [List.map_nil,List.append_nil,List.flatMap_singleton] at stream
  obtain ⟨hears,more⟩ := served.hears.tick served.seeded quiet stream carried
  exact ⟨served.seeded,hears,served.serves,served.up.trans more,carried,served.typed⟩

theorem Served.process (served : Served seed p cs c s) (quiet : o.app = [])
    (carried : (s.meet o).process.socket.received <+: c.session.socket.accepted) : Served seed p cs c (s.meet o).process := by
  have readable : Readable [] cs := ⟨nofun,fun u member => (served.hears.items u member).framed⟩
  obtain ⟨serves,more⟩ := half_tick served.serves readable served.hears.items quiet served.hears.stream carried
  exact ⟨served.seeded,served.hears,serves,carried,served.down.trans more,served.typed⟩

theorem Served.send (served : Served seed p cs c s) (short : line.length < bufferMax) (o : Outside) :
    ∃ more, Served seed p (cs ++ more) ⟨((c.session.meet o).sendPacket (linePacket line) true false).2,
      if ((c.session.meet o).sendPacket (linePacket line) true false).1 then c.typed ++ [line] else c.typed⟩ s := by
  obtain ⟨more,hears,accepted,received,sent⟩ := served.hears.send (linePacket_built short) o
  refine ⟨more,served.seeded,hears,served.serves.later more,served.up.trans accepted,by rw [received]; exact served.down,?_⟩
  rw [List.map_append,served.typed,sent]
  dsimp only
  split
  · rw [List.map_append]
    rfl
  · rw [List.append_nil]

theorem Alone.accepted (alone : Alone c) (o : Outside) (seed : Int32) :
    ∃ p, Served seed p [] c (TcpSession.new.acceptNewSession o seed) := by
  obtain ⟨p,seeded,half,unread⟩ := TcpSession.acceptNewSession_half TcpSession.new o seed
  refine ⟨p,seeded,?_,half,by rw [unread]; exact List.nil_prefix,by rw [alone.unheard]; exact List.nil_prefix,by rw [alone.typed]; rfl⟩
  rcases alone.hears with fresh | finished
  · exact .inl ⟨fresh,rfl⟩
  · exact .inr (.finished (over_seed finished seed))

-- Something happens at one client.
theorem WorldOk.change (ok : WorldOk w) (served : ∀ s, (k,s) ∈ w.sessions → ∃ seed p cs, Served seed p cs c s)
    (alone : (∀ s, (k,s) ∉ w.sessions) → Alone c) (lines : ∀ line ∈ c.typed, line.length < bufferMax ∧ ∀ c ∈ line, c ≠ 0) :
    WorldOk (w.setClient k c) := by
  have self : (w.setClient k c).clients k = c := Function.update_self ..
  have other {j : Nat} (apart : j ≠ k) : (w.setClient k c).clients j = w.clients j := Function.update_of_ne apart ..
  refine ⟨ok.once,fun j s member => ?_,fun j none => ?_,fun j => ?_⟩
  · by_cases same : j = k
    · subst same
      rw [self]
      exact served s member
    · rw [other same]
      exact ok.served j s member
  · by_cases same : j = k
    · subst same
      rw [self]
      exact alone none
    · rw [other same]
      exact ok.alone j none
  · by_cases same : j = k
    · subst same
      rw [self]
      exact lines
    · rw [other same]
      exact ok.lines j

theorem WorldOk.unique (ok : WorldOk w) (first : (k,s) ∈ w.sessions) (second : (k,t) ∈ w.sessions) : t = s :=
  congrArg Prod.snd (List.inj_on_of_nodup_map ok.once second first rfl)

theorem WorldOk.tick (ok : WorldOk w) (quiet : o.app = []) (carried : w.Carries k ((w.tick k o).clients k).session.socket.received) :
    WorldOk (w.tick k o) := by
  have now : (w.tick k o).clients k = {w.clients k with session := ((w.clients k).session.meet o).process} := Function.update_self ..
  rw [now] at carried
  refine ok.change (fun s member => ?_) (fun none => ?_) (ok.lines k)
  · obtain ⟨seed,p,cs,served⟩ := ok.served k s member
    refine ⟨seed,p,cs,served.tick quiet ?_⟩
    rcases carried with unheard | ⟨t,found,part⟩
    · rw [unheard]
      exact List.nil_prefix
    · rw [ok.unique member found] at part
      exact part
  · refine (ok.alone k none).tick quiet ?_
    rcases carried with unheard | ⟨t,found,_⟩
    · exact unheard
    · exact absurd found (none t)

theorem WorldOk.sendLine (ok : WorldOk w) (short : line.length < bufferMax) (text : ∀ c ∈ line, c ≠ 0) (o : Outside) :
    WorldOk (w.sendLine k line o) := by
  have whole : w.sendLine k line o = w.setClient k ⟨(((w.clients k).session.meet o).sendPacket (linePacket line) true false).2,
      if (((w.clients k).session.meet o).sendPacket (linePacket line) true false).1 then (w.clients k).typed ++ [line]
      else (w.clients k).typed⟩ := rfl
  rw [whole]
  refine ok.change (fun s member => ?_) (fun none => ?_) fun l member => ?_
  · obtain ⟨seed,p,cs,served⟩ := ok.served k s member
    obtain ⟨more,served'⟩ := served.send short o
    exact ⟨seed,p,cs ++ more,served'⟩
  · obtain ⟨refused,alone⟩ := (ok.alone k none).send o line
    rw [refused]
    exact alone
  · dsimp only at member
    split at member
    · rcases List.mem_append.mp member with old | new
      · exact ok.lines k l old
      · rw [List.mem_singleton.mp new]
        exact ⟨short,text⟩
    · exact ok.lines k l member

-- The sessions that CD_Server::Process goes through: the ones it had and the new one.
theorem WorldOk.accept (ok : WorldOk w) {accepted : Option (Nat × Int32 × Outside)}
    (fresh : ∀ k seed o, accepted = some (k,seed,o) → ∀ s, (k,s) ∉ w.sessions) :
    WorldOk {w with sessions := w.acceptNewSession accepted} := by
  cases accepted with
  | none => exact ok
  | some arrival =>
    obtain ⟨new,seed,o⟩ := arrival
    have unseen := fresh new seed o rfl
    refine ⟨?_,fun k s member => ?_,fun k none => ?_,ok.lines⟩
    · show ((w.sessions ++ [(new,TcpSession.new.acceptNewSession o seed)]).map Prod.fst).Nodup
      rw [List.map_append]
      refine ok.once.append (List.nodup_singleton _) fun k old same => ?_
      obtain ⟨⟨_,s⟩,member,rfl⟩ := List.mem_map.mp old
      cases List.mem_singleton.mp same
      exact unseen s member
    · rcases List.mem_append.mp member with old | last
      · exact ok.served k s old
      · cases List.mem_singleton.mp last
        obtain ⟨p,served⟩ := (ok.alone new unseen).accepted o seed
        exact ⟨seed,p,[],served⟩
    · exact ok.alone k fun s member => none s (List.mem_append_left _ member)

theorem WorldOk.process (ok : WorldOk w) {accepted : Option (Nat × Int32 × Outside)} {o : Nat → Outside}
    (fresh : ∀ k seed o, accepted = some (k,seed,o) → ∀ s, (k,s) ∉ w.sessions) (quiet : ∀ k, (o k).app = [])
    (carried : ∀ k s, (k,s) ∈ (w.process accepted o).sessions → s.socket.received <+: (w.clients k).session.socket.accepted) :
    WorldOk (w.process accepted o) := by
  obtain ⟨once,served,alone,lines⟩ := ok.accept fresh
  have ticked (k : Nat) (s : TcpSession) (member : (k,s) ∈ w.acceptNewSession accepted) :
      (k,(s.meet (o k)).process) ∈ (w.process accepted o).sessions := List.mem_map.mpr ⟨_,member,rfl⟩
  refine ⟨?_,fun k s member => ?_,fun k none => ?_,lines⟩
  · show (((w.acceptNewSession accepted).map fun (k,s) => (k,(s.meet (o k)).process)).map Prod.fst).Nodup
    rw [List.map_map]
    exact once
  · obtain ⟨⟨j,t⟩,before,same⟩ := List.mem_map.mp member
    cases same
    obtain ⟨seed,p,cs,served⟩ := served k t before
    exact ⟨seed,p,cs,served.process (quiet k) (carried k _ member)⟩
  · exact alone k fun s member => none _ (ticked k s member)

theorem world_step {event : WorldEvent} (ok : WorldOk w) (step : WorldStep w event v) : WorldOk v := by
  cases step with
  | tick quiet carried => exact ok.tick quiet carried
  | line short text => exact ok.sendLine short text _
  | server fresh quiet carried => exact ok.process fresh quiet carried

theorem new_fresh : Fresh TcpSession.new.afterConnect := by
  have ring := TcpSession.reset_ring TcpSession.new (by decide : ((maxBufferSize/1024+1)*1000 : Int) ≤ 2^29)
  refine ⟨(TcpSession.RingOk.same (t := TcpSession.new.afterConnect) ring rfl).1,(TcpSession.reset_read TcpSession.new).same rfl,.inl rfl,rfl,rfl,rfl,?_⟩
  rw [TcpSession.unread_empty rfl]
  rfl

theorem new_alone : Alone ⟨TcpSession.new.afterConnect,[]⟩ := ⟨.inl new_fresh,rfl,rfl⟩

theorem new_ok : WorldOk World.new := by
  refine ⟨List.nodup_nil,fun _ _ member => ?_,fun _ _ => new_alone,fun _ _ member => ?_⟩
  · cases member
  · cases member

-- The server logs the lines that fit into a packet and drops the others.
theorem logged (ls : List (List UInt8)) (lines : ∀ line ∈ ls, line.length < bufferMax ∧ ∀ c ∈ line, c ≠ 0) :
    (ls.map fun line => (linePacket line).content).filterMap onReceive = ls.filter (·.length ≤ maxLine) := by
  induction ls with
  | nil => rfl
  | cons line ls ih =>
    obtain ⟨short,text⟩ := lines line List.mem_cons_self
    have rest := ih fun l member => lines l (List.mem_cons_of_mem _ member)
    rw [List.map_cons,List.filterMap_cons,List.filter_cons,rest]
    by_cases fits : line.length ≤ maxLine
    · rw [onReceive_fits fits text,if_pos (decide_eq_true fits)]
    · rw [onReceive_long (Nat.lt_of_not_le fits) short,if_neg (by simpa using fits)]

theorem mapIdx_begins {α β : Type} {first whole : List α} (part : first <+: whole) (f : Nat → α → β) :
    first.mapIdx f <+: whole.mapIdx f := by
  obtain ⟨rest,rfl⟩ := part
  rw [List.mapIdx_append]
  exact List.prefix_append _ _

-- In every run of the server and its clients, whatever fails: what OnReceive hands to Sys_Log
-- for a session are the lines of one client for which SendPacket has returned true, in order,
-- without those that do not fit into a packet, and these are printed, each cut as Sys_Log does.
theorem lines_logged {taken : List (Transition World WorldEvent)} (path : Path WorldStep World.new taken w) (member : (k,s) ∈ w.sessions)
    (remote behind : Nat → List UInt8) :
    (receives s.calls).filterMap onReceive <+: (w.clients k).typed.filter (·.length ≤ maxLine) ∧
    printed remote behind (receives s.calls) <+:
      ((w.clients k).typed.filter (·.length ≤ maxLine)).mapIdx fun i line => sysLog (behind i) (recvText (remote i) line) := by
  have ok := path.invariant WorldOk new_ok fun _ _ _ ok step => world_step ok step
  obtain ⟨seed,p,cs,served⟩ := ok.served k s member
  have handed : (receives s.calls).filterMap onReceive <+: (w.clients k).typed.filter (·.length ≤ maxLine) := by
    rw [← logged _ (ok.lines k),← served.typed]
    exact served.serves.handed.filterMap onReceive
  exact ⟨handed,mapIdx_begins handed _⟩

-- A server and one client: the client gets the seed and a line is typed.
def writable : Outside := {(default : Outside) with writables := [true]}
def sending : Outside := {(default : Outside) with sends := [.sent 64]}
def hearing (bytes : List UInt8) : Outside := {(default : Outside) with recvs := [.data bytes]}
def accepting : World := World.new.process (some (0,7,sending)) fun _ => default
def waiting : World := accepting.tick 0 writable
def greeted : World := waiting.tick 0 (hearing [84,1,0,6,0,1,0,7,0,0,0])
def typing : World := greeted.sendLine 0 [65,66,10] sending
def logging : World := typing.process none fun _ => hearing [83,1,0,8,0,108,1,5,0,65,66,10,0]

theorem lines_logged_one : ∃ s taken, Path WorldStep World.new taken logging ∧ (0,s) ∈ logging.sessions ∧
    (receives s.calls).filterMap onReceive = [[65,66,10]] ∧
    printed (fun _ => [49]) (fun _ => []) (receives s.calls) <+:
      ((logging.clients 0).typed.filter (·.length ≤ maxLine)).mapIdx fun _ line => sysLog [] (recvText [49] line) := by
  let first := TcpSession.new.acceptNewSession sending 7
  let second := (first.meet default).process
  let third := (second.meet (hearing [83,1,0,8,0,108,1,5,0,65,66,10,0])).process
  have one : WorldStep World.new (.server (some (0,7,sending)) fun _ => default) accepting := by
    refine .server (fun _ _ _ _ _ => List.not_mem_nil) (fun _ => rfl) fun k s member => ?_
    cases List.mem_singleton.mp (show (k,s) ∈ [(0,second)] from member)
    decide +kernel
  have two : WorldStep accepting (.tick 0 writable) waiting := .tick rfl (.inl (by decide +kernel))
  have three : WorldStep waiting (.tick 0 (hearing [84,1,0,6,0,1,0,7,0,0,0])) greeted :=
    .tick rfl (.inr ⟨second,List.mem_singleton_self _,by decide +kernel⟩)
  have four : WorldStep greeted (.line 0 [65,66,10] sending) typing := .line (by decide) (by simp)
  have five : WorldStep typing (.server none fun _ => hearing [83,1,0,8,0,108,1,5,0,65,66,10,0]) logging := by
    refine .server nofun (fun _ => rfl) fun k s member => ?_
    cases List.mem_singleton.mp (show (k,s) ∈ [(0,third)] from member)
    decide +kernel
  have path := ((((Path.nil.step one).step two).step three).step four).step five
  have member : (0,third) ∈ logging.sessions := List.mem_singleton_self _
  exact ⟨third,_,path,member,by decide +kernel,(lines_logged path member (fun _ => [49]) (fun _ => [])).2⟩

end PcNetwork.CdServer
