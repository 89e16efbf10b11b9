import PcNetwork.Library.Loop
import Mathlib.Logic.Function.Basic
import Mathlib.Data.List.Basic

namespace PcNetwork.Netlib.CFG

def maxCfgLineLen : Nat := 2048

-- An input stream with what is still to be read and two of its state bits.
structure Stream where
  rest : List UInt8
  eofbit : Bool
  failbit : Bool

inductive Stop where
  | eof
  | delim
  | full
deriving DecidableEq

-- The characters up to a newline, which is taken as well. The end of the input and the
-- newline are looked for before the room that is left.
def getChars : Nat → List UInt8 → List UInt8 × List UInt8 × Stop
  | _,[] => ([],[],.eof)
  | room,c :: rest =>
    if c = 10 then ([],rest,.delim)
    else match room with
    | 0 => ([],c :: rest,.full)
    | room+1 =>
      let (chars,left,stop) := getChars room rest
      (c :: chars,left,stop)

def getline (s : Stream) (n : Nat) : List UInt8 × Stream :=
  if s.eofbit ∨ s.failbit then ([],{s with failbit := true})
  else match getChars (n-1) s.rest with
  | (chars,left,.eof) => (chars,⟨left,true,chars.isEmpty⟩)
  | (chars,left,.delim) => (chars,⟨left,false,false⟩)
  | (chars,left,.full) => (chars,⟨left,false,true⟩)

-- The characters that separate an option from its value: = and tab and newline.
def seps (c : UInt8) : Bool := c = 61 || c = 9 || c = 10

-- A token and what is behind the separator that ends it.
def strtok (s : List UInt8) : Option (List UInt8 × List UInt8) :=
  match s.dropWhile seps with
  | [] => none
  | token => some (token.takeWhile (! seps ·),(token.dropWhile (! seps ·)).drop 1)

abbrev MapGroup := List UInt8 → List UInt8 → Option (List UInt8)

structure Parsed where
  group : List UInt8
  mapGroup : MapGroup

def Parsed.empty : Parsed := ⟨[],fun _ _ => none⟩

-- What the loop does with a line: [ and ] are around the name of a group. A 0 ends the
-- string in the buffer.
def parseLine (s : Parsed) (line : List UInt8) : Parsed :=
  let strLine := line.takeWhile (· != 0)
  if strLine.head? = some 91 ∧ strLine.getLast? = some 93 then {s with group := strLine.dropLast.drop 1}
  else if s.group = [] then s
  else match strtok strLine with
  | none => s
  | some (option,behind) =>
    let value := match strtok behind with
      | none => []
      | some (value,_) => value
    {s with mapGroup := Function.update s.mapGroup s.group (Function.update (s.mapGroup s.group) option (some value))}

structure Reading where
  stream : Stream
  parsed : Parsed

-- One round of the loop, which asks for the end of the file only.
def openRound (s : Reading) : Reading ⊕ MapGroup :=
  if s.stream.eofbit then .inr s.parsed.mapGroup
  else
    let (strLine,stream) := getline s.stream maxCfgLineLen
    .inl ⟨stream,parseLine s.parsed strLine⟩

def reading (rest : List UInt8) (parsed : Parsed) : Reading := ⟨⟨rest,false,false⟩,parsed⟩

def opened (content : List UInt8) : Reading := reading content .empty

-- The lines of a file. What is behind the last newline is a line as well.
def lines : List UInt8 → List (List UInt8)
  | [] => [[]]
  | c :: rest =>
    if c = 10 then [] :: lines rest
    else match lines rest with
    | [] => [[c]]
    | line :: more => (c :: line) :: more

-- Every line is parsed.
def parseAll (content : List UInt8) : MapGroup := ((lines content).foldl parseLine .empty).mapGroup

theorem lines_last (single : 10 ∉ line) : lines line = [line] := by
  induction line with
  | nil => rfl
  | cons c line ih =>
    have apart : c ≠ 10 := fun same => single (by simp [same])
    simp only [lines,if_neg apart,ih fun member => single (List.mem_cons_of_mem _ member)]

theorem lines_more (single : 10 ∉ line) (rest : List UInt8) : lines (line ++ 10 :: rest) = line :: lines rest := by
  induction line with
  | nil => simp [lines]
  | cons c line ih =>
    have apart : c ≠ 10 := fun same => single (by simp [same])
    simp only [List.cons_append,lines,if_neg apart,ih fun member => single (List.mem_cons_of_mem _ member)]

-- What is read of a line that fits, at the end of the file or up to its newline.
theorem getChars_last (single : 10 ∉ line) (fits : line.length ≤ room) : getChars room line = (line,[],.eof) := by
  induction line generalizing room with
  | nil => simp [getChars]
  | cons c line ih =>
    have apart : c ≠ 10 := fun same => single (by simp [same])
    cases room with
    | zero => cases fits
    | succ room =>
      simp only [getChars,if_neg apart,ih (fun member => single (List.mem_cons_of_mem _ member)) (Nat.le_of_succ_le_succ fits)]

theorem getChars_more (single : 10 ∉ line) (fits : line.length ≤ room) (rest : List UInt8) :
    getChars room (line ++ 10 :: rest) = (line,rest,.delim) := by
  induction line generalizing room with
  | nil => cases room <;> simp [getChars]
  | cons c line ih =>
    have apart : c ≠ 10 := fun same => single (by simp [same])
    cases room with
    | zero => cases fits
    | succ room =>
      simp only [List.cons_append,getChars,if_neg apart,
        ih (fun member => single (List.mem_cons_of_mem _ member)) (Nat.le_of_succ_le_succ fits)]

-- Of a longer one as much as there is room for.
theorem getChars_full (single : 10 ∉ line) (long : room < line.length) (rest : List UInt8) :
    ∃ chars left, getChars room (line ++ rest) = (chars,left,.full) := by
  induction line generalizing room with
  | nil => cases long
  | cons c line ih =>
    have apart : c ≠ 10 := fun same => single (by simp [same])
    cases room with
    | zero => exact ⟨[],c :: (line ++ rest),by simp [getChars,apart]⟩
    | succ room =>
      obtain ⟨chars,left,read⟩ := ih (fun member => single (List.mem_cons_of_mem _ member)) (Nat.lt_of_succ_lt_succ long)
      exact ⟨c :: chars,left,by simp only [List.cons_append,getChars,if_neg apart,read]⟩

theorem round_last (single : 10 ∉ line) (fits : line.length < maxCfgLineLen) (parsed : Parsed) :
    openRound (reading line parsed) = .inl ⟨⟨[],true,line.isEmpty⟩,parseLine parsed line⟩ := by
  have read := getChars_last single (Nat.le_sub_one_of_lt fits)
  simp [openRound,reading,getline,read]

theorem round_more (single : 10 ∉ line) (fits : line.length < maxCfgLineLen) (rest : List UInt8) (parsed : Parsed) :
    openRound (reading (line ++ 10 :: rest) parsed) = .inl (reading rest (parseLine parsed line)) := by
  have read := getChars_more single (Nat.le_sub_one_of_lt fits) rest
  simp [openRound,reading,getline,read]

-- A stream that has failed in front of its end stays where it is.
theorem failed_never_ends (failed : s.stream.failbit = true) (inside : s.stream.eofbit = false) : ¬ Ends openRound s a := by
  refine never_ends (fun s => s.stream.failbit = true ∧ s.stream.eofbit = false) ⟨failed,inside⟩ ?_
  rintro s ⟨failed,inside⟩
  exact ⟨⟨{s.stream with failbit := true},parseLine s.parsed []⟩,by simp [openRound,getline,failed,inside],rfl,inside⟩

theorem long_never_ends (single : 10 ∉ line) (long : maxCfgLineLen ≤ line.length) (rest : List UInt8) (parsed : Parsed) :
    ¬ Ends openRound (reading (line ++ rest) parsed) a := by
  have longer : maxCfgLineLen-1 < line.length := long
  obtain ⟨chars,left,read⟩ := getChars_full single longer rest
  have round : openRound (reading (line ++ rest) parsed) = .inl ⟨⟨left,false,true⟩,parseLine parsed chars⟩ := by
    simp [openRound,reading,getline,read]
  rw [Ends.more round]
  exact failed_never_ends rfl rfl

-- The lines that fit are parsed one after the other, and the first one that does not is
-- where the loop stays.
theorem reading_ends (content : List UInt8) (parsed : Parsed) :
    Ends openRound (reading content parsed) a ↔
      (∀ line ∈ lines content, line.length < maxCfgLineLen) ∧ a = ((lines content).foldl parseLine parsed).mapGroup := by
  induction size : content.length using Nat.strongRecOn generalizing content parsed with
  | ind n ih =>
    by_cases newline : 10 ∈ content
    · obtain ⟨line,rest,rfl,single⟩ := List.eq_append_cons_of_mem newline
      rw [lines_more single,List.forall_mem_cons,List.foldl_cons]
      by_cases fits : line.length < maxCfgLineLen
      · rw [Ends.more (round_more single fits rest parsed),ih rest.length (by rw [← size]; simp; omega) rest _ rfl]
        simp [fits]
      · simp [fits,long_never_ends single (Nat.le_of_not_lt fits)]
    · rw [lines_last newline,List.forall_mem_singleton,List.foldl_cons,List.foldl_nil]
      by_cases fits : content.length < maxCfgLineLen
      · rw [Ends.more (round_last newline fits parsed),Ends.last (by simp [openRound]; rfl)]
        simp [fits]
      · have stuck := long_never_ends (a := a) newline (Nat.le_of_not_lt fits) [] parsed
        rw [List.append_nil] at stuck
        simp [fits,stuck]

-- The loop ends with all lines parsed if and only if each of them fits into the buffer.
theorem open_ends (content : List UInt8) :
    Ends openRound (opened content) (parseAll content) ↔ ∀ line ∈ lines content, line.length < maxCfgLineLen := by
  rw [opened,reading_ends]
  exact and_iff_left rfl

def longLine : List UInt8 := List.replicate 2048 97

theorem long_line_stays : ¬ ∀ content, Ends openRound (opened content) (parseAll content) := by
  intro all
  have single : 10 ∉ longLine := by
    intro member
    cases List.eq_of_mem_replicate member
  have stuck := long_never_ends (a := parseAll longLine) single (List.length_replicate ..).ge [] .empty
  rw [List.append_nil] at stuck
  exact stuck (all longLine)

end PcNetwork.Netlib.CFG
