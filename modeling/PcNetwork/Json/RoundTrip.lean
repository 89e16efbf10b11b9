import PcNetwork.Json.Spacing
import PcNetwork.Json.Printed
import PcNetwork.Json.Parser

namespace PcNetwork.Json
variable {state : ParseState} {cursor : Option Cursor} {tokens more : List Token} {bytes : Text} {a : Stop × ParsingInfo}
  {i j k : ParsingInfo} {d : Document} {text : Text}

-- Between two tokens the lexer is at its root.
def ready (state : ParseState) (cursor : Option Cursor) : ParsingInfo := ⟨state,.root,[],cursor⟩

-- An opened object or array is made before the next token is read.
def settle (info : ParsingInfo) : Except Stop ParsingInfo :=
  match info.state with
  | .openObject => opening info .object .openedObject
  | .openArray => opening info .array .openedArray
  | _ => .ok info

def take (info : ParsingInfo) (token : Token) : Except Stop ParsingInfo := do
  let info ← settle info
  onToken {info with lexText := token.2} token.1

-- The parser takes the tokens one after another.
inductive Taken : ParsingInfo → List Token → ParsingInfo → Prop where
  | nil (info : ParsingInfo) : Taken info [] info
  | cons {i j : ParsingInfo} {state : ParseState} {cursor : Option Cursor} {token : Token} {tokens : List Token} :
      take i token = .ok (ready state cursor) → Taken (ready state cursor) tokens j → Taken i (token :: tokens) j

theorem Taken.append (first : Taken i tokens j) (second : Taken j more k) : Taken i (tokens ++ more) k := by
  induction first with
  | nil => exact second
  | cons taken _ ih => exact .cons taken (ih second)

theorem Taken.one {token : Token} (taken : take i token = .ok (ready state cursor)) : Taken i [token] (ready state cursor) :=
  .cons taken (.nil _)

theorem token_round {b : Char} {rest text : Text} {value : LexValue} (object : state ≠ .openObject) (array : state ≠ .openArray)
    (read : lexer (b :: bytes) .root [] = ⟨value,rest,.root,text⟩) (gave : onToken ⟨state,.root,text,cursor⟩ value = .ok j) :
    parseRound (ready state cursor,b :: bytes) = .inl (j,rest) := by
  cases state with
  | openObject => exact absurd rfl object
  | openArray => exact absurd rfl array
  | _ => simp only [parseRound,ready,read,gave]

theorem opening_ready {type : JsonType} {next : ParseState} (opened : opening (ready state cursor) type next = .ok j) :
    ∃ c, j = ready next (some c) := by
  unfold opening at opened
  split at opened
  · cases opened
    exact ⟨_,rfl⟩
  · split at opened
    · rename_i c _ _
      cases down : c.descend (jsonNewValue type) with
      | ok c =>
        rw [down] at opened
        cases opened
        exact ⟨_,rfl⟩
      | error stop =>
        rw [down] at opened
        cases opened
    · cases opened

-- What is opened takes a round of its own.
theorem opened_rounds {type : JsonType} {next : ParseState} {b : Char} {rest text : Text} {value : LexValue}
    (settles : settle (ready state cursor) = opening (ready state cursor) type next)
    (round : parseRound (ready state cursor,b :: bytes) =
      match opening (ready state cursor) type next with
      | .ok opened => .inl (opened,b :: bytes)
      | .error stop => .inr (stop,ready state cursor))
    (object : next ≠ .openObject) (array : next ≠ .openArray) (taken : take (ready state cursor) (value,text) = .ok j)
    (read : lexer (b :: bytes) .root [] = ⟨value,rest,.root,text⟩) :
    Ends parseRound (ready state cursor,b :: bytes) a ↔ Ends parseRound (j,rest) a := by
  unfold take at taken
  rw [settles] at taken
  cases opened : opening (ready state cursor) type next with
  | error stop =>
    rw [opened] at taken
    cases taken
  | ok middle =>
    rw [opened] at taken round
    obtain ⟨c,rfl⟩ := opening_ready opened
    have gave : onToken ⟨next,.root,text,some c⟩ value = .ok j := taken
    rw [Ends.more round,Ends.more (token_round object array read gave)]

-- A token that is taken is a round of the loop, or two when something is opened.
theorem taken_rounds {rest text : Text} {value : LexValue} (taken : take (ready state cursor) (value,text) = .ok j)
    (read : lexer bytes .root [] = ⟨value,rest,.root,text⟩) (some_value : value ≠ .more) :
    Ends parseRound (ready state cursor,bytes) a ↔ Ends parseRound (j,rest) a := by
  match bytes with
  | [] =>
    rw [lexer] at read
    cases read
    exact absurd rfl some_value
  | b :: bytes =>
    cases state with
    | openObject => exact opened_rounds rfl rfl (by simp) (by simp) taken read
    | openArray => exact opened_rounds rfl rfl (by simp) (by simp) taken read
    | _ => exact Ends.more (token_round (by simp) (by simp) read taken)

-- A text that is spelled by tokens the parser takes.
theorem spelled_parses (taken : Taken i tokens j) (spelled : Spelled tokens bytes) (start : ∃ state cursor, i = ready state cursor) :
    ∃ rest, Blank rest ∧ ∀ a, Ends parseRound (i,bytes) a ↔ Ends parseRound (j,rest) a := by
  induction taken generalizing bytes with
  | nil =>
    cases spelled with
    | nil blank => exact ⟨_,blank,fun _ => Iff.rfl⟩
  | cons taken _ ih =>
    obtain ⟨state,cursor,rfl⟩ := start
    cases spelled with
    | cons read some_value _ behind =>
      obtain ⟨rest,blank,same⟩ := ih behind ⟨_,_,rfl⟩
      exact ⟨rest,blank,fun a => (taken_rounds taken read some_value).trans (same a)⟩

-- A place where a value may stand: as the document, as an element behind others, or
-- as the value of a label of an object.
inductive Seat where
  | root
  | element (before : List JsonValue) (parents : List JsonValue)
  | field (label : Text) (before : List JsonValue) (parents : List JsonValue)

namespace Seat

def before : Seat → ParsingInfo
  | root => ready .start none
  | element before parents => ready .openedArray (some ⟨.node .array none before,parents⟩)
  | field label before parents => ready .value (some ⟨.node .string (some label) [],.node .object none before :: parents⟩)

-- The nodes above what is opened there.
def up : Seat → List JsonValue
  | root => []
  | element before parents => .node .array none before :: parents
  | field label before parents => .node .string (some label) [] :: .node .object none before :: parents

def after (value : JsonValue) : Seat → ParsingInfo
  | root => ready .finished (some ⟨value,[]⟩)
  | element before parents => ready .addedElement (some ⟨.node .array none (before ++ [value]),parents⟩)
  | field label before parents =>
    ready .addedField (some ⟨.node .object none (before ++ [.node .string (some label) [value]]),parents⟩)

-- An opened container is not made before its first token is taken.
def pending (state : ParseState) : Seat → ParsingInfo
  | root => ready state none
  | element before parents => ready state (some ⟨.node .array none before,parents⟩)
  | field label before parents => ready state (some ⟨.node .string (some label) [],.node .object none before :: parents⟩)

variable {seat : Seat} {token : Token}

theorem pending_array : take (seat.pending .openArray) token = take (ready .openedArray (some ⟨.node .array none [],seat.up⟩)) token := by
  cases seat <;> rfl

theorem pending_object : take (seat.pending .openObject) token = take (ready .openedObject (some ⟨.node .object none [],seat.up⟩)) token := by
  cases seat <;> rfl

end Seat

theorem Taken.pending_array {seat : Seat} (taken : Taken (ready .openedArray (some ⟨.node .array none [],seat.up⟩)) tokens j)
    (some_token : tokens ≠ []) : Taken (seat.pending .openArray) tokens j := by
  cases taken with
  | nil => exact absurd rfl some_token
  | cons first behind => exact .cons (by rw [Seat.pending_array,first]) behind

theorem Taken.pending_object {seat : Seat} (taken : Taken (ready .openedObject (some ⟨.node .object none [],seat.up⟩)) tokens j)
    (some_token : tokens ≠ []) : Taken (seat.pending .openObject) tokens j := by
  cases taken with
  | nil => exact absurd rfl some_token
  | cons first behind => exact .cons (by rw [Seat.pending_object,first]) behind

namespace Document

mutual
-- The parser takes a document in its seat.
theorem value_taken (d : Document) (seat : Seat) (seated : seat ≠ .root ∨ d.Container) :
    Taken seat.before d.tokens (seat.after d.value) := by
  match d with
  | .string _ | .number _ | .true | .false | .null =>
    cases seat with
    | root =>
      obtain other | ⟨_,same⟩ | ⟨_,same⟩ := seated
      · exact absurd rfl other
      · cases same
      · cases same
    | element before parents => exact .one rfl
    | field label before parents => exact .one rfl
  | .array elements =>
    have inside : Taken (ready .openedArray (some ⟨.node .array none [],seat.up⟩)) (elementTokens elements ++ [(.endArray,[])])
        (seat.after (.node .array none (values elements))) := by
      match elements with
      | [] => cases seat <;> exact .one rfl
      | e :: rest =>
        refine (elements_taken e rest [] seat.up).append ?_
        cases seat <;> exact .one rfl
    have pending := inside.pending_array (by simp)
    cases seat <;> exact .cons rfl pending
  | .object fields =>
    have inside : Taken (ready .openedObject (some ⟨.node .object none [],seat.up⟩)) (fieldTokens fields ++ [(.endObject,[])])
        (seat.after (.node .object none (labels fields))) := by
      match fields with
      | [] => cases seat <;> exact .one rfl
      | (text,e) :: rest =>
        refine (fields_taken text e rest [] seat.up .openedObject (.inl rfl)).append ?_
        cases seat <;> exact .one rfl
    have pending := inside.pending_object (by simp)
    cases seat <;> exact .cons rfl pending
termination_by sizeOf d

theorem elements_taken (d : Document) (rest : List Document) (before parents : List JsonValue) :
    Taken (ready .openedArray (some ⟨.node .array none before,parents⟩)) (elementTokens (d :: rest))
      (ready .addedElement (some ⟨.node .array none (before ++ values (d :: rest)),parents⟩)) := by
  have first := value_taken d (.element before parents) (.inl (by simp))
  match rest with
  | [] => exact first
  | e :: rest =>
    have others := elements_taken e rest (before ++ [d.value]) parents
    rw [List.append_assoc] at others
    exact first.append (.cons rfl others)
termination_by 1+sizeOf d+sizeOf rest

theorem fields_taken (text : {text // Escaped text}) (d : Document) (rest : List ({text // Escaped text} × Document))
    (before parents : List JsonValue) (state : ParseState) (inside : state = .openedObject ∨ state = .nextField) :
    Taken (ready state (some ⟨.node .object none before,parents⟩)) (fieldTokens ((text,d) :: rest))
      (ready .addedField (some ⟨.node .object none (before ++ labels ((text,d) :: rest)),parents⟩)) := by
  have value := value_taken d (.field text.val before parents) (.inl (by simp))
  match rest with
  | [] => rcases inside with rfl | rfl <;> exact .cons rfl (.cons rfl value)
  | (name,e) :: rest =>
    have others := fields_taken name e rest (before ++ [.node .string (some text.val) [d.value]]) parents .nextField (.inr rfl)
    rw [List.append_assoc] at others
    have separated : take (Seat.after d.value (.field text.val before parents)) (.valueSeparator,[]) = .ok (ready .nextField _) := rfl
    have behind := value.append (.cons separated others)
    rcases inside with rfl | rfl <;> exact .cons rfl (.cons rfl behind)
termination_by 1+sizeOf d+sizeOf rest
end

-- Behind the document there may be spaces.
theorem finished_ends {root : JsonValue} {rest : Text} (blank : Blank rest) :
    parseRound (ready .finished (some ⟨root,[]⟩),rest) = .inr (.returns .waitingForEof,ready .finished (some ⟨root,[]⟩)) := by
  cases rest with
  | nil => rfl
  | cons c rest =>
    simp only [parseRound,ready,lexer_blank blank]
    rfl

-- A text of the tokens of a document, with any spaces between them, is parsed into its tree.
theorem spaced_parses (d : Document) (container : d.Container) (spaced : Spaced d.tokens text) (answer : Except Stop (Option JsonValue)) :
    ParsesDocument text answer ↔ answer = .ok (some d.value) := by
  have fit := tokens_fit d [] .nil (.inr container)
  rw [List.append_nil] at fit
  have parsed (a : Stop × ParsingInfo) :
      Ends parseRound (jsonJpiInit,text) a ↔ a = (.returns .waitingForEof,ready .finished (some ⟨d.value,[]⟩)) := by
    obtain ⟨rest,blank,same⟩ := spelled_parses (value_taken d .root (.inr container)) (fit.spelled spaced) ⟨.start,none,rfl⟩
    exact (same a).trans (Ends.last (finished_ends blank))
  constructor
  · rintro ⟨stop,info,ran,rfl⟩
    rw [(parsed _).mp ran]
    rfl
  · rintro rfl
    exact ⟨_,_,(parsed _).mpr rfl,rfl⟩

-- What json_tree_to_string writes, json_parse_document reads back.
theorem print_parses (d : Document) (container : d.Container) :
    (∀ above answer, TreeToString above d.value answer ↔ answer = .ok d.print) ∧
      ∀ answer, ParsesDocument d.print answer ↔ answer = .ok (some d.value) := by
  constructor
  · intro above answer
    rw [tree_written,value_written d above (.inr (.inr container))]
  · rw [print_tokens]
    exact spaced_parses d container (spelling_spaced d.tokens)

-- The text {"a":[1,"\n"],"b":{}} and what it stands for.
def fieldsText : Text := ['{','\x22','a','\x22',':','[','1',',','\x22','\x5C','n','\x22',']',',','\x22','b','\x22',':','{','}','}']
def fields : JsonValue := .node .object none [
  .node .string (some ['a']) [.node .array none [.node .number (some ['1']) [],.node .string (some ['\x5C','n']) []]],
  .node .string (some ['b']) [.node .object none []]]

theorem print_parses_fields : TreeToString none fields (.ok fieldsText) ∧ ParsesDocument fieldsText (.ok (some fields)) := by
  have whole := print_parses (.object [(⟨['a'],.plain (by decide) (by decide) .nil⟩,.array [.number ⟨['1'],.none (.none (.digits rfl (by simp [Digits])))⟩,
    .string ⟨['\x5C','n'],.short rfl .nil⟩]),(⟨['b'],.plain (by decide) (by decide) .nil⟩,.object [])]) (.inr ⟨_,rfl⟩)
  exact ⟨(whole.1 none _).mpr rfl,(whole.2 _).mpr rfl⟩

end Document

end PcNetwork.Json
