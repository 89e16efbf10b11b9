import PcNetwork.Json.Lexer
import PcNetwork.Library.Loop

namespace PcNetwork.Json

-- The states of the parser in the order of their numbers, 0 to 9 and 99.
inductive ParseState where
  | start
  | openObject
  | openedObject
  | addedField
  | nextField
  | label
  | value
  | openArray
  | openedArray
  | addedElement
  | finished
deriving DecidableEq

-- The node that the cursor points to, and those above it, the nearest first. A node is
-- put into the one above it when the cursor goes up, not when it goes down; until
-- then nothing looks for it there.
structure Cursor where
  node : JsonValue
  parents : List JsonValue

structure ParsingInfo where
  state : ParseState
  lexState : LexState
  lexText : Text
  cursor : Option Cursor

def jsonJpiInit : ParsingInfo := ⟨.start,.root,[],none⟩

-- A function of the parser returns early with an error, or an assertion fails.
inductive Stop where
  | returns (error : JsonError)
  | aborts
deriving DecidableEq

def unknown : Except JsonError α → Except Stop α
  | .ok a => .ok a
  | .error _ => .error (.returns .unknownProblem)

-- cursor = temp behind json_insert_child(cursor, temp).
def Cursor.descend (c : Cursor) (temp : JsonValue) : Except Stop Cursor := do
  let _ ← unknown (jsonInsertChild c.node temp)
  return ⟨temp,c.node :: c.parents⟩

def Cursor.insert (c : Cursor) (temp : JsonValue) : Except Stop Cursor := do
  let node ← unknown (jsonInsertChild c.node temp)
  return ⟨node,c.parents⟩

-- cursor = cursor->parent.
def Cursor.ascend (c : Cursor) : Option Cursor :=
  match c.parents with
  | [] => none
  | parent :: parents => some ⟨parent.append c.node,parents⟩

-- States 1 and 7: a new object or array is opened.
def opening (info : ParsingInfo) (type : JsonType) (next : ParseState) : Except Stop ParsingInfo :=
  match info.cursor with
  | none => .ok {info with cursor := some ⟨jsonNewValue type,[]⟩,state := next}
  | some c =>
    if c.node.type = .string ∨ c.node.type = .array then do
      let c ← c.descend (jsonNewValue type)
      return {info with cursor := some c,state := next}
    else .error .aborts

-- A label, in states 2 and 4.
def addLabel (info : ParsingInfo) (c : Cursor) : Except Stop ParsingInfo := do
  let c ← c.descend (.node .string (some info.lexText) [])
  return {info with cursor := some c,lexText := [],state := .label}

-- LEX_END_OBJECT in states 2 and 3.
def endObject (info : ParsingInfo) (c : Cursor) : Except Stop ParsingInfo :=
  match c.ascend with
  | none => .ok {info with state := .finished}
  | some c =>
    match c.node.type with
    | .string =>
      match c.ascend with
      | none => .error .aborts
      | some c =>
        if c.node.type = .object then .ok {info with cursor := some c,state := .addedField}
        else .error (.returns .badTreeStructure)
    | .array => .ok {info with cursor := some c,state := .addedElement}
    | _ => .error (.returns .badTreeStructure)

-- LEX_END_ARRAY in states 8 and 9, which differ for a label that nothing is above.
def endArray (info : ParsingInfo) (c : Cursor) (alone : Except Stop ParsingInfo) : Except Stop ParsingInfo :=
  match c.ascend with
  | none => .ok {info with state := .finished}
  | some c =>
    match c.node.type with
    | .string =>
      match c.ascend with
      | none => alone
      | some c =>
        if c.node.type = .object then .ok {info with cursor := some c,state := .addedField}
        else .error (.returns .badTreeStructure)
    | .array => .ok {info with cursor := some c,state := .addedElement}
    | _ => .error (.returns .badTreeStructure)

-- A value without children below a label, in state 6. The state is 3 whether or not
-- there is a node above the label.
def addValue (info : ParsingInfo) (c : Cursor) (temp : JsonValue) : Except Stop ParsingInfo := do
  let c ← c.insert temp
  return {info with cursor := some (c.ascend.getD c),state := .addedField}

-- A value without children in an array, in state 8.
def addElement (info : ParsingInfo) (c : Cursor) (temp : JsonValue) : Except Stop ParsingInfo := do
  let c ← c.insert temp
  return {info with cursor := some c,state := .addedElement}

-- The value that a token stands for, when it has no children. The text is taken out of
-- the lexer.
def leaf (text : Text) : LexValue → Option JsonValue
  | .string => some (.node .string (some text) [])
  | .number => some (.node .number (some text) [])
  | .true => some (jsonNewValue .true)
  | .false => some (jsonNewValue .false)
  | .null => some (jsonNewValue .null)
  | _ => none

def takesText : LexValue → Bool
  | .string | .number => Bool.true
  | _ => Bool.false

def malformed : Except Stop ParsingInfo := .error (.returns .malformedDocument)
def incomplete : Except Stop ParsingInfo := .error (.returns .incompleteDocument)

-- What a state does with the cursor when its assertions hold.
def withCursor (info : ParsingInfo) (asserted : Cursor → Bool) (f : Cursor → Except Stop ParsingInfo) : Except Stop ParsingInfo :=
  match info.cursor with
  | none => .error .aborts
  | some c => if asserted c then f c else .error .aborts

def isObject (c : Cursor) : Bool := c.node.type = .object
def isLabel (c : Cursor) : Bool := c.node.type = .string
def isArray (c : Cursor) : Bool := c.node.type = .array

-- The states that call the lexer, with what it returned.
def onToken (info : ParsingInfo) (value : LexValue) : Except Stop ParsingInfo :=
  match info.state with
  | .start =>
    match value with
    | .beginObject => .ok {info with state := .openObject}
    | .beginArray => .ok {info with state := .openArray}
    | _ => malformed
  | .openedObject => withCursor info isObject fun c =>
    match value with
    | .string => addLabel info c
    | .endObject => endObject info c
    | .more => incomplete
    | _ => malformed
  | .addedField => withCursor info isObject fun c =>
    match value with
    | .valueSeparator => .ok {info with state := .nextField}
    | .endObject => endObject info c
    | .more => incomplete
    | _ => malformed
  | .nextField => withCursor info isObject fun c =>
    match value with
    | .string => addLabel info c
    | .more => incomplete
    | _ => malformed
  | .label => withCursor info isLabel fun _ =>
    match value with
    | .nameSeparator => .ok {info with state := .value}
    | .more => incomplete
    | _ => malformed
  | .value => withCursor info isLabel fun c =>
    match value with
    | .beginObject => .ok {info with state := .openObject}
    | .beginArray => .ok {info with state := .openArray}
    | .more => incomplete
    | _ =>
      match leaf info.lexText value with
      | some temp => addValue (if takesText value then {info with lexText := []} else info) c temp
      | none => malformed
  | .openedArray => withCursor info isArray fun c =>
    match value with
    | .beginObject => .ok {info with state := .openObject}
    | .beginArray => .ok {info with state := .openArray}
    | .endArray => endArray info c (.error (.returns .badTreeStructure))
    | .more => incomplete
    | _ =>
      match leaf info.lexText value with
      | some temp => addElement (if takesText value then {info with lexText := []} else info) c temp
      | none => malformed
  | .addedElement => withCursor info (fun _ => Bool.true) fun c =>
    match value with
    | .valueSeparator => .ok {info with state := .openedArray}
    | .endArray => endArray info c (.ok {info with cursor := c.ascend,state := .finished})
    | .more => incomplete
    | _ => malformed
  | .finished => withCursor info (fun c => c.parents.isEmpty) fun _ =>
    match value with
    | .more => .error (.returns .waitingForEof)
    | _ => malformed
  | .openObject | .openArray => .ok info

-- One round of the loop of json_parse_fragment, with what p points to. The loop ends
-- with an answer and the information to go on from.
def parseRound : ParsingInfo × Text → ParsingInfo × Text ⊕ Stop × ParsingInfo
  | (info,[]) => .inr (.returns (if info.state = .finished then .waitingForEof else .incompleteDocument),info)
  | (info,c :: rest) =>
    match info.state with
    | .openObject =>
      match opening info .object .openedObject with
      | .ok next => .inl (next,c :: rest)
      | .error stop => .inr (stop,info)
    | .openArray =>
      match opening info .array .openedArray with
      | .ok next => .inl (next,c :: rest)
      | .error stop => .inr (stop,info)
    | _ =>
      let r := lexer (c :: rest) info.lexState info.lexText
      let read := {info with lexState := r.state,lexText := r.text}
      match onToken read r.value with
      | .ok next => .inl (next,r.rest)
      | .error stop => .inr (stop,read)

-- json_parse_fragment.
def ParsesFragment (info : ParsingInfo) (buffer : Text) (stop : Stop) (next : ParsingInfo) : Prop :=
  Ends parseRound (info,buffer) (stop,next)

-- What json_parse_document makes of the answer: JSON_OK with the root, or the error.
def documentAnswer : Stop × ParsingInfo → Except Stop (Option JsonValue)
  | (stop,info) =>
    if stop = .returns .waitingForEof ∨ stop = .returns .ok then .ok (info.cursor.map Cursor.node) else .error stop

-- json_parse_document.
def ParsesDocument (text : Text) (answer : Except Stop (Option JsonValue)) : Prop :=
  ∃ stop info, ParsesFragment jsonJpiInit text stop info ∧ answer = documentAnswer (stop,info)

end PcNetwork.Json
