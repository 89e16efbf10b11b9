import Mathlib.Data.List.Basic

namespace PcNetwork.Json

-- A string is the list of its characters in front of the NUL, a character one byte.
-- The backslash and the quotation mark are written \x5C and \x22.
abbrev Text := List Char

inductive JsonType where
  | string
  | number
  | object
  | array
  | true
  | false
  | null
deriving DecidableEq

-- A json_value: its type, its text (none for NULL) and its children in order. What the
-- pointers to parent and siblings say is where a node stands in these lists.
inductive JsonValue where
  | node (type : JsonType) (text : Option Text) (children : List JsonValue)

namespace JsonValue

def type : JsonValue → JsonType
  | node type _ _ => type

def text : JsonValue → Option Text
  | node _ text _ => text

def children : JsonValue → List JsonValue
  | node _ _ children => children

-- The child goes behind child_end.
def append (parent child : JsonValue) : JsonValue := .node parent.type parent.text (parent.children ++ [child])

end JsonValue

inductive JsonError where
  | ok
  | incompleteDocument
  | waitingForEof
  | malformedDocument
  | incompatibleType
  | memory
  | illegalCharacter
  | badTreeStructure
  | maximumLength
  | unknownProblem
deriving DecidableEq

def escapeChar : Char → Text
  | '\x5C' => ['\x5C','\x5C']
  | '\x22' => ['\x5C','\x22']
  | '/' => ['\x5C','/']
  | '\x08' => ['\x5C','b']
  | '\x0C' => ['\x5C','f']
  | '\n' => ['\x5C','n']
  | '\r' => ['\x5C','r']
  | '\t' => ['\x5C','t']
  | c => [c]

def jsonEscape (text : Text) : Text := text.flatMap escapeChar

def jsonUnescape : Text → Text
  | [] => []
  | '\x5C' :: [] => ['\x5C']
  | '\x5C' :: c :: rest =>
    match c with
    | '\x22' => '\x22' :: jsonUnescape rest
    | '\x5C' => '\x5C' :: jsonUnescape rest
    | '/' => '/' :: jsonUnescape rest
    | 'b' => '\x08' :: jsonUnescape rest
    | 'f' => '\x0C' :: jsonUnescape rest
    | 'n' => '\n' :: jsonUnescape rest
    | 'r' => '\r' :: jsonUnescape rest
    | 't' => '\t' :: jsonUnescape rest
    | c => '\x5C' :: c :: jsonUnescape rest
  | c :: rest => c :: jsonUnescape rest

def jsonNewValue (type : JsonType) : JsonValue := .node type none []
def jsonNewString (text : Text) : JsonValue := .node .string (some (jsonEscape text)) []
def jsonNewNumber (text : Text) : JsonValue := .node .number (some text) []
def jsonNewObject : JsonValue := jsonNewValue .object
def jsonNewArray : JsonValue := jsonNewValue .array
def jsonNewNull : JsonValue := jsonNewValue .null
def jsonNewTrue : JsonValue := jsonNewValue .true
def jsonNewFalse : JsonValue := jsonNewValue .false

-- Whether the child may stand below the parent. A label takes any value, an object takes
-- labels only.
def accepts (parent child : JsonValue) : Bool :=
  match parent.type with
  | .string | .array =>
    match child.type with
    | .string | .number | .true | .false | .null => child.children.isEmpty
    | .object | .array => Bool.true
  | .object => child.type = .string
  | .number | .true | .false | .null => Bool.false

def jsonInsertChild (parent child : JsonValue) : Except JsonError JsonValue :=
  if accepts parent child then .ok (parent.append child) else .error .badTreeStructure

def jsonInsertPairIntoObject (parent : JsonValue) (textLabel : Text) (value : JsonValue) : Except JsonError JsonValue := do
  let label ← jsonInsertChild (jsonNewString textLabel) value
  jsonInsertChild parent label

-- The labels of an object are compared as they are stored, that is escaped.
def jsonFindFirstLabel (object : JsonValue) (textLabel : Text) : Option JsonValue :=
  object.children.find? fun label => label.text = some textLabel

end PcNetwork.Json
