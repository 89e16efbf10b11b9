import PcNetwork.Json.Lexer
import PcNetwork.Json.Printer

namespace PcNetwork.Json

-- The inside of a JSON string as it is stored and printed.
inductive Escaped : Text → Prop where
  | nil : Escaped []
  | plain : c ≠ '\x22' → c ≠ '\x5C' → Escaped rest → Escaped (c :: rest)
  | short : isEscape c → Escaped rest → Escaped ('\x5C' :: c :: rest)
  | unicode : isHex a → isHex b → isHex c → isHex d → Escaped rest → Escaped ('\x5C' :: 'u' :: a :: b :: c :: d :: rest)

def Digits (text : Text) : Prop := ∀ c ∈ text, isDigit c

-- A JSON number: a sign, digits without a leading zero, a fraction, an exponent.
inductive IntPart : Text → Prop where
  | zero : IntPart ['0']
  | digits : isDigit19 c → Digits rest → IntPart (c :: rest)
  | negative_zero : IntPart ['-','0']
  | negative : isDigit19 c → Digits rest → IntPart ('-' :: c :: rest)

inductive FracPart : Text → Prop where
  | none : IntPart text → FracPart text
  | some : IntPart text → isDigit c → Digits rest → FracPart (text ++ '.' :: c :: rest)

inductive Numeral : Text → Prop where
  | none : FracPart text → Numeral text
  | some : FracPart text → isExp e → isDigit c → Digits rest → Numeral (text ++ e :: c :: rest)
  | signed : FracPart text → isExp e → sign = '-' ∨ sign = '+' → isDigit c → Digits rest →
      Numeral (text ++ e :: sign :: c :: rest)

-- What a document is: no other tree of json_values can be told from these.
inductive Document where
  | string (text : {text // Escaped text})
  | number (text : {text // Numeral text})
  | true
  | false
  | null
  | array (elements : List Document)
  | object (fields : List ({text // Escaped text} × Document))

namespace Document

-- What can be the root of a text.
def Container (d : Document) : Prop := (∃ elements, d = .array elements) ∨ ∃ fields, d = .object fields

mutual
def value : Document → JsonValue
  | .string text => .node .string (some text.val) []
  | .number text => .node .number (some text.val) []
  | .true => jsonNewValue .true
  | .false => jsonNewValue .false
  | .null => jsonNewValue .null
  | .array elements => .node .array none (values elements)
  | .object fields => .node .object none (labels fields)

def values : List Document → List JsonValue
  | [] => []
  | d :: rest => d.value :: values rest

def labels : List ({text // Escaped text} × Document) → List JsonValue
  | [] => []
  | (text,d) :: rest => .node .string (some text.val) [d.value] :: labels rest
end

-- The text of a document without any space.
mutual
def print : Document → Text
  | .string text => '\x22' :: text.val ++ ['\x22']
  | .number text => text.val
  | .true => "true".toList
  | .false => "false".toList
  | .null => "null".toList
  | .array elements => '[' :: printElements elements ++ [']']
  | .object fields => '{' :: printFields fields ++ ['}']

def printElements : List Document → Text
  | [] => []
  | [d] => d.print
  | d :: e :: rest => d.print ++ ',' :: printElements (e :: rest)

def printFields : List ({text // Escaped text} × Document) → Text
  | [] => []
  | [(text,d)] => '\x22' :: text.val ++ '\x22' :: ':' :: d.print
  | (text,d) :: f :: rest => '\x22' :: text.val ++ '\x22' :: ':' :: d.print ++ ',' :: printFields (f :: rest)
end

end Document

end PcNetwork.Json
