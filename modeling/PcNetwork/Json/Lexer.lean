import PcNetwork.Json.Value

namespace PcNetwork.Json

inductive LexValue where
  | more
  | invalidCharacter
  | true
  | false
  | null
  | beginObject
  | endObject
  | beginArray
  | endArray
  | nameSeparator
  | valueSeparator
  | string
  | number
deriving DecidableEq

-- The states of the lexer in the order of their numbers, 0 to 24 and 60 to 63.
inductive LexState where
  | root
  | string
  | escape
  | unicode1
  | unicode2
  | unicode3
  | unicode4
  | true1
  | true2
  | true3
  | false1
  | false2
  | false3
  | false4
  | null1
  | null2
  | null3
  | minus
  | zero
  | int
  | fracStart
  | frac
  | expStart
  | expSign
  | exp
  | comment
  | lineComment
  | blockComment
  | blockClose
deriving DecidableEq

def isSpace (c : Char) : Bool := c = ' ' || c = '\t' || c = '\n' || c = '\r'
def isDigit19 (c : Char) : Bool := '1' ≤ c && c ≤ '9'
def isDigit (c : Char) : Bool := '0' ≤ c && c ≤ '9'
def isHex (c : Char) : Bool := ('a' ≤ c && c ≤ 'f') || ('A' ≤ c && c ≤ 'F') || ('0' ≤ c && c ≤ '9')
def isExp (c : Char) : Bool := c = 'e' || c = 'E'
-- What may follow a number and is not read with it.
def isClosing (c : Char) : Bool := c = ']' || c = '}' || c = ','
-- What may follow a backslash, u apart.
def isEscape (c : Char) : Bool :=
  c = '\x5C' || c = '\x22' || c = '/' || c = 'b' || c = 'f' || c = 'n' || c = 'r' || c = 't'

-- What the lexer does with one character: it goes on behind it, returns a value with
-- the character read, or returns one with the character left. `falls` is the state of
-- the second hexadecimal digit, which has no break and goes on in that of the third.
inductive LexStep where
  | goes (state : LexState) (text : Text)
  | gives (value : LexValue) (state : LexState) (text : Text)
  | leaves (value : LexValue) (state : LexState) (text : Text)
  | falls (text : Text)

-- A letter of true, false and null.
def lexLetter (expected c : Char) (state next : LexState) (text : Text) : LexStep :=
  if c = expected then .goes next text else .gives .invalidCharacter state text

def lexHex (c : Char) (state next : LexState) (text : Text) : LexStep :=
  if isHex c then .goes next (text ++ [c]) else .leaves .invalidCharacter state text

-- The end of a number: a space is read, a closing character is not.
def lexNumberEnd (c : Char) (state : LexState) (text : Text) : LexStep :=
  if isSpace c then .gives .number .root text
  else if isClosing c then .leaves .number .root text
  else .leaves .invalidCharacter state text

def lexRoot (c : Char) (text : Text) : LexStep :=
  if isSpace c then .goes .root text
  else if isDigit19 c then .goes .int [c]
  else match c with
  | '{' => .gives .beginObject .root text
  | '}' => .gives .endObject .root text
  | '[' => .gives .beginArray .root text
  | ']' => .gives .endArray .root text
  | ':' => .gives .nameSeparator .root text
  | ',' => .gives .valueSeparator .root text
  | '\x22' => .goes .string []
  | 't' => .goes .true1 text
  | 'f' => .goes .false1 text
  | 'n' => .goes .null1 text
  | '-' => .goes .minus ['-']
  | '0' => .goes .zero ['0']
  | '/' => .goes .comment text
  | _ => .gives .invalidCharacter .root text

def lexChar (state : LexState) (c : Char) (text : Text) : LexStep :=
  match state with
  | .root => lexRoot c text
  | .string =>
    if c = '\x22' then .gives .string .root text
    else if c = '\x5C' then .goes .escape (text ++ [c])
    else .goes .string (text ++ [c])
  | .escape =>
    if isEscape c then .goes .string (text ++ [c])
    else if c = 'u' then .goes .unicode1 (text ++ [c])
    else .leaves .invalidCharacter .escape text
  | .unicode1 => lexHex c .unicode1 .unicode2 text
  | .unicode2 => if isHex c then .falls (text ++ [c]) else .leaves .invalidCharacter .unicode2 text
  | .unicode3 => lexHex c .unicode3 .unicode4 text
  | .unicode4 => lexHex c .unicode4 .string text
  | .true1 => lexLetter 'r' c .true1 .true2 text
  | .true2 => lexLetter 'u' c .true2 .true3 text
  | .true3 => if c = 'e' then .gives .true .root text else .gives .invalidCharacter .true3 text
  | .false1 => lexLetter 'a' c .false1 .false2 text
  | .false2 => lexLetter 'l' c .false2 .false3 text
  | .false3 => lexLetter 's' c .false3 .false4 text
  | .false4 => if c = 'e' then .gives .false .root text else .gives .invalidCharacter .false4 text
  | .null1 => lexLetter 'u' c .null1 .null2 text
  | .null2 => lexLetter 'l' c .null2 .null3 text
  | .null3 => if c = 'l' then .gives .null .root text else .gives .invalidCharacter .null3 text
  | .minus =>
    if c = '0' then .goes .zero (text ++ [c])
    else if isDigit19 c then .goes .int (text ++ [c])
    else .leaves .invalidCharacter .minus text
  | .zero =>
    if c = '.' then .goes .fracStart (text ++ [c])
    else if isExp c then .goes .expStart (text ++ [c])
    else lexNumberEnd c .zero text
  | .int =>
    if c = '.' then .goes .fracStart (text ++ [c])
    else if isExp c then .goes .expStart (text ++ [c])
    else if isDigit c then .goes .int (text ++ [c])
    else lexNumberEnd c .int text
  | .fracStart => if isDigit c then .goes .frac (text ++ [c]) else .leaves .invalidCharacter .fracStart text
  | .frac =>
    if isExp c then .goes .expStart (text ++ [c])
    else if isDigit c then .goes .frac (text ++ [c])
    else lexNumberEnd c .frac text
  | .expStart =>
    if c = '-' ∨ c = '+' then .goes .expSign (text ++ [c])
    else if isDigit c then .goes .exp (text ++ [c])
    else .leaves .invalidCharacter .expStart text
  | .expSign => if isDigit c then .goes .exp (text ++ [c]) else .leaves .invalidCharacter .expSign text
  | .exp => if isDigit c then .goes .exp (text ++ [c]) else lexNumberEnd c .exp text
  | .comment =>
    if c = '/' then .goes .lineComment text
    else if c = '*' then .goes .blockComment text
    else .leaves .invalidCharacter .comment text
  | .lineComment => if c = '\n' ∨ c = '\r' then .goes .root text else .goes .lineComment text
  | .blockComment => if c = '*' then .goes .blockClose text else .goes .blockComment text
  | .blockClose => if c = '/' then .goes .root text else .goes .blockComment text

-- `rest` is what p points to. With LEX_MORE p is NULL.
structure LexResult where
  value : LexValue
  rest : Text
  state : LexState
  text : Text

def lexer : Text → LexState → Text → LexResult
  | [],state,text => ⟨.more,[],state,text⟩
  | c :: rest,state,text =>
    match lexChar state c text with
    | .goes next text => lexer rest next text
    | .gives value next text => ⟨value,rest,next,text⟩
    | .leaves value next text => ⟨value,c :: rest,next,text⟩
    | .falls text =>
      match rest with
      | [] => ⟨.invalidCharacter,[],.unicode3,text⟩
      | d :: behind =>
        if isHex d then lexer behind .unicode4 (text ++ [d])
        else ⟨.invalidCharacter,d :: behind,.unicode3,text⟩

end PcNetwork.Json
