import PcNetwork.Json.Tokens

namespace PcNetwork.Json

namespace Document

-- The tokens of a document in the order in which they are written.
mutual
def tokens : Document → List Token
  | .string text => [(.string,text.val)]
  | .number text => [(.number,text.val)]
  | .true => [(.true,[])]
  | .false => [(.false,[])]
  | .null => [(.null,[])]
  | .array elements => (.beginArray,[]) :: elementTokens elements ++ [(.endArray,[])]
  | .object fields => (.beginObject,[]) :: fieldTokens fields ++ [(.endObject,[])]

def elementTokens : List Document → List Token
  | [] => []
  | [d] => d.tokens
  | d :: e :: rest => d.tokens ++ (.valueSeparator,[]) :: elementTokens (e :: rest)

def fieldTokens : List ({text // Escaped text} × Document) → List Token
  | [] => []
  | [(text,d)] => (.string,text.val) :: (.nameSeparator,[]) :: d.tokens
  | (text,d) :: f :: rest => (.string,text.val) :: (.nameSeparator,[]) :: d.tokens ++ (.valueSeparator,[]) :: fieldTokens (f :: rest)
end

end Document

-- How a token is written.
def spelling : Token → Text
  | (.string,text) => '\x22' :: text ++ ['\x22']
  | (.number,text) => text
  | (.true,_) => "true".toList
  | (.false,_) => "false".toList
  | (.null,_) => "null".toList
  | (.beginObject,_) => ['{']
  | (.endObject,_) => ['}']
  | (.beginArray,_) => ['[']
  | (.endArray,_) => [']']
  | (.nameSeparator,_) => [':']
  | (.valueSeparator,_) => [',']
  | (.more,_) | (.invalidCharacter,_) => []

-- A text of these tokens with any spaces between them.
inductive Spaced : List Token → Text → Prop where
  | nil : Blank text → Spaced [] text
  | cons : Blank gap → Spaced tokens rest → Spaced (token :: tokens) (gap ++ spelling token ++ rest)

-- What may follow a number.
def closes (token : Token) : Prop := token.1 = .endObject ∨ token.1 = .endArray ∨ token.1 = .valueSeparator

-- Tokens with the texts that the lexer gives them, where every number can end.
inductive Fit : List Token → Prop where
  | nil : Fit []
  | string : Escaped text → Fit tokens → Fit ((.string,text) :: tokens)
  | number : Numeral text → closes next → Fit (next :: tokens) → Fit ((.number,text) :: next :: tokens)
  | sign : value ≠ .more → value ≠ .invalidCharacter → value ≠ .string → value ≠ .number → Fit tokens → Fit ((value,[]) :: tokens)

variable {c : Char} {text rest gap : Text} {value : LexValue} {next : Token} {more : List Token}

section Spellings
variable {token : Token} {tokens : List Token}

-- A number can end in front of it.
def Delimited (rest : Text) : Prop := ∃ c behind, rest = c :: behind ∧ (isClosing c ∨ isSpace c)

theorem Fit.mark (value : LexValue) (fit : Fit tokens)
    (other : value ≠ .more ∧ value ≠ .invalidCharacter ∧ value ≠ .string ∧ value ≠ .number) : Fit ((value,[]) :: tokens) :=
  .sign other.1 other.2.1 other.2.2.1 other.2.2.2 fit

theorem Spaced.delimited (spaced : Spaced (next :: tokens) text) (closing : closes next) : Delimited text := by
  cases spaced with
  | cons blank behind =>
    rename_i gap rest
    cases gap with
    | nil =>
      obtain ⟨value,text⟩ := next
      obtain rfl | rfl | rfl : value = .endObject ∨ value = .endArray ∨ value = .valueSeparator := closing
      · exact ⟨_,_,rfl,.inl rfl⟩
      · exact ⟨_,_,rfl,.inl rfl⟩
      · exact ⟨_,_,rfl,.inl rfl⟩
    | cons c gap => exact ⟨c,_,rfl,.inr (blank c (List.mem_cons_self ..))⟩

theorem spelled_number (numeral : Numeral text) (behind : Spelled more rest) (delimited : Delimited rest) :
    Spelled ((.number,text) :: more) (text ++ rest) := by
  obtain ⟨state,ending,read⟩ := number_read numeral
  obtain ⟨c,last,rfl,closing | space⟩ := delimited
  · exact .cons (by rw [read,lexer_leaves (ending_closing ending closing text)]) (by simp) (by simp) behind
  · exact .cons (by rw [read,lexer_gives (ending_space ending space text)]) (by simp) (by simp) (behind.behind_space space)

theorem spelled_string (body : Escaped text) (behind : Spelled more rest) :
    Spelled ((.string,text) :: more) ('\x22' :: text ++ '\x22' :: rest) := by
  refine .cons ?_ (by simp) (by simp) behind
  rw [List.cons_append,lexer_goes rfl,lexer_string body]
  rfl

-- What is written with spaces between the tokens, the lexer reads as these.
theorem Fit.spelled (fit : Fit tokens) (spaced : Spaced tokens text) : Spelled tokens text := by
  induction fit generalizing text with
  | nil =>
    cases spaced with
    | nil blank => exact .nil blank
  | string body _ ih =>
    cases spaced with
    | cons blank behind =>
      have string := (spelled_string body (ih behind)).blank blank
      simpa [spelling] using string
  | number numeral closing _ ih =>
    cases spaced with
    | cons blank behind =>
      rw [List.append_assoc]
      exact (spelled_number numeral (ih behind) (behind.delimited closing)).blank blank
  | sign more valid string number _ ih =>
    rename_i value tokens _
    cases spaced with
    | cons blank behind =>
      rw [List.append_assoc]
      refine Spelled.blank ?_ blank
      cases value with
      | more => exact absurd rfl more
      | invalidCharacter => exact absurd rfl valid
      | string => exact absurd rfl string
      | number => exact absurd rfl number
      | _ => exact .cons rfl more valid (ih behind)

theorem spelling_spaced (tokens : List Token) : Spaced tokens (tokens.flatMap spelling) := by
  induction tokens with
  | nil => exact .nil nofun
  | cons token tokens ih =>
    have blank : Blank [] := nofun
    exact .cons blank ih

end Spellings

namespace Document

mutual
theorem print_tokens (d : Document) : d.print = d.tokens.flatMap spelling := by
  match d with
  | .string _ | .number _ | .true | .false | .null => simp [print,tokens,spelling]
  | .array elements => simp [print,tokens,spelling,printElements_tokens elements]
  | .object fields => simp [print,tokens,spelling,printFields_tokens fields]

theorem printElements_tokens (elements : List Document) : printElements elements = (elementTokens elements).flatMap spelling := by
  match elements with
  | [] => rfl
  | [d] => exact print_tokens d
  | d :: e :: rest => simp [printElements,elementTokens,spelling,print_tokens d,printElements_tokens (e :: rest)]

theorem printFields_tokens (fields : List ({text // Escaped text} × Document)) :
    printFields fields = (fieldTokens fields).flatMap spelling := by
  match fields with
  | [] => rfl
  | [(_,d)] => simp [printFields,fieldTokens,spelling,print_tokens d]
  | (_,d) :: f :: rest => simp [printFields,fieldTokens,spelling,print_tokens d,printFields_tokens (f :: rest)]
end

mutual
theorem tokens_fit (d : Document) (more : List Token) (fit : Fit more) (ends : (∃ next rest, more = next :: rest ∧ closes next) ∨ d.Container) :
    Fit (d.tokens ++ more) := by
  match d with
  | .string text => exact .string text.property fit
  | .number text =>
    obtain ⟨next,rest,rfl,closing⟩ | ⟨_,same⟩ | ⟨_,same⟩ := ends
    · exact .number text.property closing fit
    · cases same
    · cases same
  | .true => exact fit.mark .true (by simp)
  | .false => exact fit.mark .false (by simp)
  | .null => exact fit.mark .null (by simp)
  | .array elements =>
    have inside := elements_fit elements _ (fit.mark .endArray (by simp)) ⟨_,_,rfl,.inr (.inl rfl)⟩
    simpa [tokens] using inside.mark .beginArray (by simp)
  | .object fields =>
    have inside := fields_fit fields _ (fit.mark .endObject (by simp)) ⟨_,_,rfl,.inl rfl⟩
    simpa [tokens] using inside.mark .beginObject (by simp)

theorem elements_fit (elements : List Document) (more : List Token) (fit : Fit more) (ends : ∃ next rest, more = next :: rest ∧ closes next) :
    Fit (elementTokens elements ++ more) := by
  match elements with
  | [] => exact fit
  | [d] => exact tokens_fit d more fit (.inl ends)
  | d :: e :: others =>
    have following := elements_fit (e :: others) more fit ends
    simpa [elementTokens] using tokens_fit d _ (following.mark .valueSeparator (by simp)) (.inl ⟨_,_,rfl,.inr (.inr rfl)⟩)

theorem fields_fit (fields : List ({text // Escaped text} × Document)) (more : List Token) (fit : Fit more)
    (ends : ∃ next rest, more = next :: rest ∧ closes next) : Fit (fieldTokens fields ++ more) := by
  match fields with
  | [] => exact fit
  | [(text,d)] =>
    have value := tokens_fit d more fit (.inl ends)
    simpa [fieldTokens] using Fit.string text.property (value.mark .nameSeparator (by simp))
  | (text,d) :: f :: others =>
    have following := fields_fit (f :: others) more fit ends
    have value := tokens_fit d _ (following.mark .valueSeparator (by simp)) (.inl ⟨_,_,rfl,.inr (.inr rfl)⟩)
    simpa [fieldTokens] using Fit.string text.property (value.mark .nameSeparator (by simp))
end

end Document

end PcNetwork.Json
