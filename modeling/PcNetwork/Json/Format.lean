import PcNetwork.Json.RoundTrip

namespace PcNetwork.Json

-- The indentation is an unsigned int.
def tabs (indentation : UInt32) : Text := List.replicate indentation.toNat '\t'

mutual
-- The loop of json_format_string. What it copies behind the end of the text is the NUL.
def formatOutside (indentation : UInt32) : Text → Text
  | [] => []
  | c :: rest =>
    if isSpace c then formatOutside indentation rest
    else match c with
    | '{' => '{' :: tabs (indentation+1) ++ formatOutside (indentation+1) rest
    | '}' => '\n' :: tabs (indentation-1) ++ '}' :: formatOutside (indentation-1) rest
    | ':' => ':' :: ' ' :: formatOutside indentation rest
    | ',' => ',' :: '\n' :: tabs indentation ++ formatOutside indentation rest
    | '\x22' => '\x22' :: formatInside indentation rest
    | c => c :: formatOutside indentation rest

-- The inner loop. Behind \x5C\x22 it copies one more character whatever it is.
def formatInside (indentation : UInt32) : Text → Text
  | [] => []
  | c :: rest =>
    if c = '\x5C' then
      match rest with
      | [] => [c]
      | '\x22' :: d :: rest => c :: '\x22' :: d :: formatInside indentation rest
      | d :: rest => c :: d :: formatInside indentation rest
    else if c = '\x22' then c :: formatOutside indentation rest
    else c :: formatInside indentation rest
end

def jsonFormatString (text : Text) : Text := formatOutside 0 text

-- The loop of json_strip_white_spaces with text[in - 1]. It writes over the text it
-- reads, but not over a character that it still looks at.
def stripFrom (inside : Bool) (previous : Char) : Text → Text
  | [] => []
  | c :: rest =>
    if isSpace c then
      if inside then c :: stripFrom inside c rest else stripFrom inside c rest
    else if c = '\x22' then c :: stripFrom (if inside then previous = '\x5C' else Bool.true) c rest
    else c :: stripFrom inside c rest

def jsonStripWhiteSpaces (text : Text) : Text := stripFrom Bool.false '\x00' text

-- The strings that json_format_string copies: behind \x5C\x22 there is neither the end nor
-- another escape.
def calm : Text → Bool
  | [] => Bool.true
  | c :: rest =>
    if c = '\x5C' then
      match rest with
      | [] => Bool.true
      | ['\x22'] => Bool.false
      | '\x22' :: d :: rest => d ≠ '\x5C' && calm rest
      | _ :: rest => calm rest
    else calm rest

-- The strings of which json_strip_white_spaces finds the end.
def unslashed (text : Text) : Bool := text.getLast? ≠ some '\x5C'

def AllStrings (p : Text → Bool) (tokens : List Token) : Prop := ∀ text, (LexValue.string,text) ∈ tokens → p text

-- The text that json_format_string makes of tokens.
def formatted (indentation : UInt32) : List Token → Text
  | [] => []
  | (.beginObject,_) :: tokens => '{' :: tabs (indentation+1) ++ formatted (indentation+1) tokens
  | (.endObject,_) :: tokens => '\n' :: tabs (indentation-1) ++ '}' :: formatted (indentation-1) tokens
  | (.nameSeparator,_) :: tokens => ':' :: ' ' :: formatted indentation tokens
  | (.valueSeparator,_) :: tokens => ',' :: '\n' :: tabs indentation ++ formatted indentation tokens
  | token :: tokens => spelling token ++ formatted indentation tokens

variable {text rest gap : Text} {c : Char} {tokens : List Token} {n : UInt32}

theorem hex_plain (hex : isHex c) : c ≠ '\x22' ∧ c ≠ '\x5C' := ⟨char_ne hex rfl,char_ne hex rfl⟩

-- Behind two characters of an escape stands the inside of a string again.
theorem Escaped.behind (escaped : Escaped ('\x5C' :: c :: rest)) : Escaped rest := by
  cases escaped with
  | plain _ backslash _ => exact absurd rfl backslash
  | short _ escaped => exact escaped
  | unicode a b c d escaped =>
    exact .plain (hex_plain a).1 (hex_plain a).2 (.plain (hex_plain b).1 (hex_plain b).2
      (.plain (hex_plain c).1 (hex_plain c).2 (.plain (hex_plain d).1 (hex_plain d).2 escaped)))

theorem Escaped.plain_head (escaped : Escaped (c :: rest)) (backslash : c ≠ '\x5C') : c ≠ '\x22' ∧ Escaped rest := by
  cases escaped with
  | plain quote _ escaped => exact ⟨quote,escaped⟩
  | short _ _ => exact absurd rfl backslash
  | unicode _ _ _ _ _ => exact absurd rfl backslash

theorem inside_plain (quote : c ≠ '\x22') (backslash : c ≠ '\x5C') : formatInside n (c :: rest) = c :: formatInside n rest := by
  rw [formatInside.eq_def]
  simp [quote,backslash]

theorem inside_end : formatInside n ('\x22' :: rest) = '\x22' :: formatOutside n rest := by
  rw [formatInside.eq_def]
  simp

-- A calm string is copied up to its end.
theorem inside_copied (escaped : Escaped text) (is_calm : calm text) (n : UInt32) (rest : Text) :
    formatInside n (text ++ '\x22' :: rest) = text ++ '\x22' :: formatOutside n rest := by
  fun_induction calm text with
  | case1 => exact inside_end
  | case2 =>
    cases escaped with
    | plain _ backslash _ => exact absurd rfl backslash
  | case3 => cases is_calm
  | case4 d rest ih =>
    simp only [Bool.and_eq_true,decide_eq_true_eq] at is_calm
    obtain ⟨_,escaped⟩ := escaped.behind.plain_head is_calm.1
    simp [formatInside,ih escaped is_calm.2]
  | case5 d rest single quoted ih =>
    have other : d ≠ '\x22' := by
      rintro rfl
      cases rest with
      | nil => exact single rfl rfl
      | cons e rest => exact quoted e rest rfl rfl
    simp [formatInside,other,ih escaped.behind is_calm]
  | case6 c rest backslash ih =>
    obtain ⟨quote,escaped⟩ := escaped.plain_head backslash
    rw [List.cons_append,inside_plain quote backslash,ih escaped is_calm]
    rfl

-- The characters of which numbers are made.
def Numeric (c : Char) : Prop := isDigit c ∨ c = '-' ∨ c = '+' ∨ c = '.' ∨ isExp c

theorem Digits.numeric (digits : Digits text) : ∀ c ∈ text, Numeric c := fun c member => .inl (digits c member)

theorem numeric_cons (first : Numeric c) (others : ∀ d ∈ text, Numeric d) : ∀ d ∈ c :: text, Numeric d :=
  List.forall_mem_cons.mpr ⟨first,others⟩

theorem IntPart.numeric (part : IntPart text) : ∀ c ∈ text, Numeric c := by
  cases part with
  | zero => exact numeric_cons (.inl rfl) nofun
  | digits digit digits => exact numeric_cons (.inl (digit_of_digit19 digit)) digits.numeric
  | negative_zero => exact numeric_cons (.inr (.inl rfl)) (numeric_cons (.inl rfl) nofun)
  | negative digit digits => exact numeric_cons (.inr (.inl rfl)) (numeric_cons (.inl (digit_of_digit19 digit)) digits.numeric)

theorem FracPart.numeric (part : FracPart text) : ∀ c ∈ text, Numeric c := by
  cases part with
  | none int => exact int.numeric
  | some int digit digits =>
    have fraction := numeric_cons (.inr (.inr (.inr (.inl rfl)))) (numeric_cons (.inl digit) digits.numeric)
    exact List.forall_mem_append.mpr ⟨int.numeric,fraction⟩

theorem Numeral.numeric (numeral : Numeral text) : ∀ c ∈ text, Numeric c := by
  have exponent_numeric {e : Char} (exponent : isExp e) : Numeric e := .inr (.inr (.inr (.inr exponent)))
  cases numeral with
  | none part => exact part.numeric
  | some part exponent digit digits =>
    have behind := numeric_cons (exponent_numeric exponent) (numeric_cons (.inl digit) digits.numeric)
    exact List.forall_mem_append.mpr ⟨part.numeric,behind⟩
  | signed part exponent sign digit digits =>
    have digits := numeric_cons (.inl digit) digits.numeric
    rcases sign with rfl | rfl
    · have behind := numeric_cons (exponent_numeric exponent) (numeric_cons (.inr (.inl rfl)) digits)
      exact List.forall_mem_append.mpr ⟨part.numeric,behind⟩
    · have behind := numeric_cons (exponent_numeric exponent) (numeric_cons (.inr (.inr (.inl rfl))) digits)
      exact List.forall_mem_append.mpr ⟨part.numeric,behind⟩

theorem numeric_char (numeric : Numeric c) : isSpace c = Bool.false ∧ c ≠ '{' ∧ c ≠ '}' ∧ c ≠ ':' ∧ c ≠ ',' ∧ c ≠ '\x22' := by
  rcases numeric with digit | rfl | rfl | rfl | exponent
  · exact ⟨(digit_char digit).2.2.1,char_ne digit rfl,char_ne digit rfl,char_ne digit rfl,char_ne digit rfl,char_ne digit rfl⟩
  · decide
  · decide
  · decide
  · obtain rfl | rfl : c = 'e' ∨ c = 'E' := by simpa [isExp] using exponent
    · decide
    · decide

theorem outside_blank (blank : Blank gap) (n : UInt32) (rest : Text) : formatOutside n (gap ++ rest) = formatOutside n rest := by
  induction gap with
  | nil => rfl
  | cons c gap ih =>
    obtain ⟨space,blank⟩ := List.forall_mem_cons.mp blank
    rw [List.cons_append,formatOutside.eq_def]
    simp only [if_pos space]
    exact ih blank

theorem outside_numeric (numeric : ∀ c ∈ text, Numeric c) (n : UInt32) (rest : Text) :
    formatOutside n (text ++ rest) = text ++ formatOutside n rest := by
  induction text with
  | nil => rfl
  | cons c text ih =>
    obtain ⟨first,others⟩ := List.forall_mem_cons.mp numeric
    obtain ⟨space,opened,closed,colon,comma,quote⟩ := numeric_char first
    rw [List.cons_append,formatOutside.eq_def]
    simp [space,ih others]

theorem AllStrings.behind {p : Text → Bool} {token : Token} (all : AllStrings p (token :: tokens)) : AllStrings p tokens :=
  fun text member => all text (List.mem_cons_of_mem _ member)

-- What json_format_string makes of a text of these tokens, whatever spaces there are in it.
theorem format_spaced (fit : Fit tokens) (spaced : Spaced tokens text) (all : AllStrings calm tokens) (n : UInt32) :
    formatOutside n text = formatted n tokens := by
  induction fit generalizing text n with
  | nil =>
    cases spaced with
    | nil blank =>
      have same := outside_blank blank n []
      rwa [List.append_nil] at same
  | string body _ ih =>
    cases spaced with
    | cons blank behind =>
      have is_calm := all _ (List.mem_cons_self ..)
      have copied := inside_copied body is_calm n
      rw [List.append_assoc,outside_blank blank]
      show _ = '\x22' :: _ ++ ['\x22'] ++ formatted n _
      rw [← ih behind all.behind n]
      simp [spelling,formatOutside,isSpace,copied]
  | number numeral closing _ ih =>
    cases spaced with
    | cons blank behind =>
      rw [List.append_assoc,outside_blank blank]
      show _ = _ ++ formatted n _
      rw [← ih behind all.behind n]
      exact outside_numeric numeral.numeric n _
  | sign more valid string number _ ih =>
    rename_i value tokens _
    cases spaced with
    | cons blank behind =>
      have same := ih behind all.behind
      rw [List.append_assoc,outside_blank blank]
      cases value with
      | more => exact absurd rfl more
      | invalidCharacter => exact absurd rfl valid
      | string => exact absurd rfl string
      | number => exact absurd rfl number
      | _ => simp [spelling,formatOutside,isSpace,formatted,same]

theorem tabs_blank (n : UInt32) : Blank (tabs n) := by
  intro c member
  rw [List.eq_of_mem_replicate member]
  rfl

theorem Spaced.blank (spaced : Spaced tokens text) (blank : Blank gap) : Spaced tokens (gap ++ text) := by
  cases spaced with
  | nil behind => exact .nil (List.forall_mem_append.mpr ⟨blank,behind⟩)
  | cons before behind =>
    rw [List.append_assoc,← List.append_assoc,← List.append_assoc]
    exact .cons (List.forall_mem_append.mpr ⟨blank,before⟩) behind

theorem Spaced.next {token : Token} (spaced : Spaced tokens text) : Spaced (token :: tokens) (spelling token ++ text) := by
  have blank : Blank [] := nofun
  exact .cons blank spaced

-- What it makes has the same tokens.
theorem formatted_spaced (tokens : List Token) (n : UInt32) : Spaced tokens (formatted n tokens) := by
  fun_induction formatted n tokens with
  | case1 => exact .nil nofun
  | case2 n text tokens ih => exact (ih.blank (tabs_blank (n+1))).next
  | case3 n text tokens ih =>
    have line : Blank ('\n' :: tabs (n-1)) := List.forall_mem_cons.mpr ⟨rfl,tabs_blank (n-1)⟩
    have brace : Spaced ((.endObject,text) :: tokens) ('}' :: formatted (n-1) tokens) := ih.next
    exact brace.blank line
  | case4 n text tokens ih =>
    have space : Blank [' '] := List.forall_mem_cons.mpr ⟨rfl,nofun⟩
    exact (ih.blank space).next
  | case5 n text tokens ih =>
    have line : Blank ('\n' :: tabs n) := List.forall_mem_cons.mpr ⟨rfl,tabs_blank n⟩
    exact (ih.blank line).next
  | case6 n token tokens _ _ _ _ ih => exact ih.next

namespace Document

-- A text of the document comes out of json_format_string with the tokens that it had and the
-- spaces that the function gives it, and once more with nothing changed.
theorem format_parses (d : Document) (container : d.Container) (all : AllStrings calm d.tokens) (spaced : Spaced d.tokens text) :
    jsonFormatString text = formatted 0 d.tokens ∧ jsonFormatString (jsonFormatString text) = jsonFormatString text ∧
      ∀ answer, ParsesDocument (jsonFormatString text) answer ↔ answer = .ok (some d.value) := by
  have fit := tokens_fit d [] .nil (.inr container)
  rw [List.append_nil] at fit
  have once : jsonFormatString text = formatted 0 d.tokens := format_spaced fit spaced all 0
  have again := formatted_spaced d.tokens 0
  refine ⟨once,?_,?_⟩
  · rw [once]
    exact format_spaced fit again all 0
  · rw [once]
    exact spaced_parses d container again

-- An object with a name that holds an escaped quotation mark.
def quoted : Document := .object [(⟨['\x5C','\x22','a'],.short rfl (.plain (by decide) (by decide) .nil)⟩,.null)]

theorem quoted_all : AllStrings calm quoted.tokens ∧ AllStrings unslashed quoted.tokens := by
  constructor
  · intro text member
    have same : text = ['\x5C','\x22','a'] := by simpa [quoted,tokens,fieldTokens] using member
    subst same
    rfl
  · intro text member
    have same : text = ['\x5C','\x22','a'] := by simpa [quoted,tokens,fieldTokens] using member
    subst same
    rfl

theorem format_parses_quoted :
    jsonFormatString ['{','\x22','\x5C','\x22','a','\x22',':','n','u','l','l','}'] =
        ['{','\t','\x22','\x5C','\x22','a','\x22',':',' ','n','u','l','l','\n','}'] ∧
      ParsesDocument ['{','\t','\x22','\x5C','\x22','a','\x22',':',' ','n','u','l','l','\n','}'] (.ok (some quoted.value)) := by
  obtain ⟨once,_,parsed⟩ := format_parses quoted (.inr ⟨_,rfl⟩) quoted_all.1 (spelling_spaced quoted.tokens)
  rw [once] at parsed
  exact ⟨once,(parsed _).mpr rfl⟩

end Document

end PcNetwork.Json
