import PcNetwork.Json.Document

namespace PcNetwork.Json

-- A token is the value that the lexer returns with its text.
abbrev Token := LexValue × Text

def Blank (text : Text) : Prop := ∀ c ∈ text, isSpace c

-- The tokens that the lexer reads from the root on, with spaces at most behind the last.
inductive Spelled : List Token → Text → Prop where
  | nil : Blank text → Spelled [] text
  | cons : lexer bytes .root [] = ⟨value,rest,.root,text⟩ → value ≠ .more → value ≠ .invalidCharacter → Spelled tokens rest →
      Spelled ((value,text) :: tokens) bytes

variable {state next : LexState} {value : LexValue} {c d : Char} {text after rest : Text}

theorem lexer_goes (read : lexChar state c text = .goes next after) : lexer (c :: rest) state text = lexer rest next after := by
  rw [lexer,read]

theorem lexer_gives (read : lexChar state c text = .gives value next after) : lexer (c :: rest) state text = ⟨value,rest,next,after⟩ := by
  rw [lexer,read]

theorem lexer_leaves (read : lexChar state c text = .leaves value next after) :
    lexer (c :: rest) state text = ⟨value,c :: rest,next,after⟩ := by
  rw [lexer,read]

theorem lexer_falls (read : lexChar state c text = .falls after) (hex : isHex d) :
    lexer (c :: d :: rest) state text = lexer rest .unicode4 (after ++ [d]) := by
  rw [lexer,read]
  simp [hex]

-- What is read between the quotation marks.
theorem lexer_string (body : Escaped inside) (text rest : Text) :
    lexer (inside ++ '\x22' :: rest) .string text = ⟨.string,rest,.root,text ++ inside⟩ := by
  induction body generalizing text with
  | nil =>
    rw [List.append_nil]
    exact lexer_gives rfl
  | plain quote backslash _ ih =>
    rw [List.cons_append,lexer_goes (by rw [lexChar,if_neg quote,if_neg backslash]),ih]
    simp
  | short kind _ ih =>
    rw [List.cons_append,List.cons_append,lexer_goes rfl,lexer_goes (by rw [lexChar,if_pos kind]),ih]
    simp
  | unicode first second third fourth _ ih =>
    rw [List.cons_append,List.cons_append,lexer_goes rfl,lexer_goes rfl]
    simp only [List.cons_append]
    rw [lexer_goes (by rw [lexChar,lexHex,if_pos first]),lexer_falls (by rw [lexChar,if_pos second]) third,
      lexer_goes (by rw [lexChar,lexHex,if_pos fourth]),ih]
    simp

theorem char_ne {kind : Char → Bool} (of_kind : kind c) (not_of_kind : kind d = Bool.false) : c ≠ d := by
  rintro rfl
  rw [not_of_kind] at of_kind
  cases of_kind

theorem digit_char (digit : isDigit c) : c ≠ '.' ∧ isExp c = Bool.false ∧ isSpace c = Bool.false ∧ isClosing c = Bool.false := by
  have other : ∀ d, isDigit d = Bool.false → c ≠ d := fun _ => char_ne digit
  simp [isExp,isSpace,isClosing,other '.' rfl,other 'e' rfl,other 'E' rfl,other ' ' rfl,other '\t' rfl,other '\n' rfl,
    other '\r' rfl,other ']' rfl,other '}' rfl,other ',' rfl]

theorem digit_of_digit19 (digit : isDigit19 c) : isDigit c := by
  simp only [isDigit19,isDigit,Bool.and_eq_true,decide_eq_true_eq] at digit ⊢
  exact ⟨Char.le_trans (show '0' ≤ '1' by decide) digit.1,digit.2⟩

theorem lexRoot_space (space : isSpace c) (text : Text) : lexChar .root c text = .goes .root text := by
  simp [lexChar,lexRoot,space]

theorem lexRoot_digit (digit : isDigit19 c) (text : Text) : lexChar .root c text = .goes .int [c] := by
  obtain ⟨_,_,space,_⟩ := digit_char (digit_of_digit19 digit)
  simp [lexChar,lexRoot,space,digit]

theorem lexMinus_digit (digit : isDigit19 c) (text : Text) : lexChar .minus c text = .goes .int (text ++ [c]) := by
  have zero : c ≠ '0' := char_ne digit rfl
  simp [lexChar,zero,digit]

-- The states in which digits are read on.
def Digiting (state : LexState) : Prop := state = .int ∨ state = .frac ∨ state = .exp

theorem lexer_digits (digiting : Digiting state) (digits : Digits ds) (text rest : Text) :
    lexer (ds ++ rest) state text = lexer rest state (text ++ ds) := by
  induction ds generalizing text with
  | nil => simp
  | cons c ds ih =>
    have digit := digits c (List.mem_cons_self ..)
    obtain ⟨point,exponent,_⟩ := digit_char digit
    have read : lexChar state c text = .goes state (text ++ [c]) := by
      rcases digiting with rfl | rfl | rfl <;> simp [lexChar,point,exponent,digit]
    rw [List.cons_append,lexer_goes read,ih (fun c member => digits c (List.mem_cons_of_mem _ member))]
    simp

-- The lexer has read the text of a number from the root on and is in one of the states.
def Reads (text : Text) (states : LexState → Prop) : Prop :=
  ∃ state, states state ∧ ∀ before rest, lexer (text ++ rest) .root before = lexer rest state text

def Whole (state : LexState) : Prop := state = .zero ∨ state = .int
def Fractional (state : LexState) : Prop := Whole state ∨ state = .frac
def Ending (state : LexState) : Prop := Fractional state ∨ state = .exp

theorem int_read (part : IntPart text) : Reads text Whole := by
  cases part with
  | zero => exact ⟨.zero,.inl rfl,fun _ _ => lexer_goes rfl⟩
  | digits digit digits =>
    refine ⟨.int,.inr rfl,fun before rest => ?_⟩
    rw [List.cons_append,lexer_goes (lexRoot_digit digit _),lexer_digits (.inl rfl) digits]
    simp
  | negative_zero =>
    refine ⟨.zero,.inl rfl,fun before rest => ?_⟩
    rw [List.cons_append,lexer_goes rfl]
    exact lexer_goes rfl
  | negative digit digits =>
    refine ⟨.int,.inr rfl,fun before rest => ?_⟩
    rw [List.cons_append,lexer_goes rfl,List.cons_append,lexer_goes (lexMinus_digit digit _),lexer_digits (.inl rfl) digits]
    simp

theorem frac_read (part : FracPart text) : Reads text Fractional := by
  cases part with
  | none int =>
    obtain ⟨state,whole,read⟩ := int_read int
    exact ⟨state,.inl whole,read⟩
  | some int digit digits =>
    obtain ⟨state,whole,read⟩ := int_read int
    refine ⟨.frac,.inr rfl,fun before rest => ?_⟩
    have point : ∀ text, lexChar state '.' text = .goes .fracStart (text ++ ['.']) := by
      rcases whole with rfl | rfl <;> exact fun _ => rfl
    rw [List.append_assoc,read,List.cons_append,List.cons_append,lexer_goes (point _),lexer_goes (by rw [lexChar,if_pos digit]),
      lexer_digits (.inr (.inl rfl)) digits]
    simp

theorem lexChar_exp (fractional : Fractional state) (exponent : isExp c) (text : Text) :
    lexChar state c text = .goes .expStart (text ++ [c]) := by
  have point : c ≠ '.' := char_ne exponent rfl
  rcases fractional with (rfl | rfl) | rfl <;> simp [lexChar,point,exponent]

theorem number_read (numeral : Numeral text) : Reads text Ending := by
  cases numeral with
  | none part =>
    obtain ⟨state,fractional,read⟩ := frac_read part
    exact ⟨state,.inl fractional,read⟩
  | some part exponent digit digits =>
    obtain ⟨state,fractional,read⟩ := frac_read part
    refine ⟨.exp,.inr rfl,fun before rest => ?_⟩
    have no_sign : ∀ d, isDigit d = Bool.false → _ ≠ d := fun _ => char_ne digit
    rw [List.append_assoc,read,List.cons_append,List.cons_append,lexer_goes (lexChar_exp fractional exponent _),
      lexer_goes (by rw [lexChar,if_neg (by simp [no_sign '-' rfl,no_sign '+' rfl]),if_pos digit]),
      lexer_digits (.inr (.inr rfl)) digits]
    simp
  | signed part exponent sign digit digits =>
    obtain ⟨state,fractional,read⟩ := frac_read part
    refine ⟨.exp,.inr rfl,fun before rest => ?_⟩
    rw [List.append_assoc,read,List.cons_append,List.cons_append,List.cons_append,lexer_goes (lexChar_exp fractional exponent _),
      lexer_goes (by rw [lexChar,if_pos sign]),lexer_goes (by rw [lexChar,if_pos digit]),lexer_digits (.inr (.inr rfl)) digits]
    simp

-- A number ends in front of a closing character, or behind a space.
theorem ending_space (ending : Ending state) (space : isSpace c) (text : Text) : lexChar state c text = .gives .number .root text := by
  have other : ∀ d, isSpace d = Bool.false → c ≠ d := fun _ => char_ne space
  have digit : isDigit c = Bool.false := by
    cases same : isDigit c with
    | false => rfl
    | true => rw [(digit_char same).2.2.1] at space; cases space
  rcases ending with ((rfl | rfl) | rfl) | rfl <;>
    simp [lexChar,lexNumberEnd,isExp,other '.' rfl,other 'e' rfl,other 'E' rfl,digit,space]

theorem ending_closing (ending : Ending state) (closing : isClosing c) (text : Text) : lexChar state c text = .leaves .number .root text := by
  have other : ∀ d, isClosing d = Bool.false → c ≠ d := fun _ => char_ne closing
  have digit : isDigit c = Bool.false := by
    cases same : isDigit c with
    | false => rfl
    | true => rw [(digit_char same).2.2.2] at closing; cases closing
  have space : isSpace c = Bool.false := by simp [isSpace,other ' ' rfl,other '\t' rfl,other '\n' rfl,other '\r' rfl]
  rcases ending with ((rfl | rfl) | rfl) | rfl <;>
    simp [lexChar,lexNumberEnd,isExp,other '.' rfl,other 'e' rfl,other 'E' rfl,digit,space,closing]

variable {tokens : List Token}

theorem Spelled.space (space : isSpace c) (spelled : Spelled tokens rest) : Spelled tokens (c :: rest) := by
  cases spelled with
  | nil blank =>
    refine .nil fun d member => ?_
    rcases List.mem_cons.mp member with rfl | behind
    · exact space
    · exact blank d behind
  | cons read more invalid behind =>
    exact .cons (by rw [lexer_goes (lexRoot_space space []),read]) more invalid behind

theorem Spelled.blank (spelled : Spelled tokens rest) (blank : Blank text) : Spelled tokens (text ++ rest) := by
  induction text with
  | nil => exact spelled
  | cons c text ih => exact (ih fun c member => blank c (List.mem_cons_of_mem _ member)).space (blank c (List.mem_cons_self ..))

theorem Spelled.behind_space (spelled : Spelled tokens (c :: rest)) (space : isSpace c) : Spelled tokens rest := by
  cases spelled with
  | nil blank => exact .nil fun d member => blank d (List.mem_cons_of_mem _ member)
  | cons read more invalid behind =>
    rw [lexer_goes (lexRoot_space space [])] at read
    exact .cons read more invalid behind

theorem lexer_blank (blank : Blank text) : lexer text .root [] = ⟨.more,[],.root,[]⟩ := by
  induction text with
  | nil => rfl
  | cons c text ih =>
    rw [lexer_goes (lexRoot_space (blank c (List.mem_cons_self ..)) [])]
    exact ih fun c member => blank c (List.mem_cons_of_mem _ member)

end PcNetwork.Json
