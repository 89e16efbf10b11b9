import PcNetwork.Json.Tokens

namespace PcNetwork.Json
variable {state next : LexState} {value : LexValue} {c : Char} {text after rest bytes : Text}

theorem Escaped.append (first : Escaped text) (second : Escaped after) : Escaped (text ++ after) := by
  induction first with
  | nil => exact second
  | plain quote backslash _ ih => exact .plain quote backslash ih
  | short kind _ ih => exact .short kind ih
  | unicode a b c d _ ih => exact .unicode a b c d ih

theorem Digits.snoc (digits : Digits text) (digit : isDigit c) : Digits (text ++ [c]) := by
  intro d member
  rcases List.mem_append.mp member with before | last
  · exact digits d before
  · rw [List.mem_singleton.mp last]
    exact digit

-- What has been read of a text in each state of the lexer.
def Begun : LexState → Text → Prop
  | .string,text => Escaped text
  | .escape,text => ∃ s, Escaped s ∧ text = s ++ ['\x5C']
  | .unicode1,text => ∃ s, Escaped s ∧ text = s ++ ['\x5C','u']
  | .unicode2,text => ∃ s a, Escaped s ∧ isHex a ∧ text = s ++ ['\x5C','u',a]
  | .unicode3,text => ∃ s a b, Escaped s ∧ isHex a ∧ isHex b ∧ text = s ++ ['\x5C','u',a,b]
  | .unicode4,text => ∃ s a b c, Escaped s ∧ isHex a ∧ isHex b ∧ isHex c ∧ text = s ++ ['\x5C','u',a,b,c]
  | .minus,text => text = ['-']
  | .zero,text => text = ['0'] ∨ text = ['-','0']
  | .int,text => ∃ c digits, isDigit19 c ∧ Digits digits ∧ (text = c :: digits ∨ text = '-' :: c :: digits)
  | .fracStart,text => ∃ n, IntPart n ∧ text = n ++ ['.']
  | .frac,text => ∃ n c digits, IntPart n ∧ isDigit c ∧ Digits digits ∧ text = n ++ '.' :: c :: digits
  | .expStart,text => ∃ n e, FracPart n ∧ isExp e ∧ text = n ++ [e]
  | .expSign,text => ∃ n e sign, FracPart n ∧ isExp e ∧ (sign = '-' ∨ sign = '+') ∧ text = n ++ [e,sign]
  | .exp,text => ∃ n e sign c digits, FracPart n ∧ isExp e ∧ (sign = [] ∨ sign = ['-'] ∨ sign = ['+']) ∧ isDigit c ∧ Digits digits ∧
      text = n ++ e :: sign ++ c :: digits
  | _,_ => True

-- A string or a number comes with the text of one.
def Genuine (value : LexValue) (text : Text) : Prop := (value = .string → Escaped text) ∧ (value = .number → Numeral text)

theorem Genuine.other (string : value ≠ .string) (number : value ≠ .number) : Genuine value text :=
  ⟨fun same => absurd same string,fun same => absurd same number⟩

theorem zero_int (begun : Begun .zero text) : IntPart text := by
  rcases begun with rfl | rfl
  · exact .zero
  · exact .negative_zero

theorem int_int (begun : Begun .int text) : IntPart text := by
  obtain ⟨c,digits,first,rest,rfl | rfl⟩ := begun
  · exact .digits first rest
  · exact .negative first rest

theorem frac_frac (begun : Begun .frac text) : FracPart text := by
  obtain ⟨n,c,digits,int,first,rest,rfl⟩ := begun
  exact .some int first rest

theorem exp_numeral (begun : Begun .exp text) : Numeral text := by
  obtain ⟨n,e,sign,c,digits,part,exponent,rfl | rfl | rfl,first,rest,rfl⟩ := begun
  · simpa using Numeral.some part exponent first rest
  · simpa using Numeral.signed part exponent (.inl rfl) first rest
  · simpa using Numeral.signed part exponent (.inr rfl) first rest

def Outcome : LexStep → Prop
  | .goes next text => Begun next text
  | .gives value _ text | .leaves value _ text => Genuine value text
  | .falls text => Begun .unicode3 text

theorem letter_sound {expected : Char} (begun : Begun next text) : Outcome (lexLetter expected c state next text) := by
  unfold lexLetter
  split
  · exact begun
  · exact .other (by simp) (by simp)

theorem hex_sound (begun : isHex c → Begun next (text ++ [c])) : Outcome (lexHex c state next text) := by
  unfold lexHex
  split
  · rename_i hex
    exact begun hex
  · exact .other (by simp) (by simp)

theorem end_sound (numeral : Numeral text) : Outcome (lexNumberEnd c state text) := by
  unfold lexNumberEnd
  split
  · exact ⟨by simp,fun _ => numeral⟩
  · split
    · exact ⟨by simp,fun _ => numeral⟩
    · exact .other (by simp) (by simp)

theorem root_sound : Outcome (lexRoot c text) := by
  unfold lexRoot
  split
  · trivial
  · split
    · rename_i digit
      exact ⟨c,[],digit,nofun,.inl rfl⟩
    · split <;> first | trivial | exact .nil | exact .other (by simp) (by simp) | exact .inl rfl

theorem lexChar_sound (c : Char) (begun : Begun state text) : Outcome (lexChar state c text) := by
  have error : ∀ state text, Outcome (.leaves .invalidCharacter state text) := fun _ _ => .other (by simp) (by simp)
  cases state with
  | root => exact root_sound
  | string =>
    unfold lexChar
    dsimp only
    split
    · exact ⟨fun _ => begun,by simp⟩
    · split
      · rename_i same
        subst same
        exact ⟨_,begun,rfl⟩
      · rename_i quote backslash
        exact Escaped.append begun (.plain quote backslash .nil)
  | escape =>
    obtain ⟨s,escaped,rfl⟩ := begun
    unfold lexChar
    dsimp only
    split
    · rename_i kind
      rw [Outcome,Begun,List.append_assoc]
      exact escaped.append (.short kind .nil)
    · split
      · rename_i same
        subst same
        exact ⟨s,escaped,by simp⟩
      · exact error _ _
  | unicode1 =>
    obtain ⟨s,escaped,rfl⟩ := begun
    exact hex_sound fun hex => ⟨s,_,escaped,hex,by simp⟩
  | unicode2 =>
    obtain ⟨s,a,escaped,first,rfl⟩ := begun
    unfold lexChar
    dsimp only
    split
    · rename_i hex
      exact ⟨s,a,_,escaped,first,hex,by simp⟩
    · exact error _ _
  | unicode3 =>
    obtain ⟨s,a,b,escaped,first,second,rfl⟩ := begun
    exact hex_sound fun hex => ⟨s,a,b,_,escaped,first,second,hex,by simp⟩
  | unicode4 =>
    obtain ⟨s,a,b,d,escaped,first,second,third,rfl⟩ := begun
    refine hex_sound fun hex => ?_
    rw [Begun,List.append_assoc]
    exact escaped.append (.unicode first second third hex .nil)
  | true1 | true2 | false1 | false2 | false3 | null1 | null2 => exact letter_sound trivial
  | true3 | false4 | null3 =>
    unfold lexChar
    dsimp only
    split <;> exact .other (by simp) (by simp)
  | minus =>
    have text_eq : text = ['-'] := begun
    subst text_eq
    unfold lexChar
    dsimp only
    split
    · rename_i same
      subst same
      exact .inr rfl
    · split
      · rename_i digit
        exact ⟨c,[],digit,nofun,.inr rfl⟩
      · exact error _ _
  | zero =>
    have int := zero_int begun
    unfold lexChar
    dsimp only
    split
    · rename_i same
      subst same
      exact ⟨_,int,rfl⟩
    · split
      · rename_i exponent
        exact ⟨_,_,.none int,exponent,rfl⟩
      · exact end_sound (.none (.none int))
  | int =>
    have int := int_int begun
    unfold lexChar
    dsimp only
    split
    · rename_i same
      subst same
      exact ⟨_,int,rfl⟩
    · split
      · rename_i exponent
        exact ⟨_,_,.none int,exponent,rfl⟩
      · split
        · rename_i digit
          obtain ⟨d,digits,first,rest,same⟩ := begun
          refine ⟨d,_,first,rest.snoc digit,?_⟩
          rcases same with rfl | rfl
          · exact .inl rfl
          · exact .inr rfl
        · exact end_sound (.none (.none int))
  | fracStart =>
    obtain ⟨n,int,rfl⟩ := begun
    unfold lexChar
    dsimp only
    split
    · rename_i digit
      exact ⟨n,c,[],int,digit,nofun,by simp⟩
    · exact error _ _
  | frac =>
    have part := frac_frac begun
    unfold lexChar
    dsimp only
    split
    · rename_i exponent
      exact ⟨_,_,part,exponent,rfl⟩
    · split
      · rename_i digit
        obtain ⟨n,d,digits,int,first,rest,rfl⟩ := begun
        exact ⟨n,d,_,int,first,rest.snoc digit,by simp⟩
      · exact end_sound (.none part)
  | expStart =>
    obtain ⟨n,e,part,exponent,rfl⟩ := begun
    unfold lexChar
    dsimp only
    split
    · rename_i sign
      exact ⟨n,e,c,part,exponent,sign,by simp⟩
    · split
      · rename_i digit
        exact ⟨n,e,[],c,[],part,exponent,.inl rfl,digit,nofun,by simp⟩
      · exact error _ _
  | expSign =>
    obtain ⟨n,e,sign,part,exponent,kind,rfl⟩ := begun
    unfold lexChar
    dsimp only
    split
    · rename_i digit
      refine ⟨n,e,[sign],c,[],part,exponent,?_,digit,nofun,by simp⟩
      rcases kind with rfl | rfl
      · exact .inr (.inl rfl)
      · exact .inr (.inr rfl)
    · exact error _ _
  | exp =>
    have numeral := exp_numeral begun
    unfold lexChar
    dsimp only
    split
    · rename_i digit
      obtain ⟨n,e,sign,d,digits,part,exponent,kind,first,rest,rfl⟩ := begun
      exact ⟨n,e,sign,d,_,part,exponent,kind,first,rest.snoc digit,by simp⟩
    · exact end_sound numeral
  | comment =>
    unfold lexChar
    dsimp only
    split
    · trivial
    · split
      · trivial
      · exact error _ _
  | lineComment | blockComment | blockClose =>
    unfold lexChar
    dsimp only
    split <;> trivial

theorem lexer_sound (bytes : Text) (begun : Begun state text) : Genuine (lexer bytes state text).value (lexer bytes state text).text := by
  fun_induction lexer bytes state text with
  | case1 => exact .other (by simp) (by simp)
  | case2 c rest state text next after read ih =>
    have outcome := lexChar_sound c begun
    rw [read] at outcome
    exact ih outcome
  | case3 c rest state text value next after read =>
    have outcome := lexChar_sound c begun
    rw [read] at outcome
    exact outcome
  | case4 c rest state text value next after read =>
    have outcome := lexChar_sound c begun
    rw [read] at outcome
    exact outcome
  | case5 => exact .other (by simp) (by simp)
  | case6 c state text after read d behind hex ih =>
    have outcome := lexChar_sound c begun
    rw [read] at outcome
    obtain ⟨s,a,b,escaped,first,second,rfl⟩ := outcome
    exact ih ⟨s,a,b,d,escaped,first,second,hex,by simp⟩
  | case7 => exact .other (by simp) (by simp)

-- A token that is read ends at the root of the lexer. What is left behind it for the next
-- one was not left at the root.
def Settles (state : LexState) : LexStep → Prop
  | .gives value next _ => value ≠ .more ∧ (value = .invalidCharacter ∨ next = .root)
  | .leaves value next _ => value ≠ .more ∧ (value = .invalidCharacter ∨ (next = .root ∧ state ≠ .root))
  | _ => True

theorem letter_settles {expected : Char} : Settles state (lexLetter expected c state next text) := by
  unfold lexLetter
  split
  · trivial
  · exact ⟨by simp,.inl rfl⟩

theorem hex_settles : Settles state (lexHex c state next text) := by
  unfold lexHex
  split
  · trivial
  · exact ⟨by simp,.inl rfl⟩

theorem end_settles (inside : state ≠ .root) : Settles state (lexNumberEnd c state text) := by
  unfold lexNumberEnd
  split
  · exact ⟨by simp,.inr rfl⟩
  · split
    · exact ⟨by simp,.inr ⟨rfl,inside⟩⟩
    · exact ⟨by simp,.inl rfl⟩

theorem root_settles : Settles .root (lexRoot c text) := by
  unfold lexRoot
  split
  · trivial
  · split
    · trivial
    · split <;> trivial

theorem lexChar_settles (state : LexState) (c : Char) (text : Text) : Settles state (lexChar state c text) := by
  cases state with
  | root => exact root_settles
  | true1 | true2 | false1 | false2 | false3 | null1 | null2 => exact letter_settles
  | unicode1 | unicode3 | unicode4 => exact hex_settles
  | zero | int | frac | exp =>
    unfold lexChar
    dsimp only
    repeat' split
    all_goals first | trivial | exact end_settles (by simp)
  | lineComment | blockComment | blockClose =>
    unfold lexChar
    dsimp only
    split <;> trivial
  | _ =>
    unfold lexChar
    dsimp only
    repeat' split
    all_goals trivial

-- With a token the lexer has got on, or was inside a number that ends here.
theorem lexer_moves (bytes : Text) (state : LexState) (text : Text)
    (some_value : (lexer bytes state text).value ≠ .more) (valid : (lexer bytes state text).value ≠ .invalidCharacter) :
    (lexer bytes state text).state = .root ∧ ((lexer bytes state text).rest.length < bytes.length ∨
      (lexer bytes state text).rest.length = bytes.length ∧ state ≠ .root) := by
  fun_induction lexer bytes state text with
  | case1 => exact absurd rfl some_value
  | case2 c rest state text next after read ih =>
    obtain ⟨root,shorter⟩ := ih some_value valid
    exact ⟨root,.inl (by rw [List.length_cons]; omega)⟩
  | case3 c rest state text value next after read =>
    have settles := lexChar_settles state c text
    rw [read] at settles
    exact ⟨settles.2.resolve_left valid,.inl (by simp)⟩
  | case4 c rest state text value next after read =>
    have settles := lexChar_settles state c text
    rw [read] at settles
    obtain ⟨root,inside⟩ := settles.2.resolve_left valid
    exact ⟨root,.inr ⟨rfl,inside⟩⟩
  | case5 | case7 => exact absurd rfl valid
  | case6 c state text after read d behind hex ih =>
    obtain ⟨root,shorter⟩ := ih some_value valid
    exact ⟨root,.inl (by simp only [List.length_cons]; omega)⟩

end PcNetwork.Json
