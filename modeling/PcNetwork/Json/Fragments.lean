import PcNetwork.Json.Accepted

namespace PcNetwork.Json
variable {info next : ParsingInfo} {state : LexState} {a b text : Text} {value : LexValue} {c : Char} {stop : Stop}

-- The answers after which the parser is called again with the next fragment.
def Hungry (stop : Stop) : Prop := stop = .returns .incompleteDocument ∨ stop = .returns .waitingForEof

theorem Hungry.returned (hungry : Hungry stop) : stop ≠ .aborts := by
  rcases hungry with rfl | rfl <;> simp

-- Where the second hexadecimal digit of an escape ends a fragment, the lexer looks at the
-- NUL behind it.
def Cut (r : LexResult) : Prop := r.value = .invalidCharacter ∧ r.rest = [] ∧ r.state = .unicode3

theorem lexer_more {r : LexResult} (lexed : lexer a state text = r) (more : r.value = .more) (b : Text) :
    lexer (a ++ b) state text = lexer b r.state r.text := by
  subst lexed
  fun_induction lexer a state text with
  | case1 => rfl
  | case2 c rest state text next after read ih =>
    rw [List.cons_append,lexer,read]
    exact ih more
  | case3 c rest state text value next after read =>
    have settles := lexChar_settles state c text
    rw [read] at settles
    exact absurd more settles.1
  | case4 c rest state text value next after read =>
    have settles := lexChar_settles state c text
    rw [read] at settles
    exact absurd more settles.1
  | case5 | case7 => cases more
  | case6 c state text after read d behind hex ih =>
    rw [List.cons_append,List.cons_append,lexer,read]
    dsimp only
    rw [if_pos hex]
    exact ih more

theorem lexer_whole {r : LexResult} (lexed : lexer a state text = r) (some_value : r.value ≠ .more) (whole : ¬ Cut r) (b : Text) :
    lexer (a ++ b) state text = {r with rest := r.rest ++ b} := by
  subst lexed
  fun_induction lexer a state text with
  | case1 => exact absurd rfl some_value
  | case2 c rest state text next after read ih =>
    rw [List.cons_append,lexer,read]
    exact ih some_value whole
  | case3 c rest state text value next after read | case4 c rest state text value next after read =>
    rw [List.cons_append,lexer,read]
  | case5 => exact absurd ⟨rfl,rfl,rfl⟩ whole
  | case6 c state text after read d behind hex ih =>
    rw [List.cons_append,List.cons_append,lexer,read]
    dsimp only
    rw [if_pos hex]
    exact ih some_value whole
  | case7 c state text after read d behind hex =>
    rw [List.cons_append,List.cons_append,lexer,read]
    dsimp only
    rw [if_neg hex]

-- What the parser answers where a fragment ends.
def ParsingInfo.wants (info : ParsingInfo) : Stop := .returns (if info.state = .finished then .waitingForEof else .incompleteDocument)

-- A result that does not ask for more.
def Sated : Except Stop ParsingInfo → Prop
  | .ok _ => True
  | .error stop => ¬ Hungry stop

theorem malformed_sated : Sated malformed := by simp [Sated,malformed,Hungry]
theorem bad_sated : Sated (.error (.returns .badTreeStructure)) := by simp [Sated,Hungry]
theorem aborts_sated : Sated (.error .aborts) := by simp [Sated,Hungry]

theorem addLabel_sated (c : Cursor) : Sated (addLabel info c) := by
  unfold addLabel Cursor.descend jsonInsertChild
  split
  · trivial
  · simp [Sated,unknown,bind,Except.bind,Hungry]

theorem addValue_sated (c : Cursor) (temp : JsonValue) : Sated (addValue info c temp) := by
  unfold addValue Cursor.insert jsonInsertChild
  split
  · trivial
  · simp [Sated,unknown,bind,Except.bind,Hungry]

theorem addElement_sated (c : Cursor) (temp : JsonValue) : Sated (addElement info c temp) := by
  unfold addElement Cursor.insert jsonInsertChild
  split
  · trivial
  · simp [Sated,unknown,bind,Except.bind,Hungry]

theorem endArray_sated (c : Cursor) {alone : Except Stop ParsingInfo} (sated : Sated alone) : Sated (endArray info c alone) := by
  unfold endArray
  repeat' split
  all_goals first | trivial | exact sated | exact bad_sated

theorem opening_sated (type : JsonType) (next : ParseState) : Sated (opening info type next) := by
  unfold opening Cursor.descend jsonInsertChild
  split
  · trivial
  · split
    · split
      · trivial
      · simp [Sated,unknown,bind,Except.bind,Hungry]
    · exact aborts_sated

theorem withCursor_asks {asserted : Cursor → Bool} {f : Cursor → Except Stop ParsingInfo}
    (asked : withCursor info asserted f = .error stop) (returned : stop ≠ .aborts) : ∃ c, f c = .error stop := by
  unfold withCursor at asked
  split at asked
  · cases asked
    exact absurd rfl returned
  · split at asked
    · exact ⟨_,asked⟩
    · cases asked
      exact absurd rfl returned

theorem withCursor_sated {asserted : Cursor → Bool} {f : Cursor → Except Stop ParsingInfo} (sated : ∀ c, Sated (f c)) :
    Sated (withCursor info asserted f) := by
  cases made : withCursor info asserted f with
  | ok next => trivial
  | error stop =>
    intro hungry
    obtain ⟨c,gave⟩ := withCursor_asks made hungry.returned
    have not_hungry := sated c
    rw [gave] at not_hungry
    exact not_hungry hungry

theorem token_sated (some_value : value ≠ .more) : Sated (onToken info value) := by
  obtain ⟨state,lexState,text,cursor⟩ := info
  cases state with
  | start => cases value <;> first | trivial | exact malformed_sated
  | openObject | openArray => trivial
  | openedObject | addedField | nextField =>
    refine withCursor_sated fun c => ?_
    cases value with
    | more => exact absurd rfl some_value
    | string => first | exact addLabel_sated c | exact malformed_sated
    | endObject => first | exact endArray_sated c aborts_sated | exact malformed_sated
    | _ => first | trivial | exact malformed_sated
  | label =>
    refine withCursor_sated fun c => ?_
    cases value with
    | more => exact absurd rfl some_value
    | _ => first | trivial | exact malformed_sated
  | value =>
    refine withCursor_sated fun c => ?_
    cases value with
    | more => exact absurd rfl some_value
    | string | number | true | false | null => exact addValue_sated c _
    | _ => first | trivial | exact malformed_sated
  | openedArray =>
    refine withCursor_sated fun c => ?_
    cases value with
    | more => exact absurd rfl some_value
    | string | number | true | false | null => exact addElement_sated c _
    | endArray => exact endArray_sated c bad_sated
    | _ => first | trivial | exact malformed_sated
  | addedElement =>
    refine withCursor_sated fun c => ?_
    cases value with
    | more => exact absurd rfl some_value
    | endArray => exact endArray_sated c trivial
    | _ => first | trivial | exact malformed_sated
  | finished =>
    refine withCursor_sated fun c => ?_
    cases value with
    | more => exact absurd rfl some_value
    | _ => exact malformed_sated

-- The end of a fragment makes every state but the first one ask for more.
theorem onToken_more (stopped : onToken info .more = .error stop) (returned : stop ≠ .aborts) :
    stop = info.wants ∨ (info.state = .start ∧ stop = .returns .malformedDocument) := by
  obtain ⟨state,lexState,text,cursor⟩ := info
  cases state with
  | start =>
    cases stopped
    exact .inr ⟨rfl,rfl⟩
  | openObject | openArray => cases stopped
  | _ =>
    obtain ⟨c,gave⟩ := withCursor_asks stopped returned
    cases gave
    exact .inl rfl

-- Nothing else makes one ask for more.
theorem onToken_hungry (asked : onToken info value = .error stop) (hungry : Hungry stop) : value = .more ∧ stop = info.wants := by
  by_cases more : value = .more
  · subst more
    rcases onToken_more asked hungry.returned with wants | ⟨_,rfl⟩
    · exact ⟨rfl,wants⟩
    · exact absurd hungry malformed_sated
  · have sated : Sated (onToken info value) := token_sated more
    rw [asked] at sated
    exact absurd hungry sated

theorem withCursor_gives {asserted : Cursor → Bool} {f : Cursor → Except Stop ParsingInfo} (gave : withCursor info asserted f = .ok next) :
    ∃ c, f c = .ok next := by
  unfold withCursor at gave
  split at gave
  · cases gave
  · split at gave
    · exact ⟨_,gave⟩
    · cases gave

theorem onToken_reads (gave : onToken info value = .ok next) (object : info.state ≠ .openObject) (array : info.state ≠ .openArray) :
    value ≠ .more ∧ value ≠ .invalidCharacter := by
  obtain ⟨state,lexState,text,cursor⟩ := info
  constructor
  · rintro rfl
    cases state with
    | start => cases gave
    | openObject => exact object rfl
    | openArray => exact array rfl
    | _ =>
      obtain ⟨c,gave⟩ := withCursor_gives gave
      cases gave
  · rintro rfl
    cases state with
    | start => cases gave
    | openObject => exact object rfl
    | openArray => exact array rfl
    | _ =>
      obtain ⟨c,gave⟩ := withCursor_gives gave
      cases gave

-- A round opens what is pending, whatever is left to read, or reads a token.
theorem opens_or_reads (info : ParsingInfo) :
    (∃ type state, ∀ c rest, parseRound (info,c :: rest) =
      match opening info type state with
      | .ok opened => .inl (opened,c :: rest)
      | .error stop => .inr (stop,info)) ∨ (info.state ≠ .openObject ∧ info.state ≠ .openArray) := by
  obtain ⟨state,lexState,text,cursor⟩ := info
  cases state with
  | openObject => exact .inl ⟨.object,.openedObject,fun _ _ => rfl⟩
  | openArray => exact .inl ⟨.array,.openedArray,fun _ _ => rfl⟩
  | _ => exact .inr ⟨by simp,by simp⟩

-- A fragment with another one behind it.
def feed (b : Text) (s : ParsingInfo × Text) : ParsingInfo × Text := (s.1,s.2 ++ b)

theorem round_feeds (b : Text) (s t : ParsingInfo × Text) (goes : parseRound s = .inl t) : parseRound (feed b s) = .inl (feed b t) := by
  obtain ⟨info,bytes⟩ := s
  cases bytes with
  | nil => cases goes
  | cons c rest =>
    show parseRound (info,c :: (rest ++ b)) = _
    rcases opens_or_reads info with ⟨type,state,round⟩ | ⟨object,array⟩
    · rw [round] at goes ⊢
      cases opened : opening info type state with
      | ok next =>
        rw [opened] at goes
        cases goes
        rfl
      | error stop =>
        rw [opened] at goes
        cases goes
    · obtain ⟨r,lexed⟩ : ∃ r, lexer (c :: rest) info.lexState info.lexText = r := ⟨_,rfl⟩
      rw [parseRound_token object array lexed,afterToken] at goes
      cases gave : onToken (info.read r) r.value with
      | error stop =>
        rw [gave] at goes
        cases goes
      | ok next =>
        rw [gave] at goes
        cases goes
        obtain ⟨some_value,valid⟩ := onToken_reads gave object array
        have longer : lexer (c :: (rest ++ b)) info.lexState info.lexText = _ := lexer_whole lexed some_value (fun cut => valid cut.1) b
        have same : onToken (info.read {r with rest := r.rest ++ b}) r.value = .ok next := gave
        rw [parseRound_token object array longer,afterToken,same]
        rfl

-- The last round of a fragment that asks for more is made again with the next one.
theorem last_round_feeds (b : Text) (s : ParsingInfo × Text) (hungry : Hungry stop) (stops : parseRound s = .inr (stop,next))
    (a : Stop × ParsingInfo) : Ends parseRound (feed b s) a ↔ Ends parseRound (next,b) a := by
  obtain ⟨info,bytes⟩ := s
  cases bytes with
  | nil =>
    cases stops
    exact Iff.rfl
  | cons c rest =>
    show Ends parseRound (info,c :: (rest ++ b)) a ↔ _
    rcases opens_or_reads info with ⟨type,state,round⟩ | ⟨object,array⟩
    · rw [round] at stops
      have sated : Sated (opening info type state) := opening_sated type state
      cases opened : opening info type state with
      | ok next =>
        rw [opened] at stops
        cases stops
      | error stop =>
        rw [opened] at stops sated
        cases stops
        exact absurd hungry sated
    · obtain ⟨r,lexed⟩ : ∃ r, lexer (c :: rest) info.lexState info.lexText = r := ⟨_,rfl⟩
      have round := parseRound_token object array lexed
      rw [stops,afterToken] at round
      cases gave : onToken (info.read r) r.value with
      | ok next =>
        rw [gave] at round
        cases round
      | error stop =>
        rw [gave] at round
        cases round
        obtain ⟨more,wants⟩ := onToken_hungry gave hungry
        cases b with
        | nil =>
          have asks : parseRound (info.read r,[]) = .inr (stop,info.read r) := by rw [wants]; rfl
          rw [List.append_nil,Ends.last stops,Ends.last asks]
        | cons d behind =>
          have longer : lexer (c :: (rest ++ d :: behind)) info.lexState info.lexText = lexer (d :: behind) r.state r.text :=
            lexer_more lexed more (d :: behind)
          have on_whole := parseRound_token object array longer
          have on_next := parseRound_token (show (info.read r).state ≠ .openObject from object) array
            (rfl : lexer (d :: behind) (info.read r).lexState (info.read r).lexText = _)
          rw [Ends.after,on_whole,Ends.after,on_next]
          rfl

-- An error is found again in the same place, unless the end of the fragment was the error.
theorem error_round_feeds (b : Text) (s : ParsingInfo × Text) {error : JsonError} (sated : ¬ Hungry (.returns error))
    (inside : next.state ≠ .start) (whole : next.lexState ≠ .unicode3) (stops : parseRound s = .inr (.returns error,next)) :
    parseRound (feed b s) = .inr (.returns error,next) := by
  obtain ⟨info,bytes⟩ := s
  cases bytes with
  | nil =>
    cases stops
    exact absurd (by unfold Hungry; split <;> simp) sated
  | cons c rest =>
    show parseRound (info,c :: (rest ++ b)) = _
    rcases opens_or_reads info with ⟨type,state,round⟩ | ⟨object,array⟩
    · rw [round] at stops ⊢
      cases opened : opening info type state with
      | ok next =>
        rw [opened] at stops
        cases stops
      | error stop =>
        rw [opened] at stops
        cases stops
        rfl
    · obtain ⟨r,lexed⟩ : ∃ r, lexer (c :: rest) info.lexState info.lexText = r := ⟨_,rfl⟩
      rw [parseRound_token object array lexed,afterToken] at stops
      cases gave : onToken (info.read r) r.value with
      | ok next =>
        rw [gave] at stops
        cases stops
      | error stop =>
        rw [gave] at stops
        cases stops
        have some_value : r.value ≠ .more := by
          intro more
          rw [more] at gave
          rcases onToken_more gave (by simp) with wants | ⟨start,_⟩
          · rw [wants] at sated
            exact absurd (by unfold Hungry ParsingInfo.wants; split <;> simp) sated
          · exact inside start
        have longer : lexer (c :: (rest ++ b)) info.lexState info.lexText = _ := lexer_whole lexed some_value (fun cut => whole cut.2.2) b
        have same : onToken (info.read {r with rest := r.rest ++ b}) r.value = .error (.returns error) := gave
        rw [parseRound_token object array longer,afterToken,same]
        rfl

-- A text comes in fragments, each parsed with the information that the one before it left,
-- as long as the answer asks for more.
inductive Fed : ParsingInfo → List Text → Stop → ParsingInfo → Prop where
  | last {info next : ParsingInfo} {fragment : Text} {stop : Stop} : ParsesFragment info fragment stop next → Fed info [fragment] stop next
  | more {info middle next : ParsingInfo} {fragment : Text} {fragments : List Text} {asked stop : Stop} :
      ParsesFragment info fragment asked middle → Hungry asked → Fed middle fragments stop next → Fed info (fragment :: fragments) stop next

-- The fragments are answered as the whole text is, wherever it is cut.
theorem fragments_whole {fragments : List Text} (fed : Fed info fragments stop next) :
    ∀ answer, Ends parseRound (info,fragments.flatten) answer ↔ answer = (stop,next) := by
  induction fed with
  | last parsed =>
    intro answer
    rw [List.flatten_singleton]
    exact ⟨fun ends => ends.unique parsed,fun same => same ▸ parsed⟩
  | more parsed hungry _ ih =>
    intro answer
    rw [← ih answer,List.flatten_cons]
    exact parsed.fed (feed _) _ (round_feeds _) (fun s stops b => last_round_feeds _ s hungry stops b) answer

theorem fragments_whole_two : Fed jsonJpiInit [['['],['1',']']] (.returns .waitingForEof)
      (ready .finished (some ⟨.node .array none [jsonNewNumber ['1']],[]⟩)) ∧
    ∀ answer, Ends parseRound (jsonJpiInit,['[','1',']']) answer ↔
      answer = (.returns .waitingForEof,ready .finished (some ⟨.node .array none [jsonNewNumber ['1']],[]⟩)) := by
  have fed : Fed jsonJpiInit [['['],['1',']']] (.returns .waitingForEof)
      (ready .finished (some ⟨.node .array none [jsonNewNumber ['1']],[]⟩)) :=
    .more ⟨2,rfl⟩ (.inl rfl) (.last ⟨4,rfl⟩)
  exact ⟨fed,fragments_whole fed⟩

-- An error is the answer to every longer text, unless the first fragment had no token or
-- one was cut behind the second hexadecimal digit of an escape.
theorem error_stays {fragments : List Text} {error : JsonError} (fed : Fed info fragments (.returns error) next)
    (sated : ¬ Hungry (.returns error)) (inside : next.state ≠ .start) (whole : next.lexState ≠ .unicode3) (more : Text) :
    ParsesFragment info (fragments.flatten ++ more) (.returns error) next := by
  have ended := (fragments_whole fed _).mpr rfl
  exact (ended.fed (feed more) (fun answer => answer = (.returns error,next)) (round_feeds more)
    (fun s stops b => Ends.last (error_round_feeds more s sated inside whole stops)) _).mpr rfl

theorem error_stays_colon : Fed jsonJpiInit [['{'],[':']] (.returns .malformedDocument) ⟨.openedObject,.root,[],some ⟨jsonNewObject,[]⟩⟩ ∧
    ParsesFragment jsonJpiInit ['{',':','}'] (.returns .malformedDocument) ⟨.openedObject,.root,[],some ⟨jsonNewObject,[]⟩⟩ := by
  have fed : Fed jsonJpiInit [['{'],[':']] (.returns .malformedDocument) ⟨.openedObject,.root,[],some ⟨jsonNewObject,[]⟩⟩ :=
    .more ⟨2,rfl⟩ (.inl rfl) (.last ⟨4,rfl⟩)
  exact ⟨fed,error_stays fed (by simp [Hungry]) (by simp) (by simp) ['}']⟩

end PcNetwork.Json
