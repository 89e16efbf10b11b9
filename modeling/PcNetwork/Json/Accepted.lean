import PcNetwork.Json.Lexemes
import PcNetwork.Json.RoundTrip

namespace PcNetwork.Json

-- The nodes above the cursor, with the documents that are finished in them.
inductive Stack : List JsonValue → Prop where
  | nil : Stack []
  | element (ds : List Document) {parents : List JsonValue} : Stack parents →
      Stack (.node .array none (Document.values ds) :: parents)
  | field (label : {text // Escaped text}) (fs : List ({text // Escaped text} × Document)) {parents : List JsonValue} : Stack parents →
      Stack (.node .string (some label.val) [] :: .node .object none (Document.labels fs) :: parents)

-- What the cursor points to in each state.
def Standing : ParseState → Option Cursor → Prop
  | .start,cursor => cursor = none
  | .openObject,cursor | .openArray,cursor =>
    cursor = none ∨ (∃ ds parents, Stack parents ∧ cursor = some ⟨.node .array none (Document.values ds),parents⟩) ∨
      ∃ label : {text // Escaped text}, ∃ fs parents, Stack parents ∧
        cursor = some ⟨.node .string (some label.val) [],.node .object none (Document.labels fs) :: parents⟩
  | .openedObject,cursor | .addedField,cursor | .nextField,cursor =>
    ∃ fs parents, Stack parents ∧ cursor = some ⟨.node .object none (Document.labels fs),parents⟩
  | .label,cursor | .value,cursor =>
    ∃ label : {text // Escaped text}, ∃ fs parents, Stack parents ∧
      cursor = some ⟨.node .string (some label.val) [],.node .object none (Document.labels fs) :: parents⟩
  | .openedArray,cursor | .addedElement,cursor =>
    ∃ ds parents, Stack parents ∧ cursor = some ⟨.node .array none (Document.values ds),parents⟩
  | .finished,cursor => ∃ d : Document, d.Container ∧ cursor = some ⟨d.value,[]⟩

-- How the parser stops.
def Verdict (stop : Stop) (cursor : Option Cursor) : Prop :=
  stop = .returns .malformedDocument ∨ stop = .returns .incompleteDocument ∨
    (stop = .returns .waitingForEof ∧ ∃ d : Document, d.Container ∧ cursor = some ⟨d.value,[]⟩)

-- What a token leads to. One that is not a token of the language leads nowhere.
def Continues (info : ParsingInfo) (value : LexValue) : Except Stop ParsingInfo → Prop
  | .ok next => Standing next.state next.cursor ∧ next.lexState = info.lexState ∧ value ≠ .more ∧ value ≠ .invalidCharacter
  | .error stop => Verdict stop info.cursor

variable {info : ParsingInfo} {value : LexValue} {parents : List JsonValue} {cursor : Option Cursor} {state : ParseState}

namespace Document

theorem values_append (ds es : List Document) : values (ds ++ es) = values ds ++ values es := by
  induction ds with
  | nil => rfl
  | cons d ds ih => simp only [List.cons_append,values,ih]

theorem labels_append (fs gs : List ({text // Escaped text} × Document)) : labels (fs ++ gs) = labels fs ++ labels gs := by
  induction fs with
  | nil => rfl
  | cons f fs ih => simp only [List.cons_append,labels,ih]

end Document

-- A finished object or array goes into the node above it.
theorem endArray_continues (d : Document) (container : d.Container) (stack : Stack parents)
    (some_value : value ≠ .more) (valid : value ≠ .invalidCharacter) (alone : Except Stop ParsingInfo)
    (at_cursor : info.cursor = some ⟨d.value,parents⟩) :
    Continues info value (endArray info ⟨d.value,parents⟩ alone) := by
  cases stack with
  | nil => exact ⟨⟨d,container,at_cursor⟩,rfl,some_value,valid⟩
  | element ds stack =>
    refine ⟨⟨ds ++ [d],_,stack,?_⟩,rfl,some_value,valid⟩
    rw [Document.values_append]
    rfl
  | field label fs stack =>
    refine ⟨⟨fs ++ [(label,d)],_,stack,?_⟩,rfl,some_value,valid⟩
    rw [Document.labels_append]
    rfl

theorem endObject_continues (d : Document) (container : d.Container) (stack : Stack parents)
    (some_value : value ≠ .more) (valid : value ≠ .invalidCharacter) (at_cursor : info.cursor = some ⟨d.value,parents⟩) :
    Continues info value (endObject info ⟨d.value,parents⟩) :=
  endArray_continues d container stack some_value valid (.error .aborts) at_cursor

theorem leaf_accepted {text : Text} {temp : JsonValue} (same : leaf text value = some temp) (parent : JsonValue)
    (above : parent.type = .string ∨ parent.type = .array) : accepts parent temp := by
  unfold accepts
  cases value <;> cases same <;> rcases above with type | type <;> rw [type] <;> rfl

-- The document that a token without children stands for.
theorem leaf_value {text : Text} {temp : JsonValue} (genuine : Genuine value text) (same : leaf text value = some temp) :
    ∃ d : Document, d.value = temp ∧ ∀ parent : JsonValue, parent.type = .string ∨ parent.type = .array → accepts parent d.value := by
  have accepted := leaf_accepted same
  cases value with
  | string =>
    cases same
    exact ⟨.string ⟨text,genuine.1 rfl⟩,rfl,accepted⟩
  | number =>
    cases same
    exact ⟨.number ⟨text,genuine.2 rfl⟩,rfl,accepted⟩
  | true =>
    cases same
    exact ⟨.true,rfl,accepted⟩
  | false =>
    cases same
    exact ⟨.false,rfl,accepted⟩
  | null =>
    cases same
    exact ⟨.null,rfl,accepted⟩
  | _ => cases same

theorem addValue_continues {temp : JsonValue} (d : Document) (same : d.value = temp) (label : {text // Escaped text}) (fs : List ({text // Escaped text} × Document))
    (stack : Stack parents) (accepted : accepts (.node .string (some label.val) []) d.value)
    (some_value : value ≠ .more) (valid : value ≠ .invalidCharacter) :
    Continues info value (addValue info ⟨.node .string (some label.val) [],.node .object none (Document.labels fs) :: parents⟩ temp) := by
  subst same
  unfold addValue Cursor.insert jsonInsertChild
  rw [if_pos accepted]
  refine ⟨⟨fs ++ [(label,d)],_,stack,?_⟩,rfl,some_value,valid⟩
  rw [Document.labels_append]
  rfl

theorem addElement_continues {temp : JsonValue} (d : Document) (same : d.value = temp) (ds : List Document) (stack : Stack parents)
    (accepted : accepts (.node .array none (Document.values ds)) d.value)
    (some_value : value ≠ .more) (valid : value ≠ .invalidCharacter) :
    Continues info value (addElement info ⟨.node .array none (Document.values ds),parents⟩ temp) := by
  subst same
  unfold addElement Cursor.insert jsonInsertChild
  rw [if_pos accepted]
  refine ⟨⟨ds ++ [d],_,stack,?_⟩,rfl,some_value,valid⟩
  rw [Document.values_append]
  rfl

theorem malformed_continues : Continues info value malformed := .inl rfl
theorem incomplete_continues : Continues info value incomplete := .inr (.inl rfl)

-- Every state goes on from where the cursor must be to where it must be, whatever the
-- lexer has returned: no assertion fails.
theorem onToken_continues (standing : Standing info.state info.cursor) (genuine : Genuine value info.lexText)
    (object : info.state ≠ .openObject) (array : info.state ≠ .openArray) : Continues info value (onToken info value) := by
  obtain ⟨state,lexState,text,cursor⟩ := info
  cases state with
  | openObject => exact absurd rfl object
  | openArray => exact absurd rfl array
  | start =>
    cases value with
    | beginObject | beginArray => exact ⟨.inl standing,rfl,by simp,by simp⟩
    | _ => exact malformed_continues
  | openedObject =>
    obtain ⟨fs,parents,stack,rfl⟩ := standing
    cases value with
    | string => exact ⟨⟨⟨text,genuine.1 rfl⟩,fs,parents,stack,rfl⟩,rfl,by simp,by simp⟩
    | endObject => exact endObject_continues (.object fs) (.inr ⟨fs,rfl⟩) stack (by simp) (by simp) rfl
    | more => exact incomplete_continues
    | _ => exact malformed_continues
  | addedField =>
    obtain ⟨fs,parents,stack,rfl⟩ := standing
    cases value with
    | valueSeparator => exact ⟨⟨fs,parents,stack,rfl⟩,rfl,by simp,by simp⟩
    | endObject => exact endObject_continues (.object fs) (.inr ⟨fs,rfl⟩) stack (by simp) (by simp) rfl
    | more => exact incomplete_continues
    | _ => exact malformed_continues
  | nextField =>
    obtain ⟨fs,parents,stack,rfl⟩ := standing
    cases value with
    | string => exact ⟨⟨⟨text,genuine.1 rfl⟩,fs,parents,stack,rfl⟩,rfl,by simp,by simp⟩
    | more => exact incomplete_continues
    | _ => exact malformed_continues
  | label =>
    obtain ⟨label,fs,parents,stack,rfl⟩ := standing
    cases value with
    | nameSeparator => exact ⟨⟨label,fs,parents,stack,rfl⟩,rfl,by simp,by simp⟩
    | more => exact incomplete_continues
    | _ => exact malformed_continues
  | value =>
    obtain ⟨label,fs,parents,stack,rfl⟩ := standing
    cases value with
    | beginObject | beginArray => exact ⟨.inr (.inr ⟨label,fs,parents,stack,rfl⟩),rfl,by simp,by simp⟩
    | more => exact incomplete_continues
    | string | number | true | false | null =>
      obtain ⟨d,same,accepted⟩ := leaf_value genuine rfl
      exact addValue_continues d same label fs stack (accepted _ (.inl rfl)) (by simp) (by simp)
    | _ => exact malformed_continues
  | openedArray =>
    obtain ⟨ds,parents,stack,rfl⟩ := standing
    cases value with
    | beginObject | beginArray => exact ⟨.inr (.inl ⟨ds,parents,stack,rfl⟩),rfl,by simp,by simp⟩
    | endArray => exact endArray_continues (.array ds) (.inl ⟨ds,rfl⟩) stack (by simp) (by simp) _ rfl
    | more => exact incomplete_continues
    | string | number | true | false | null =>
      obtain ⟨d,same,accepted⟩ := leaf_value genuine rfl
      exact addElement_continues d same ds stack (accepted _ (.inr rfl)) (by simp) (by simp)
    | _ => exact malformed_continues
  | addedElement =>
    obtain ⟨ds,parents,stack,rfl⟩ := standing
    cases value with
    | valueSeparator => exact ⟨⟨ds,parents,stack,rfl⟩,rfl,by simp,by simp⟩
    | endArray => exact endArray_continues (.array ds) (.inl ⟨ds,rfl⟩) stack (by simp) (by simp) _ rfl
    | more => exact incomplete_continues
    | _ => exact malformed_continues
  | finished =>
    obtain ⟨d,container,rfl⟩ := standing
    cases value with
    | more => exact .inr (.inr ⟨rfl,d,container,rfl⟩)
    | _ => exact malformed_continues

theorem opening_stands (standing : Standing .openObject info.cursor) (type : JsonType) (next : ParseState)
    (made : (type = .object ∧ next = .openedObject) ∨ (type = .array ∧ next = .openedArray)) :
    ∃ cursor, opening info type next = .ok {info with cursor := cursor,state := next} ∧ Standing next cursor := by
  obtain ⟨state,lexState,text,cursor⟩ := info
  have opened {parents : List JsonValue} (stack : Stack parents) : Standing next (some ⟨jsonNewValue type,parents⟩) := by
    rcases made with ⟨rfl,rfl⟩ | ⟨rfl,rfl⟩
    · exact ⟨[],parents,stack,rfl⟩
    · exact ⟨[],parents,stack,rfl⟩
  rcases standing with rfl | ⟨ds,parents,stack,rfl⟩ | ⟨label,fs,parents,stack,rfl⟩
  · exact ⟨_,rfl,opened .nil⟩
  · refine ⟨_,?_,opened (.element ds stack)⟩
    rcases made with ⟨rfl,rfl⟩ | ⟨rfl,rfl⟩ <;> rfl
  · refine ⟨_,?_,opened (.field label fs stack)⟩
    rcases made with ⟨rfl,rfl⟩ | ⟨rfl,rfl⟩ <;> rfl

-- What holds between the rounds.
def Sound (info : ParsingInfo) : Prop := Begun info.lexState info.lexText ∧ Standing info.state info.cursor

-- A round reads something, ends what the lexer is inside of, or opens what is pending.
def size (s : ParsingInfo × Text) : Nat :=
  4*s.2.length+(if s.1.lexState = .root then 0 else 2)+(if s.1.state = .openObject ∨ s.1.state = .openArray then 1 else 0)

def Progress (s : ParsingInfo × Text) : Prop :=
  (∃ t, parseRound s = .inl t ∧ Sound t.1 ∧ size t < size s) ∨ ∃ a, parseRound s = .inr a ∧ Verdict a.1 a.2.cursor

variable {b : Char} {rest : Text}

theorem opening_progress (sound : Sound info) (type : JsonType) (next : ParseState) (pending : info.state = .openObject ∨ info.state = .openArray)
    (made : (type = .object ∧ next = .openedObject) ∨ (type = .array ∧ next = .openedArray))
    (round : parseRound (info,b :: rest) =
      match opening info type next with
      | .ok opened => .inl (opened,b :: rest)
      | .error stop => .inr (stop,info)) : Progress (info,b :: rest) := by
  obtain ⟨begun,standing⟩ := sound
  have stands : Standing .openObject info.cursor := by
    rcases pending with same | same <;> rw [same] at standing <;> exact standing
  obtain ⟨cursor,opened,stands⟩ := opening_stands stands type next made
  rw [opened] at round
  refine .inl ⟨_,round,⟨begun,stands⟩,?_⟩
  have other : ¬ (next = .openObject ∨ next = .openArray) := by
    rcases made with ⟨_,rfl⟩ | ⟨_,rfl⟩ <;> simp
  simp only [size,if_pos pending,if_neg other]
  omega

-- What has been read with a token.
def ParsingInfo.read (info : ParsingInfo) (r : LexResult) : ParsingInfo := {info with lexState := r.state,lexText := r.text}

def afterToken (info : ParsingInfo) (r : LexResult) : ParsingInfo × Text ⊕ Stop × ParsingInfo :=
  match onToken (info.read r) r.value with
  | .ok next => .inl (next,r.rest)
  | .error stop => .inr (stop,info.read r)

theorem parseRound_token (object : info.state ≠ .openObject) (array : info.state ≠ .openArray) {r : LexResult}
    (lexed : lexer (b :: rest) info.lexState info.lexText = r) : parseRound (info,b :: rest) = afterToken info r := by
  subst lexed
  obtain ⟨state,lexState,text,cursor⟩ := info
  cases state with
  | openObject => exact absurd rfl object
  | openArray => exact absurd rfl array
  | _ => rfl

theorem token_progress (sound : Sound info) (object : info.state ≠ .openObject) (array : info.state ≠ .openArray) :
    Progress (info,b :: rest) := by
  obtain ⟨begun,standing⟩ := sound
  have round : parseRound (info,b :: rest) = afterToken info _ := parseRound_token object array rfl
  have genuine := lexer_sound (b :: rest) begun
  have moves := lexer_moves (b :: rest) info.lexState info.lexText
  generalize lexer (b :: rest) info.lexState info.lexText = r at round genuine moves
  have continues : Continues (info.read r) r.value (onToken (info.read r) r.value) :=
    onToken_continues standing genuine object array
  unfold afterToken at round
  cases went : onToken (info.read r) r.value with
  | error stop =>
    rw [went] at round continues
    exact .inr ⟨_,round,continues⟩
  | ok next =>
    rw [went] at round continues
    obtain ⟨stands,kept,some_value,valid⟩ := continues
    obtain ⟨root,moved⟩ := moves some_value valid
    have next_root : next.lexState = .root := kept.trans root
    refine .inl ⟨_,round,⟨?_,stands⟩,?_⟩
    · rw [next_root]
      trivial
    · have opens : (if next.state = .openObject ∨ next.state = .openArray then 1 else 0) ≤ 1 := by split <;> simp
      simp only [size,if_pos next_root]
      rcases moved with shorter | ⟨same,inside⟩
      · omega
      · rw [if_neg inside]
        omega

theorem parseRound_progress (sound : Sound info) (bytes : Text) : Progress (info,bytes) := by
  cases bytes with
  | nil =>
    refine .inr ⟨_,rfl,?_⟩
    by_cases last : info.state = .finished
    · have standing := sound.2
      rw [last] at standing
      rw [if_pos last]
      exact .inr (.inr ⟨rfl,standing⟩)
    · rw [if_neg last]
      exact .inr (.inl rfl)
  | cons b rest =>
    obtain ⟨state,lexState,text,cursor⟩ := info
    cases state with
    | openObject => exact opening_progress sound .object .openedObject (.inl rfl) (.inl ⟨rfl,rfl⟩) rfl
    | openArray => exact opening_progress sound .array .openedArray (.inr rfl) (.inr ⟨rfl,rfl⟩) rfl
    | _ => exact token_progress sound (by simp) (by simp)

-- Every text is answered, and every answer is one of three: what is accepted is a document,
-- which printed and parsed again is the same.
theorem document_answered (text : Text) : ∃ answer, (∀ other, ParsesDocument text other ↔ other = answer) ∧
    (answer = .error (.returns .malformedDocument) ∨ answer = .error (.returns .incompleteDocument) ∨
      ∃ d : Document, d.Container ∧ answer = .ok (some d.value) ∧
        TreeToString none d.value (.ok d.print) ∧ ParsesDocument d.print answer) := by
  have answered : ∃ a, Ends parseRound (jsonJpiInit,text) a ∧ Verdict a.1 a.2.cursor :=
    Ends.of_measure (fun s : ParsingInfo × Text => Sound s.1) _ size ⟨trivial,rfl⟩ fun s sound => parseRound_progress sound s.2
  obtain ⟨⟨stop,info⟩,ends,verdict⟩ := answered
  refine ⟨documentAnswer (stop,info),?_,?_⟩
  · intro other
    constructor
    · rintro ⟨stop_too,info_too,ends_too,rfl⟩
      rw [ends_too.unique ends]
    · rintro rfl
      exact ⟨stop,info,ends,rfl⟩
  · rcases verdict with rfl | rfl | ⟨rfl,d,container,at_root⟩
    · exact .inl rfl
    · exact .inr (.inl rfl)
    · have answer : documentAnswer (.returns .waitingForEof,info) = .ok (some d.value) := by
        rw [documentAnswer,if_pos (.inl rfl),at_root]
        rfl
      rw [answer]
      obtain ⟨printed,parsed⟩ := d.print_parses container
      exact .inr (.inr ⟨d,container,rfl,(printed _ _).mpr rfl,(parsed _).mpr rfl⟩)

end PcNetwork.Json
