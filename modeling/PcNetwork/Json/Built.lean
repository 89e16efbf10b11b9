import PcNetwork.Json.RoundTrip

namespace PcNetwork.Json
variable {c : Char} {text : Text}

theorem unescape_plain (plain : c ≠ '\x5C') (rest : Text) : jsonUnescape (c :: rest) = c :: jsonUnescape rest := by
  rw [jsonUnescape]
  · exact fun same _ => plain same
  · exact fun _ _ same _ => plain same

theorem unescape_char (c : Char) (rest : Text) : jsonUnescape (escapeChar c ++ rest) = c :: jsonUnescape rest := by
  unfold escapeChar
  split
  case h_9 backslash _ _ _ _ _ _ _ => exact unescape_plain backslash rest
  all_goals rfl

theorem unescape_escape (text : Text) : jsonUnescape (jsonEscape text) = text := by
  induction text with
  | nil => rfl
  | cons c rest ih =>
    rw [jsonEscape,List.flatMap_cons,unescape_char]
    exact congrArg (c :: ·) ih

theorem escape_injective (same : jsonEscape a = jsonEscape b) : a = b := by
  rw [← unescape_escape a,same,unescape_escape]

theorem escapeChar_escaped (c : Char) {rest : Text} (escaped : Escaped rest) : Escaped (escapeChar c ++ rest) := by
  unfold escapeChar
  split
  case h_9 backslash quote _ _ _ _ _ _ => exact .plain quote backslash escaped
  all_goals exact .short rfl escaped

-- What json_escape makes can stand in a string.
theorem escape_escaped (text : Text) : Escaped (jsonEscape text) := by
  induction text with
  | nil => exact .nil
  | cons c rest ih => exact escapeChar_escaped c ih

-- What a caller wants to say, with the strings as they are before json_escape.
inductive Saying where
  | string (text : Text)
  | number (text : {text // Numeral text})
  | true
  | false
  | null
  | array (elements : List Saying)
  | object (fields : List (Text × Saying))

namespace Saying

mutual
-- The tree made with the functions of the interface, the parts before the whole.
def build : Saying → Except JsonError JsonValue
  | .string text => .ok (jsonNewString text)
  | .number text => .ok (jsonNewNumber text.val)
  | .true => .ok jsonNewTrue
  | .false => .ok jsonNewFalse
  | .null => .ok jsonNewNull
  | .array elements => insertElements jsonNewArray elements
  | .object fields => insertFields jsonNewObject fields

def insertElements (parent : JsonValue) : List Saying → Except JsonError JsonValue
  | [] => .ok parent
  | s :: rest => do
    let child ← build s
    let parent ← jsonInsertChild parent child
    insertElements parent rest

def insertFields (parent : JsonValue) : List (Text × Saying) → Except JsonError JsonValue
  | [] => .ok parent
  | (name,s) :: rest => do
    let value ← build s
    let parent ← jsonInsertPairIntoObject parent name value
    insertFields parent rest
end

mutual
-- The document that it is.
def document : Saying → Document
  | .string text => .string ⟨jsonEscape text,escape_escaped text⟩
  | .number text => .number text
  | .true => .true
  | .false => .false
  | .null => .null
  | .array elements => .array (documents elements)
  | .object fields => .object (documentFields fields)

def documents : List Saying → List Document
  | [] => []
  | s :: rest => s.document :: documents rest

def documentFields : List (Text × Saying) → List ({text // Escaped text} × Document)
  | [] => []
  | (name,s) :: rest => (⟨jsonEscape name,escape_escaped name⟩,s.document) :: documentFields rest
end

-- The tree of a saying can stand below a label and in an array.
theorem document_accepted (s : Saying) (parent : JsonValue) (above : parent.type = .string ∨ parent.type = .array) :
    accepts parent s.document.value := by
  unfold accepts
  cases s <;> rcases above with type | type <;> rw [type] <;> rfl

mutual
theorem build_value (s : Saying) : s.build = .ok s.document.value := by
  match s with
  | .string _ | .number _ | .true | .false | .null => rfl
  | .array elements => exact insertElements_values elements []
  | .object fields => exact insertFields_labels fields []

theorem insertElements_values (elements : List Saying) (before : List JsonValue) :
    insertElements (.node .array none before) elements = .ok (.node .array none (before ++ Document.values (documents elements))) := by
  match elements with
  | [] => simp [insertElements,documents,Document.values]
  | s :: rest =>
    have inserted : jsonInsertChild (.node .array none before) s.document.value = .ok (.node .array none (before ++ [s.document.value])) :=
      if_pos (document_accepted s _ (.inr rfl))
    have others := insertElements_values rest (before ++ [s.document.value])
    rw [List.append_assoc] at others
    simp only [insertElements,build_value s,bind,Except.bind,inserted]
    exact others

theorem insertFields_labels (fields : List (Text × Saying)) (before : List JsonValue) :
    insertFields (.node .object none before) fields = .ok (.node .object none (before ++ Document.labels (documentFields fields))) := by
  match fields with
  | [] => simp [insertFields,documentFields,Document.labels]
  | (name,s) :: rest =>
    have labelled : jsonInsertChild (jsonNewString name) s.document.value = .ok (.node .string (some (jsonEscape name)) [s.document.value]) :=
      if_pos (document_accepted s _ (.inl rfl))
    have others := insertFields_labels rest (before ++ [.node .string (some (jsonEscape name)) [s.document.value]])
    rw [List.append_assoc] at others
    simp only [insertFields,build_value s,bind,Except.bind,jsonInsertPairIntoObject,labelled]
    exact others
end

mutual
-- Nothing is lost on the way into the tree.
theorem document_injective (s t : Saying) (same : s.document.value = t.document.value) : s = t := by
  match s with
  | .string a =>
    cases t with
    | string b =>
      have texts : jsonEscape a = jsonEscape b := by simpa [document,Document.value] using same
      rw [escape_injective texts]
    | _ => cases same
  | .number a =>
    cases t with
    | number b =>
      have texts : a.val = b.val := by simpa [document,Document.value] using same
      rw [Subtype.ext texts]
    | _ => cases same
  | .true | .false | .null =>
    cases t with
    | true | false | null => first | rfl | cases same
    | _ => cases same
  | .array es =>
    cases t with
    | array fs =>
      have children : Document.values (documents es) = Document.values (documents fs) := by simpa [document,Document.value] using same
      rw [documents_injective es fs children]
    | _ => cases same
  | .object es =>
    cases t with
    | object fs =>
      have children : Document.labels (documentFields es) = Document.labels (documentFields fs) := by
        simpa [document,Document.value] using same
      rw [documentFields_injective es fs children]
    | _ => cases same

theorem documents_injective (es fs : List Saying) (same : Document.values (documents es) = Document.values (documents fs)) : es = fs := by
  match es,fs with
  | [],[] => rfl
  | [],f :: fs => cases same
  | e :: es,[] => cases same
  | e :: es,f :: fs =>
    simp only [documents,Document.values,List.cons.injEq] at same
    rw [document_injective e f same.1,documents_injective es fs same.2]

theorem documentFields_injective (es fs : List (Text × Saying))
    (same : Document.labels (documentFields es) = Document.labels (documentFields fs)) : es = fs := by
  match es,fs with
  | [],[] => rfl
  | [],f :: fs => cases same
  | e :: es,[] => cases same
  | (name,e) :: es,(other,f) :: fs =>
    simp only [documentFields,Document.labels,List.cons.injEq,JsonValue.node.injEq,Option.some.injEq,true_and,and_true] at same
    rw [escape_injective same.1.1,document_injective e f same.1.2,documentFields_injective es fs same.2]
end

-- A label is found by its name in escaped form, the first one that was inserted with this name.
theorem label_found (fields : List (Text × Saying)) (name : Text) :
    ∃ object, insertFields jsonNewObject fields = .ok object ∧
      jsonFindFirstLabel object (jsonEscape name) = (fields.find? fun f => f.1 = name).map fun f =>
        .node .string (some (jsonEscape name)) [f.2.document.value] := by
  refine ⟨_,insertFields_labels fields [],?_⟩
  show (Document.labels (documentFields fields)).find? (fun label => label.text = some (jsonEscape name)) = _
  induction fields with
  | nil => rfl
  | cons f fields ih =>
    obtain ⟨other,s⟩ := f
    by_cases same : other = name
    · subst same
      simp [documentFields,Document.labels,JsonValue.text]
    · have differ : jsonEscape other ≠ jsonEscape name := fun equal => same (escape_injective equal)
      have skipped : JsonValue.text (.node .string (some (jsonEscape other)) [s.document.value]) ≠ some (jsonEscape name) :=
        fun equal => differ (Option.some.inj equal)
      rw [documentFields,Document.labels,List.find?_cons_of_neg (by simp [skipped]),List.find?_cons_of_neg (by simp [same])]
      exact ih

end Saying

end PcNetwork.Json
