import PcNetwork.Json.Document

namespace PcNetwork.Json
variable {above : Option JsonType} {type : JsonType} {label : Option Text} {node first : JsonValue}
  {frames : List Frame} {before children rest : List JsonValue} {output text : Text} {a : Except Unwritten Text}

-- The text of a node, written by recursion. There is none where a label has no value, or a
-- string or a number no text.
mutual
def written (above : Option JsonType) : JsonValue → Except Unwritten Text
  | .node .number none _ | .node .string none _ => .error .nullText
  | .node .number (some text) _ => .ok text
  | .node .true _ _ => .ok "true".toList
  | .node .false _ _ => .ok "false".toList
  | .node .null _ _ => .ok "null".toList
  | .node .array _ children => (writtenAll .array children).map fun inside => '[' :: inside ++ [']']
  | .node .object _ children => (writtenAll .object children).map fun inside => '{' :: inside ++ ['}']
  | .node .string (some text) children =>
    if above = some .object ∨ above = none then
      if children.isEmpty then .error (.error .badTreeStructure)
      else (writtenAll .string children).map fun inside => '\x22' :: text ++ '\x22' :: ':' :: inside
    else (writtenAll .string children).map fun inside => '\x22' :: text ++ '\x22' :: inside

def writtenAll (parent : JsonType) : List JsonValue → Except Unwritten Text
  | [] => .ok []
  | [v] => written (some parent) v
  | v :: w :: rest => do
    let first ← written (some parent) v
    let others ← writtenAll parent (w :: rest)
    return first ++ ',' :: others
end

-- The walk ends without a text, or goes on with it.
def Written (result a : Except Unwritten Text) (goes_on : Text → Prop) : Prop :=
  match result with
  | .error reason => a = .error reason
  | .ok text => goes_on text

-- The comma that is put in front of a value.
def separator : List Frame → Text
  | ⟨_,_,_ :: _,_⟩ :: _ => [',']
  | _ => []

theorem follows_separator (w : Walk) : (if w.follows then w.put [','] else w) = w.put (separator w.frames) := by
  obtain ⟨above,node,frames,output⟩ := w
  match frames with
  | [] | ⟨_,_,[],_⟩ :: _ => simp [Walk.follows,separator,Walk.put]
  | ⟨_,_,_ :: _,_⟩ :: _ => rfl

-- A value without children is written and closed.
theorem leaf_walked (opened : openValue ⟨above,node,frames,output⟩ = .inl (.closes,⟨above,node,frames,text⟩))
    (closed : closeValue ⟨above,node,frames,text⟩ = Walk.leave ⟨above,node,frames,text⟩) :
    Ends walkRound (.opens,⟨above,node,frames,output⟩) a ↔ After walkRound (Walk.leave ⟨above,node,frames,text⟩) a := by
  rw [← closed,Ends.after]
  show After walkRound (openValue _) a ↔ _
  rw [opened]
  exact Ends.after

theorem array_opened : Ends walkRound (.opens,⟨above,.node .array label children,frames,output⟩) a ↔
    After walkRound (Walk.enter ⟨above,.node .array label children,frames,output ++ separator frames ++ ['[']⟩) a := by
  rw [Ends.after]
  show After walkRound (openValue _) a ↔ _
  unfold openValue
  simp only [follows_separator]
  rfl

theorem object_opened : Ends walkRound (.opens,⟨above,.node .object label children,frames,output⟩) a ↔
    After walkRound (Walk.enter ⟨above,.node .object label children,frames,output ++ separator frames ++ ['{']⟩) a := by
  rw [Ends.after]
  show After walkRound (openValue _) a ↔ _
  unfold openValue
  simp only [follows_separator]
  rfl

-- A string or a number without a text.
theorem nothing_opened (named : type = .string ∨ type = .number) :
    Ends walkRound (.opens,⟨above,.node type none children,frames,output⟩) a ↔ a = .error .nullText := by
  rw [Ends.after]
  show After walkRound (openValue _) a ↔ _
  unfold openValue
  simp only [follows_separator]
  obtain rfl | rfl := named <;> exact Iff.rfl

theorem string_opened : Ends walkRound (.opens,⟨above,.node .string (some text) children,frames,output⟩) a ↔
    if Walk.parentType ⟨above,.node .string (some text) children,frames,output⟩ = some .object ∨
        Walk.parentType ⟨above,.node .string (some text) children,frames,output⟩ = none then
      if children.isEmpty then a = .error (.error .badTreeStructure)
      else After walkRound (Walk.enter ⟨above,.node .string (some text) children,frames,
        output ++ separator frames ++ ('\x22' :: text ++ ['\x22',':'])⟩) a
    else After walkRound (Walk.enter ⟨above,.node .string (some text) children,frames,
      output ++ separator frames ++ ('\x22' :: text ++ ['\x22'])⟩) a := by
  rw [Ends.after]
  show After walkRound (openValue _) a ↔ _
  unfold openValue
  simp only [follows_separator]
  match frames with
  | [] =>
    cases above with
    | none => cases children <;> simp [JsonValue.type,JsonValue.text,JsonValue.children,Walk.put,Walk.parentType,After]
    | some t => cases t <;> cases children <;> simp [JsonValue.type,JsonValue.text,JsonValue.children,Walk.put,Walk.parentType,After]
  | ⟨t,_,_,_⟩ :: _ =>
    cases t <;> cases children <;> simp [JsonValue.type,JsonValue.text,JsonValue.children,Walk.put,Walk.parentType,After]

theorem array_closed : Ends walkRound (.closes,⟨above,.node .array label children,frames,output⟩) a ↔
    After walkRound (Walk.leave ⟨above,.node .array label children,frames,output ++ [']']⟩) a := Ends.after

theorem object_closed : Ends walkRound (.closes,⟨above,.node .object label children,frames,output⟩) a ↔
    After walkRound (Walk.leave ⟨above,.node .object label children,frames,output ++ ['}']⟩) a := Ends.after

theorem string_closed : Ends walkRound (.closes,⟨above,.node .string label children,frames,output⟩) a ↔
    After walkRound (Walk.leave ⟨above,.node .string label children,frames,output⟩) a := Ends.after

mutual
-- A node that is opened is written out, and the walk goes on behind it.
theorem node_walked (node : JsonValue) (frames : List Frame) (output : Text) :
    Ends walkRound (.opens,⟨above,node,frames,output⟩) a ↔
      Written (written (Walk.parentType ⟨above,node,frames,output⟩) node) a fun text =>
        After walkRound (Walk.leave ⟨above,node,frames,output ++ separator frames ++ text⟩) a := by
  match node with
  | .node .number none _ =>
    rw [nothing_opened (.inr rfl),written]
    rfl
  | .node .string none _ =>
    rw [nothing_opened (.inl rfl),written]
    rfl
  | .node .number (some _) _ | .node .true _ _ | .node .false _ _ | .node .null _ _ =>
    rw [written]
    apply leaf_walked
    · unfold openValue
      simp only [follows_separator]
      rfl
    · rfl
  | .node .array label children =>
    rw [array_opened,children_walked children .array label frames,written]
    cases writtenAll .array children with
    | error _ => rfl
    | ok inside => simp [Written,Except.map,array_closed]
  | .node .object label children =>
    rw [object_opened,children_walked children .object label frames,written]
    cases writtenAll .object children with
    | error _ => rfl
    | ok inside => simp [Written,Except.map,object_closed]
  | .node .string (some text) children =>
    rw [string_opened,written]
    split
    · split
      · rfl
      · rw [children_walked children .string (some text) frames]
        cases writtenAll .string children with
        | error _ => rfl
        | ok inside => simp [Written,Except.map,string_closed]
    · rw [children_walked children .string (some text) frames]
      cases writtenAll .string children with
      | error _ => rfl
      | ok inside => simp [Written,Except.map,string_closed]
termination_by sizeOf node

-- A node with its children, until it is closed.
theorem children_walked (children : List JsonValue) (type : JsonType) (label : Option Text) (frames : List Frame) (output : Text) :
    After walkRound (Walk.enter ⟨above,.node type label children,frames,output⟩) a ↔
      Written (writtenAll type children) a fun text =>
        Ends walkRound (.closes,⟨above,.node type label children,frames,output ++ text⟩) a := by
  match children with
  | [] =>
    show Ends walkRound _ a ↔ Ends walkRound _ a
    rw [List.append_nil]
  | first :: rest =>
    show Ends walkRound (.opens,⟨above,first,⟨type,label,[],rest⟩ :: frames,output⟩) a ↔ _
    rw [siblings_walked first rest type label [] frames output]
    simp
termination_by 1+sizeOf children

theorem siblings_walked (first : JsonValue) (rest : List JsonValue) (type : JsonType) (label : Option Text) (before : List JsonValue)
    (frames : List Frame) (output : Text) :
    Ends walkRound (.opens,⟨above,first,⟨type,label,before,rest⟩ :: frames,output⟩) a ↔
      Written (writtenAll type (first :: rest)) a fun text =>
        Ends walkRound (.closes,⟨above,.node type label (before.reverse ++ first :: rest),frames,
          output ++ (if before.isEmpty then [] else [',']) ++ text⟩) a := by
  rw [node_walked first]
  show Written (written (some type) first) a _ ↔ _
  match rest with
  | [] =>
    rw [writtenAll]
    cases written (some type) first with
    | error _ => rfl
    | ok text =>
      show Ends walkRound (.closes,_) a ↔ Ends walkRound (.closes,_) a
      cases before <;> simp [separator]
  | second :: rest =>
    rw [writtenAll]
    cases written (some type) first with
    | error _ => rfl
    | ok text =>
      show Ends walkRound (.opens,⟨above,second,⟨type,label,first :: before,rest⟩ :: frames,_⟩) a ↔ _
      rw [siblings_walked second rest type label (first :: before) frames _]
      cases writtenAll type (second :: rest) with
      | error _ => rfl
      | ok others =>
        show Ends walkRound (.closes,_) a ↔ Ends walkRound (.closes,_) a
        cases before <;> simp [separator]
termination_by 1+sizeOf first+sizeOf rest
end

-- json_tree_to_string ends for every tree, as the recursion does.
theorem tree_written (above : Option JsonType) (root : JsonValue) (answer : Except Unwritten Text) :
    TreeToString above root answer ↔ answer = written above root := by
  rw [TreeToString,node_walked]
  show Written (written above root) answer _ ↔ _
  cases written above root with
  | error reason => rfl
  | ok text => exact Iff.rfl

namespace Document

mutual
theorem value_written (d : Document) (above : Option JsonType)
    (placed : above = some .array ∨ above = some .string ∨ d.Container) :
    written above d.value = .ok d.print := by
  match d with
  | .string text =>
    rw [value,written]
    obtain rfl | rfl | ⟨_,same⟩ | ⟨_,same⟩ := placed
    · simp [writtenAll,Except.map,print]
    · simp [writtenAll,Except.map,print]
    · cases same
    · cases same
  | .number _ | .true | .false | .null => rfl
  | .array elements =>
    rw [value,written,values_written elements]
    rfl
  | .object fields =>
    rw [value,written,labels_written fields]
    rfl

theorem values_written (elements : List Document) : writtenAll .array (values elements) = .ok (printElements elements) := by
  match elements with
  | [] => rfl
  | [d] => exact value_written d _ (.inl rfl)
  | d :: e :: rest =>
    have others := values_written (e :: rest)
    rw [values] at others
    rw [values,values,writtenAll,value_written d _ (.inl rfl),others]
    rfl

theorem labels_written (fields : List ({text // Escaped text} × Document)) :
    writtenAll .object (labels fields) = .ok (printFields fields) := by
  match fields with
  | [] => rfl
  | [(text,d)] =>
    rw [labels,labels,writtenAll,written,writtenAll,value_written d _ (.inr (.inl rfl))]
    simp [Except.map,printFields]
  | (text,d) :: (name,e) :: rest =>
    have others := labels_written ((name,e) :: rest)
    rw [labels] at others
    rw [labels,labels,writtenAll,written,writtenAll,value_written d _ (.inr (.inl rfl)),others]
    simp [Except.map,bind,Except.bind,pure,Except.pure,printFields]
end

end Document

end PcNetwork.Json
