import PcNetwork.Json.Value
import PcNetwork.Library.Loop

namespace PcNetwork.Json

-- A node above the cursor, with its children in front of the one that leads there (the
-- nearest first) and those behind it.
structure Frame where
  type : JsonType
  text : Option Text
  before : List JsonValue
  behind : List JsonValue

-- The cursor of json_tree_to_string. `above` is the type of the node above the root.
structure Walk where
  above : Option JsonType
  node : JsonValue
  frames : List Frame
  output : Text

-- Why there is no text: an error that is returned, or strlen of a text that is NULL, behind
-- which nothing is defined.
inductive Unwritten where
  | error (error : JsonError)
  | nullText

inductive Phase where
  | opens
  | closes

def Walk.parentType (w : Walk) : Option JsonType :=
  match w.frames with
  | [] => w.above
  | frame :: _ => some frame.type

def Walk.child (w : Walk) : Option Walk :=
  match w.node.children with
  | [] => none
  | first :: behind => some {w with node := first,frames := ⟨w.node.type,w.node.text,[],behind⟩ :: w.frames}

def Walk.next (w : Walk) : Option Walk :=
  match w.frames with
  | ⟨type,text,before,sibling :: behind⟩ :: frames =>
    some {w with node := sibling,frames := ⟨type,text,w.node :: before,behind⟩ :: frames}
  | _ => none

def Walk.parent (w : Walk) : Option Walk :=
  match w.frames with
  | [] => none
  | frame :: frames =>
    some {w with node := .node frame.type frame.text (frame.before.reverse ++ w.node :: frame.behind),frames := frames}

-- The cursor is not the root and has a sibling in front of it.
def Walk.follows (w : Walk) : Bool :=
  match w.frames with
  | [] => Bool.false
  | frame :: _ => !frame.before.isEmpty

def Walk.put (w : Walk) (text : Text) : Walk := {w with output := w.output ++ text}

-- To the first child, or to the end of the value.
def Walk.enter (w : Walk) : Phase × Walk ⊕ Except Unwritten Text :=
  match w.child with
  | some w => .inl (.opens,w)
  | none => .inl (.closes,w)

-- state1: open value.
def openValue (w : Walk) : Phase × Walk ⊕ Except Unwritten Text :=
  let w := if w.follows then w.put [','] else w
  match w.node.type with
  | .string =>
    match w.node.text with
    | none => .inr (.error .nullText)
    | some text =>
      let w := w.put (['\x22'] ++ text ++ ['\x22'])
      match w.parentType with
      | some .object | none =>
        if w.node.children.isEmpty then .inr (.error (.error .badTreeStructure)) else (w.put [':']).enter
      | some _ => w.enter
  | .number =>
    match w.node.text with
    | none => .inr (.error .nullText)
    | some text => .inl (.closes,w.put text)
  | .object => (w.put ['{']).enter
  | .array => (w.put ['[']).enter
  | .true => .inl (.closes,w.put "true".toList)
  | .false => .inl (.closes,w.put "false".toList)
  | .null => .inl (.closes,w.put "null".toList)

-- What follows the end of a value.
def Walk.leave (w : Walk) : Phase × Walk ⊕ Except Unwritten Text :=
  match w.next,w.parent with
  | some w,_ => .inl (.opens,w)
  | none,some w => .inl (.closes,w)
  | none,none => .inr (.ok w.output)

-- state2: close value.
def closeValue (w : Walk) : Phase × Walk ⊕ Except Unwritten Text :=
  match w.node.type with
  | .object => (w.put ['}']).leave
  | .array => (w.put [']']).leave
  | _ => w.leave

def walkRound : Phase × Walk → Phase × Walk ⊕ Except Unwritten Text
  | (.opens,w) => openValue w
  | (.closes,w) => closeValue w

-- json_tree_to_string of a node below one of the type `above`.
def TreeToString (above : Option JsonType) (root : JsonValue) (answer : Except Unwritten Text) : Prop :=
  Ends walkRound (.opens,⟨above,root,[],[]⟩) answer

end PcNetwork.Json
