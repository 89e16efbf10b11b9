import PcNetwork.Library.Heap
import PcNetwork.Library.Siblings
import PcNetwork.Json.Value

namespace PcNetwork.Json

-- A json_value as it lies in memory.
structure JsonNode extends Links where
  type : JsonType
  text : Option Nat

-- The json_values and their texts, which are blocks of their own.
structure JsonHeap where
  nodes : Heap JsonNode
  texts : Heap Text

-- What a node is called in a tree: its type and where its text is.
structure Label where
  type : JsonType
  text : Option Nat

def unlinked : Links := ⟨none,none,none,none,none⟩

namespace JsonHeap

def empty : JsonHeap := ⟨.empty,.empty⟩

-- json_new_value behind json_new_object, json_new_array, json_new_null, json_new_true and
-- json_new_false.
def newValue (m : JsonHeap) (type : JsonType) : Nat × JsonHeap :=
  (m.nodes.count,{m with nodes := m.nodes.alloc ⟨unlinked,type,none⟩})

def newString (m : JsonHeap) (text : Text) : Nat × JsonHeap :=
  (m.nodes.count,⟨m.nodes.alloc ⟨unlinked,.string,some m.texts.count⟩,m.texts.alloc (jsonEscape text)⟩)

def newNumber (m : JsonHeap) (text : Text) : Nat × JsonHeap :=
  (m.nodes.count,⟨m.nodes.alloc ⟨unlinked,.number,some m.texts.count⟩,m.texts.alloc text⟩)

-- The type of the parent, and the type of the child and whether it has a child.
def mayHold (parent child : JsonType) (childless : Bool) : Bool :=
  match parent with
  | .string | .array =>
    match child with
    | .string | .number | .true | .false | .null => childless
    | .object | .array => Bool.true
  | .object => child = .string
  | .number | .true | .false | .null => Bool.false

def linkChild (nodes : Heap JsonNode) (parent child : Nat) : Except HeapFault (Heap JsonNode) := do
  let nodes ← nodes.modify (some child) fun v => {v with parent := some parent}
  let p ← nodes.read (some parent)
  let nodes ← (if p.child.isSome then do
      let nodes ← nodes.modify (some child) fun v => {v with previous := p.childEnd}
      let nodes ← nodes.modify p.childEnd fun v => {v with next := some child}
      nodes.modify (some parent) fun v => {v with childEnd := some child}
    else nodes.modify (some parent) fun v => {v with child := some child,childEnd := some child})
  nodes.modify (some child) fun v => {v with next := none}

def insertChild (m : JsonHeap) (parent child : Nat) : Except HeapFault (JsonError × JsonHeap) :=
  if parent = child then .error .assertion
  else do
    let p ← m.nodes.read (some parent)
    let c ← m.nodes.read (some child)
    if mayHold p.type c.type c.child.isNone then
      let nodes ← linkChild m.nodes parent child
      return (.ok,{m with nodes})
    else return (.badTreeStructure,m)

-- A label that could not take the value is left behind, and nobody has a pointer to it.
def insertPairIntoObject (m : JsonHeap) (parent : Nat) (textLabel : Text) (value : Nat) :
    Except HeapFault (JsonError × JsonHeap) :=
  if parent = value then .error .assertion
  else do
    let p ← m.nodes.read (some parent)
    if p.type = .object then
      let (label,m) := m.newString textLabel
      let (error,m) ← m.insertChild label value
      if error = .ok then m.insertChild parent label else return (error,m)
    else .error .assertion

-- Fixing sibling linked list connections.
def unlinkSiblings (nodes : Heap JsonNode) (value : Nat) : Except HeapFault (Heap JsonNode) := do
  let v ← nodes.read (some value)
  if v.previous.isSome ∧ v.next.isSome then
    let nodes ← nodes.modify v.previous fun w => {w with next := v.next}
    let v ← nodes.read (some value)
    nodes.modify v.next fun w => {w with previous := v.previous}
  else
    let nodes ← (if v.previous.isSome then nodes.modify v.previous fun w => {w with next := none} else pure nodes)
    let v ← nodes.read (some value)
    if v.next.isSome then nodes.modify v.next fun w => {w with previous := none} else pure nodes

-- Fixing parent node connections. child_end is not looked at.
def unlinkParent (nodes : Heap JsonNode) (value : Nat) : Except HeapFault (Heap JsonNode) := do
  let v ← nodes.read (some value)
  if v.parent.isSome then
    let p ← nodes.read v.parent
    if p.child = some value then
      if v.next.isSome then nodes.modify v.parent fun w => {w with child := v.next}
      else
        let nodes ← (if v.previous.isSome then nodes.modify v.parent fun w => {w with child := v.next} else pure nodes)
        nodes.modify v.parent fun w => {w with child := none}
    else pure nodes
  else pure nodes

-- json_free_value and the loop over the children in it. A recursion or a loop gets steps
-- as long as it does not come to a node twice.
mutual
def freeValue : Nat → JsonHeap → Option Nat → Except HeapFault JsonHeap
  | _,m,none => .ok m
  | 0,_,some _ => .error .endless
  | n+1,m,some value => do
    let v ← m.nodes.read (some value)
    let m ← (if v.child.isSome then freeChildren n m v.childEnd else pure m)
    let nodes ← unlinkSiblings m.nodes value
    let nodes ← unlinkParent nodes value
    let v ← nodes.read (some value)
    let texts ← m.texts.delete v.text
    let nodes ← nodes.delete (some value)
    return ⟨nodes,texts⟩

def freeChildren : Nat → JsonHeap → Option Nat → Except HeapFault JsonHeap
  | _,m,none => .ok m
  | 0,_,some _ => .error .endless
  | n+1,m,some i => do
    let v ← m.nodes.read (some i)
    let m ← freeValue n m (some i)
    freeChildren n m v.previous
end

-- A node is entered once and passed by once.
def jsonFreeValue (m : JsonHeap) (value : Nat) : Except HeapFault JsonHeap := freeValue (2*m.nodes.count) m (some value)

def readText (m : JsonHeap) : Option Nat → Except HeapFault (Option Text)
  | none => .ok none
  | some ink => do
    let text ← m.texts.read (some ink)
    return some text

-- What one comes by along child and next.
def readValues (m : JsonHeap) : Nat → Option Nat → Except HeapFault (List JsonValue)
  | _,none => .ok []
  | 0,some _ => .error .endless
  | n+1,some value => do
    let v ← m.nodes.read (some value)
    let text ← m.readText v.text
    let children ← m.readValues n v.child
    let rest ← m.readValues n v.next
    return .node v.type text children :: rest

def readValue (m : JsonHeap) (value : Nat) : Except HeapFault JsonValue := do
  let v ← m.nodes.read (some value)
  let text ← m.readText v.text
  let children ← m.readValues m.nodes.count v.child
  return .node v.type text children

end JsonHeap

inductive Call where
  | newValue (type : JsonType)
  | newString (text : Text)
  | newNumber (text : Text)
  | insertChild (parent child : Nat)
  | insertPairIntoObject (parent : Nat) (textLabel : Text) (value : Nat)
  | freeValue (value : Nat)

inductive Answer where
  | value (place : Nat)
  | error (error : JsonError)
  | done
deriving DecidableEq

-- The call gives up a label that it has made.
def Call.loses : Call → Answer → Bool
  | .insertPairIntoObject _ _ _,.error error => error ≠ .ok
  | _,_ => Bool.false

def JsonHeap.call (m : JsonHeap) : Call → Except HeapFault (Answer × JsonHeap)
  | .newValue type => .ok (.value (m.newValue type).1,(m.newValue type).2)
  | .newString text => .ok (.value (m.newString text).1,(m.newString text).2)
  | .newNumber text => .ok (.value (m.newNumber text).1,(m.newNumber text).2)
  | .insertChild parent child => do
    let (error,m) ← m.insertChild parent child
    return (.error error,m)
  | .insertPairIntoObject parent textLabel value => do
    let (error,m) ← m.insertPairIntoObject parent textLabel value
    return (.error error,m)
  | .freeValue value => do
    let m ← m.jsonFreeValue value
    return (.done,m)

def JsonHeap.run (m : JsonHeap) : List Call → Except HeapFault (List Answer × JsonHeap)
  | [] => .ok ([],m)
  | call :: calls => do
    let (answer,m) ← m.call call
    let (answers,m) ← m.run calls
    return (answer :: answers,m)

end PcNetwork.Json
