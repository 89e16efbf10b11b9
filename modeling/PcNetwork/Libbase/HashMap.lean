import PcNetwork.Library.Block
import PcNetwork.Library.Chain
import Mathlib.Data.List.Dedup
import Mathlib.Data.List.Perm.Subperm

namespace PcNetwork.Libbase

def varSize : Nat := 1024

-- What a const char* points to, in front of the byte that ends it.
@[ext] structure CString where
  bytes : List UInt8
  ends : 0 ∉ bytes
deriving DecidableEq

def text (array : List UInt8) : List UInt8 := array.takeWhile (· != 0)
def strcpy (array bytes : List UInt8) : List UInt8 := Block.patch array 0 (bytes ++ [0])

-- A char is signed, and the C locale knows no letters beyond ASCII.
def tolower (c : Int8) : Int8 := if 65 ≤ c ∧ c ≤ 90 then c+32 else c

def hashLoop (hash i : Int32) : List UInt8 → Int32
  | [] => hash
  | byte :: fname =>
    let letter := tolower byte.toInt8
    hashLoop (hash+letter.toInt32*(i+119)) (i+1) fname

def generateHashValue (fname : List UInt8) : Int32 := hashLoop 0 0 fname &&& 1023

structure Cvar where
  key : List UInt8
  hashNext : Option Nat
  next : Option Nat

-- A failed assertion, an index that is not in its array, and a chain that does not end.
inductive MapFault where
  | assertion
  | outside
  | endless
deriving DecidableEq, Repr

-- Pointers to nodes are indices into the array of nodes.
structure HashMap where
  table : List (Option Nat)
  nodes : List Cvar
  nodeHead : Option Nat
  capacity : Nat
  nodeIndex : Nat

namespace HashMap

-- The array of nodes is what new[] leaves in it.
def new (memory : Nat → Cvar) : HashMap :=
  ⟨List.replicate varSize none,(List.range varSize).map memory,none,varSize,0⟩

def bucket (h : HashMap) (hash : Int32) : Except MapFault (Option Nat) :=
  if hash.toInt < 0 then .error .outside
  else match h.table[hash.toInt.toNat]? with
    | some kn => .ok kn
    | none => .error .outside

-- A chain that visits more nodes than there are does not end.
def findLoop (nodes : List Cvar) (key : List UInt8) : Nat → Option Nat → Except MapFault (Option Nat)
  | _,none => .ok none
  | 0,some _ => .error .endless
  | n+1,some kn => match nodes[kn]? with
    | none => .error .outside
    | some node => if text node.key = key then .ok (some kn) else findLoop nodes key n node.hashNext

def find (h : HashMap) (key : CString) : Except MapFault (Option Nat) := do
  let kn ← h.bucket (generateHashValue key.bytes)
  findLoop h.nodes key.bytes h.nodes.length kn

-- The next node of the array gets the key and comes in front of its chain and of the
-- list of all nodes.
def link (h : HashMap) (key : CString) (node : Cvar) (below : Option Nat) : HashMap :=
  {h with
    nodes := h.nodes.set h.nodeIndex ⟨strcpy node.key key.bytes,below,h.nodeHead⟩,
    table := h.table.set (generateHashValue key.bytes).toInt.toNat (some h.nodeIndex),
    nodeHead := some h.nodeIndex,nodeIndex := h.nodeIndex+1}

def create (h : HashMap) (key : CString) : Except MapFault (Nat × HashMap) :=
  match h.nodes[h.nodeIndex]? with
  | none => .error .outside
  | some node => do
    let below ← h.bucket (generateHashValue key.bytes)
    return (h.nodeIndex,h.link key node below)

def get (h : HashMap) (key : CString) : Except MapFault (Nat × HashMap) :=
  if ¬ key.bytes.length < 100 then .error .assertion
  else do
    let kn ← h.find key
    match kn with
    | some kn => return (kn,h)
    | none => if ¬ h.nodeIndex < h.capacity then .error .assertion else h.create key

def isExist (h : HashMap) (key : CString) : Except MapFault Bool := do
  let kn ← h.find key
  return kn.isSome

inductive Call where
  | get (key : CString)
  | isExist (key : CString)
deriving DecidableEq

inductive Answer where
  | node (kn : Nat)
  | exist (found : Bool)
deriving DecidableEq

def perform (h : HashMap) : Call → Except MapFault (Answer × HashMap)
  | .get key => do
    let kn ← h.get key
    return (.node kn.1,kn.2)
  | .isExist key => do
    let found ← h.isExist key
    return (.exist found,h)

def run (h : HashMap) : List Call → Except MapFault (List Answer × HashMap)
  | [] => .ok ([],h)
  | call :: calls => do
    let first ← h.perform call
    let rest ← run first.2 calls
    return (first.1 :: rest.1,rest.2)

end HashMap

-- The purpose of the map: it learns every key it is asked for once, in the order it is
-- asked for them, and knows a key by its place.
namespace Keys
open HashMap

def learn (keys : List CString) : Call → List CString
  | .get key => if key ∈ keys then keys else keys ++ [key]
  | .isExist _ => keys

def learnAll (keys : List CString) (calls : List Call) : List CString := calls.foldl learn keys

def answer (keys : List CString) : Call → Answer
  | .get key => .node ((learn keys (.get key)).idxOf key)
  | .isExist key => .exist (decide (key ∈ keys))

def answers (keys : List CString) : List Call → List Answer
  | [] => []
  | call :: calls => answer keys call :: answers (learn keys call) calls

end Keys

theorem hash_range (fname : List UInt8) : 0 ≤ (generateHashValue fname).toInt ∧ (generateHashValue fname).toInt < varSize := by
  have masked : (hashLoop 0 0 fname &&& 1023).toBitVec.toNat ≤ 1023 := by
    rw [Int32.toBitVec_and,BitVec.toNat_and]
    exact Nat.and_le_right
  rw [generateHashValue,← Int32.toInt_toBitVec,BitVec.toInt_eq_toNat_of_lt (by omega)]
  unfold varSize
  omega

theorem text_strcpy (array : List UInt8) (s : CString) : text (strcpy array s.bytes) = s.bytes := by
  have stays : ∀ b ∈ s.bytes, (b != 0) = true := by
    intro b member
    refine bne_iff_ne.mpr ?_
    rintro rfl
    exact s.ends member
  rw [text,strcpy,Block.patch,List.take_zero,List.nil_append,List.append_assoc,List.takeWhile_append_of_pos stays]
  simp

namespace HashMap
open Keys

def place (key : CString) : Nat := (generateHashValue key.bytes).toInt.toNat

theorem place_lt (key : CString) : place key < varSize := by
  have range := hash_range key.bytes
  unfold place
  omega

theorem bucket_ok {h : HashMap} {kn : Option Nat} (key : CString) (here : h.table[place key]? = some kn) :
    h.bucket (generateHashValue key.bytes) = .ok kn := by
  have range := hash_range key.bytes
  rw [bucket,if_neg (by omega)]
  show (match h.table[place key]? with | some kn => Except.ok kn | none => Except.error MapFault.outside) = _
  rw [here]

def hashLinks (nodes : List Cvar) (i : Nat) : Option (Option Nat) := nodes[i]?.map Cvar.hashNext
def nextLinks (nodes : List Cvar) (i : Nat) : Option (Option Nat) := nodes[i]?.map Cvar.next

-- The nodes in use are the first ones of the array, in the order of the keys. A chain of
-- the table has the nodes whose keys belong there, the list from the head has all of them.
structure Holds (h : HashMap) (keys : List CString) : Prop where
  distinct : keys.Nodup
  table : h.table.length = varSize
  nodes : h.nodes.length = varSize
  capacity : h.capacity = varSize
  index : h.nodeIndex = keys.length
  room : keys.length ≤ varSize
  stored : ∀ (i : Nat) (key : CString), keys[i]? = some key → ∃ node, h.nodes[i]? = some node ∧ text node.key = key.bytes
  chains : ∀ b < varSize, ∃ p places, h.table[b]? = some p ∧ Chain (hashLinks h.nodes) p places ∧
    ∀ i, i ∈ places ↔ ∃ key, keys[i]? = some key ∧ place key = b
  heads : Chain (nextLinks h.nodes) h.nodeHead (List.range keys.length).reverse

variable {h : HashMap} {keys : List CString}

theorem new_holds (memory : Nat → Cvar) : Holds (new memory) [] where
  distinct := .nil
  table := List.length_replicate
  nodes := by rw [new,List.length_map,List.length_range]
  capacity := rfl
  index := rfl
  room := Nat.zero_le _
  stored i key known := by cases known
  chains b low := by
    refine ⟨none,[],List.getElem?_replicate_of_lt low,.nil,?_⟩
    intro i
    constructor
    · exact fun member => absurd member List.not_mem_nil
    · rintro ⟨key,known,-⟩
      cases known
  heads := .nil

theorem index_of_known {key : CString} {i : Nat} (known : keys[i]? = some key) : i < keys.length :=
  (List.getElem?_eq_some_iff.mp known).1

theorem findLoop_chain {nodes : List Cvar} {p : Option Nat} {places : List Nat} (key : List UInt8)
    (chain : Chain (hashLinks nodes) p places) (enough : places.length ≤ n) :
    findLoop nodes key n p = .ok (places.find? fun i => (nodes[i]?.map fun node => text node.key) == some key) := by
  induction chain generalizing n with
  | nil => cases n <;> rfl
  | @cons a next places here _ ih =>
    obtain ⟨m,rfl⟩ : ∃ m, n = m+1 := Nat.exists_eq_add_of_le' (Nat.le_trans (Nat.le_add_left 1 _) enough)
    obtain ⟨node,there,rfl⟩ := Option.map_eq_some_iff.mp here
    rw [findLoop,there,List.find?_cons,there]
    dsimp only [Option.map_some]
    rw [ih (Nat.le_of_succ_le_succ enough)]
    by_cases same : text node.key = key
    · rw [if_pos same,same,beq_self_eq_true]
    · rw [if_neg same,beq_false_of_ne (fun equal => same (Option.some.inj equal))]

-- What the chain of a key's place is searched for is the key's node.
theorem find_chain (holds : Holds h keys) (key : CString) : ∃ places : List Nat,
    h.find key = .ok (places.find? fun i => (h.nodes[i]?.map fun node => text node.key) == some key.bytes) ∧
    ∀ i, i ∈ places ↔ ∃ k, keys[i]? = some k ∧ place k = place key := by
  obtain ⟨p,places,here,chain,members⟩ := holds.chains (place key) (place_lt key)
  refine ⟨places,?_,members⟩
  have inside : places ⊆ List.range h.nodes.length := by
    intro i member
    obtain ⟨k,known,-⟩ := (members i).mp member
    rw [holds.nodes]
    exact List.mem_range.mpr (Nat.lt_of_lt_of_le (index_of_known known) holds.room)
  have enough := (List.subperm_of_subset chain.nodup inside).length_le
  rw [List.length_range] at enough
  rw [find,bucket_ok key here]
  exact findLoop_chain key.bytes chain enough

theorem stored_key (holds : Holds h keys) {i : Nat} {k : CString} (known : keys[i]? = some k) (key : CString) :
    ((h.nodes[i]?.map fun node => text node.key) == some key.bytes) = true ↔ k = key := by
  obtain ⟨node,here,same⟩ := holds.stored i k known
  rw [here,Option.map_some,same,beq_iff_eq,Option.some.injEq]
  exact ⟨CString.ext,congrArg CString.bytes⟩

theorem find_unknown (holds : Holds h keys) {key : CString} (unknown : key ∉ keys) : h.find key = .ok none := by
  obtain ⟨places,found,members⟩ := find_chain holds key
  rw [found,List.find?_eq_none.mpr]
  intro i member equal
  obtain ⟨k,known,-⟩ := (members i).mp member
  cases (stored_key holds known key).mp equal
  exact unknown (List.mem_of_getElem? known)

theorem find_known (holds : Holds h keys) {key : CString} (known : key ∈ keys) :
    h.find key = .ok (some (keys.idxOf key)) := by
  obtain ⟨places,found,members⟩ := find_chain holds key
  have mine := List.getElem?_idxOf known
  rw [found]
  cases first : places.find? fun i => (h.nodes[i]?.map fun node => text node.key) == some key.bytes with
  | none =>
    have missed := List.find?_eq_none.mp first _ ((members _).mpr ⟨key,mine,rfl⟩)
    exact absurd ((stored_key holds mine key).mpr rfl) missed
  | some i =>
    obtain ⟨k,there,-⟩ := (members i).mp (List.mem_of_find?_eq_some first)
    have hit := List.find?_some first
    cases (stored_key holds there key).mp hit
    have low := index_of_known there
    rw [(List.getElem?_inj low holds.distinct).mp (there.trans mine.symm)]

theorem known_append (keys : List CString) (key : CString) (i : Nat) (P : CString → Prop) :
    (∃ k, (keys ++ [key])[i]? = some k ∧ P k) ↔ (i = keys.length ∧ P key) ∨ ∃ k, keys[i]? = some k ∧ P k := by
  rcases Nat.lt_trichotomy i keys.length with low | rfl | high
  · rw [List.getElem?_append_left low]
    constructor
    · exact .inr
    · rintro (⟨rfl,-⟩ | old)
      · exact absurd low (Nat.lt_irrefl _)
      · exact old
  · rw [List.getElem?_concat_length,List.getElem?_eq_none (Nat.le_refl _)]
    constructor
    · rintro ⟨k,same,holds⟩
      cases same
      exact .inl ⟨rfl,holds⟩
    · rintro (⟨-,holds⟩ | ⟨k,none,-⟩)
      · exact ⟨key,rfl,holds⟩
      · cases none
  · rw [List.getElem?_eq_none (by rw [List.length_append]; exact high),List.getElem?_eq_none (Nat.le_of_lt high)]
    constructor
    · rintro ⟨k,none,-⟩
      cases none
    · rintro (⟨rfl,-⟩ | ⟨k,none,-⟩)
      · exact absurd high (Nat.lt_irrefl _)
      · cases none

theorem nodup_one_more {key : CString} (distinct : keys.Nodup) (unknown : key ∉ keys) : (keys ++ [key]).Nodup := by
  rw [← List.concat_eq_append]
  exact distinct.concat unknown

section Link
variable (key : CString) (node : Cvar) (below : Option Nat)

theorem link_here (inside : h.nodeIndex < h.nodes.length) :
    (h.link key node below).nodes[h.nodeIndex]? = some ⟨strcpy node.key key.bytes,below,h.nodeHead⟩ :=
  List.getElem?_set_self inside

theorem link_other {i : Nat} (earlier : i < h.nodeIndex) : (h.link key node below).nodes[i]? = h.nodes[i]? :=
  List.getElem?_set_ne (Nat.ne_of_gt earlier)

-- The chains of earlier nodes are as before.
theorem link_hash {p : Option Nat} {places : List Nat} (chain : Chain (hashLinks h.nodes) p places)
    (earlier : ∀ i ∈ places, i < h.nodeIndex) : Chain (hashLinks (h.link key node below).nodes) p places := by
  refine chain.frame fun i member => ?_
  rw [hashLinks,hashLinks,link_other key node below (earlier i member)]

theorem link_next {p : Option Nat} {places : List Nat} (chain : Chain (nextLinks h.nodes) p places)
    (earlier : ∀ i ∈ places, i < h.nodeIndex) : Chain (nextLinks (h.link key node below).nodes) p places := by
  refine chain.frame fun i member => ?_
  rw [nextLinks,nextLinks,link_other key node below (earlier i member)]

theorem link_stored (holds : Holds h keys) (inside : h.nodeIndex < h.nodes.length) {i : Nat} {k : CString}
    (known : (keys ++ [key])[i]? = some k) :
    ∃ cell, (h.link key node below).nodes[i]? = some cell ∧ text cell.key = k.bytes := by
  rcases (known_append keys key i (· = k)).mp ⟨k,known,rfl⟩ with ⟨rfl,rfl⟩ | ⟨_,earlier,rfl⟩
  · rw [← holds.index]
    exact ⟨_,link_here key node below inside,text_strcpy _ _⟩
  · obtain ⟨cell,here,same⟩ := holds.stored i _ earlier
    have low := index_of_known earlier
    rw [← holds.index] at low
    exact ⟨cell,(link_other key node below low).trans here,same⟩

-- The new node comes in front of the chain of its place.
theorem link_chains (holds : Holds h keys) (inside : h.nodeIndex < h.nodes.length)
    (below_here : h.table[place key]? = some below) {b : Nat} (low : b < varSize) :
    ∃ p places, (h.link key node below).table[b]? = some p ∧ Chain (hashLinks (h.link key node below).nodes) p places ∧
      ∀ i, i ∈ places ↔ ∃ k, (keys ++ [key])[i]? = some k ∧ place k = b := by
  obtain ⟨p,places,here,chain,members⟩ := holds.chains b low
  have earlier : ∀ i ∈ places, i < h.nodeIndex := by
    intro i member
    obtain ⟨k,known,-⟩ := (members i).mp member
    rw [holds.index]
    exact index_of_known known
  have chain' := link_hash key node below chain earlier
  by_cases same : b = place key
  · subst same
    cases here.symm.trans below_here
    refine ⟨some h.nodeIndex,h.nodeIndex :: places,?_,.cons ?_ chain',?_⟩
    · exact List.getElem?_set_self (by rw [holds.table]; exact low)
    · rw [hashLinks,link_here key node _ inside]
      rfl
    · intro i
      rw [List.mem_cons,known_append,members,holds.index]
      exact or_congr_left (and_iff_left rfl).symm
  · refine ⟨p,places,?_,chain',?_⟩
    · exact (List.getElem?_set_ne (Ne.symm same)).trans here
    · intro i
      rw [known_append,members]
      exact (or_iff_right fun last => same last.2.symm).symm

theorem link_heads (holds : Holds h keys) (inside : h.nodeIndex < h.nodes.length) :
    Chain (nextLinks (h.link key node below).nodes) (h.link key node below).nodeHead (List.range (keys ++ [key]).length).reverse := by
  have longer : (List.range (keys ++ [key]).length).reverse = h.nodeIndex :: (List.range keys.length).reverse := by
    rw [List.length_append,List.length_singleton,List.range_succ,List.reverse_append,holds.index]
    rfl
  have chain := link_next key node below holds.heads (by
    intro i member
    rw [holds.index]
    exact List.mem_range.mp (List.mem_reverse.mp member))
  rw [longer]
  refine .cons ?_ chain
  rw [nextLinks,link_here key node below inside]
  rfl

end Link

-- The new node becomes the head of its chain and of the list.
theorem create_holds (holds : Holds h keys) {key : CString} (unknown : key ∉ keys) (room : keys.length < varSize) :
    ∃ next, h.create key = .ok (keys.length,next) ∧ Holds next (keys ++ [key]) := by
  obtain ⟨below,-,here,-⟩ := holds.chains (place key) (place_lt key)
  have inside : h.nodeIndex < h.nodes.length := by
    rw [holds.index,holds.nodes]
    exact room
  have there := List.getElem?_eq_getElem inside
  refine ⟨h.link key h.nodes[h.nodeIndex] below,?_,?_⟩
  · rw [create,there]
    dsimp only
    rw [bucket_ok key here,← holds.index]
    rfl
  · have longer : (keys ++ [key]).length = keys.length+1 := List.length_append
    exact {
      distinct := nodup_one_more holds.distinct unknown
      table := List.length_set.trans holds.table
      nodes := List.length_set.trans holds.nodes
      capacity := holds.capacity
      index := (congrArg (·+1) holds.index).trans longer.symm
      room := longer ▸ room
      stored := fun i k => link_stored key _ below holds inside
      chains := fun b => link_chains key _ below holds inside here
      heads := link_heads key _ below holds inside}

theorem get_holds (holds : Holds h keys) {key : CString} (short : key.bytes.length < 100)
    (room : (learn keys (.get key)).length ≤ varSize) :
    ∃ next, h.get key = .ok ((learn keys (.get key)).idxOf key,next) ∧ Holds next (learn keys (.get key)) := by
  unfold learn at room ⊢
  dsimp only at room ⊢
  rw [get,if_neg (not_not.mpr short)]
  by_cases known : key ∈ keys
  · rw [if_pos known,find_known holds known]
    exact ⟨h,rfl,holds⟩
  · rw [if_neg known,List.length_append] at room
    have space : keys.length < varSize := room
    obtain ⟨next,created,holds'⟩ := create_holds holds known space
    rw [if_neg known,find_unknown holds known]
    refine ⟨next,?_,holds'⟩
    show (if ¬ h.nodeIndex < h.capacity then _ else _) = _
    rw [holds.index,holds.capacity,if_neg (not_not.mpr space),created,List.idxOf_append_of_notMem known]
    simp

theorem isExist_holds (holds : Holds h keys) (key : CString) : h.isExist key = .ok (decide (key ∈ keys)) := by
  rw [isExist]
  by_cases known : key ∈ keys
  · rw [find_known holds known,decide_eq_true known]
    rfl
  · rw [find_unknown holds known,decide_eq_false known]
    rfl

theorem learn_grows (keys : List CString) (call : Call) : keys <+: learn keys call := by
  cases call with
  | get key =>
    unfold learn
    dsimp only
    split
    · exact List.prefix_refl _
    · exact List.prefix_append _ _
  | isExist key => exact List.prefix_refl _

theorem learnAll_grows (keys : List CString) (calls : List Call) : keys <+: learnAll keys calls := by
  induction calls generalizing keys with
  | nil => exact List.prefix_refl _
  | cons call calls ih => exact (learn_grows keys call).trans (ih _)

-- The map answers as its abstract model does.
theorem run_holds (holds : Holds h keys) (calls : List Call) (short : ∀ key, Call.get key ∈ calls → key.bytes.length < 100)
    (room : (learnAll keys calls).length ≤ varSize) :
    ∃ last, run h calls = .ok (answers keys calls,last) ∧ Holds last (learnAll keys calls) := by
  induction calls generalizing h keys with
  | nil => exact ⟨h,rfl,holds⟩
  | cons call calls ih =>
    have space := Nat.le_trans (learnAll_grows (learn keys call) calls).length_le room
    have step : ∃ next, h.perform call = .ok (answer keys call,next) ∧ Holds next (learn keys call) := by
      cases call with
      | get key =>
        obtain ⟨next,got,holds'⟩ := get_holds holds (short key List.mem_cons_self) space
        refine ⟨next,?_,holds'⟩
        rw [perform,got]
        rfl
      | isExist key =>
        refine ⟨h,?_,holds⟩
        rw [perform,isExist_holds holds key]
        rfl
    obtain ⟨next,ran,holds'⟩ := step
    obtain ⟨last,ran',holds''⟩ := ih holds' (fun key member => short key (List.mem_cons_of_mem _ member)) room
    refine ⟨last,?_,holds''⟩
    rw [run,ran]
    show (run next calls >>= _) = _
    rw [ran']
    rfl

end HashMap

namespace Keys
open HashMap

variable {keys : List CString} {calls : List Call} {key : CString}

theorem mem_learn {call : Call} : key ∈ learn keys call ↔ key ∈ keys ∨ call = .get key := by
  cases call with
  | isExist other =>
    show key ∈ keys ↔ _
    exact (or_iff_left (fun same => by cases same)).symm
  | get other =>
    unfold learn
    dsimp only
    rw [Call.get.injEq]
    split
    · rename_i known
      refine (or_iff_left_of_imp ?_).symm
      rintro rfl
      exact known
    · rw [List.mem_append,List.mem_singleton,eq_comm]

theorem mem_learnAll : key ∈ learnAll keys calls ↔ key ∈ keys ∨ Call.get key ∈ calls := by
  induction calls generalizing keys with
  | nil => exact (or_iff_left List.not_mem_nil).symm
  | cons call calls ih =>
    show key ∈ learnAll (learn keys call) calls ↔ _
    rw [ih,mem_learn,List.mem_cons,or_assoc,eq_comm]

theorem learn_nodup (distinct : keys.Nodup) (call : Call) : (learn keys call).Nodup := by
  cases call with
  | isExist other => exact distinct
  | get other =>
    unfold learn
    dsimp only
    split
    · exact distinct
    · rename_i unknown
      exact nodup_one_more distinct unknown

theorem learnAll_nodup (distinct : keys.Nodup) (calls : List Call) : (learnAll keys calls).Nodup := by
  induction calls generalizing keys with
  | nil => exact distinct
  | cons call calls ih => exact ih (learn_nodup distinct call)

theorem length_answers (keys : List CString) (calls : List Call) : (answers keys calls).length = calls.length := by
  induction calls generalizing keys with
  | nil => rfl
  | cons call calls ih => exact congrArg (·+1) (ih _)

-- A key keeps its place.
theorem answers_get {i : Nat} (asked : calls[i]? = some (.get key)) :
    (answers keys calls)[i]? = some (.node ((learnAll keys calls).idxOf key)) := by
  induction calls generalizing keys i with
  | nil => cases asked
  | cons call calls ih =>
    cases i with
    | zero =>
      cases asked
      obtain ⟨later,same⟩ := learnAll_grows (learn keys (.get key)) calls
      have known : key ∈ learn keys (.get key) := mem_learn.mpr (.inr rfl)
      show some (answer keys (.get key)) = some (Answer.node ((learnAll (learn keys (.get key)) calls).idxOf key))
      rw [← same,List.idxOf_append_of_mem known]
      rfl
    | succ i => exact ih asked

theorem answers_isExist {i : Nat} (asked : calls[i]? = some (.isExist key)) :
    (answers keys calls)[i]? = some (.exist (decide (key ∈ learnAll keys (calls.take i)))) := by
  induction calls generalizing keys i with
  | nil => cases asked
  | cons call calls ih =>
    cases i with
    | zero =>
      cases asked
      rfl
    | succ i => exact ih asked

-- The places that were given as answers are those of the keys.
theorem node_mem_answers {n : Nat} : Answer.node n ∈ answers [] calls ↔ n < (learnAll [] calls).length := by
  constructor
  · intro member
    obtain ⟨i,here⟩ := List.mem_iff_getElem?.mp member
    obtain ⟨low,-⟩ := List.getElem?_eq_some_iff.mp here
    rw [length_answers] at low
    cases asked : calls[i] with
    | get key =>
      have known := List.getElem?_eq_some_iff.mpr ⟨low,asked⟩
      cases here.symm.trans (answers_get known)
      exact List.idxOf_lt_length_of_mem (mem_learnAll.mpr (.inr (List.mem_of_getElem? known)))
    | isExist key =>
      have known := List.getElem?_eq_some_iff.mpr ⟨low,asked⟩
      cases here.symm.trans (answers_isExist known)
  · intro low
    have member := List.getElem_mem low
    obtain ⟨i,known⟩ := List.mem_iff_getElem?.mp ((mem_learnAll.mp member).resolve_left List.not_mem_nil)
    have here : (answers [] calls)[i]? = some (.node ((learnAll [] calls).idxOf (learnAll [] calls)[n])) :=
      answers_get known
    rw [(learnAll_nodup .nil calls).idxOf_getElem] at here
    exact List.mem_of_getElem? here

end Keys

namespace HashMap
open Keys

def gets (calls : List Call) : List CString :=
  calls.filterMap fun call => match call with
    | .get key => some key
    | .isExist _ => none

theorem mem_gets {calls : List Call} {key : CString} : key ∈ gets calls ↔ Call.get key ∈ calls := by
  rw [gets,List.mem_filterMap]
  constructor
  · rintro ⟨call,member,same⟩
    cases call with
    | get other =>
      cases same
      exact member
    | isExist other => cases same
  · intro member
    exact ⟨_,member,rfl⟩

-- Equal keys get one node and different keys different ones, a node has the key it was
-- asked for, isExist knows exactly the keys that were asked for before, and both the
-- chains and the list of all nodes end, the latter after every node in use.
structure MapsKeys (calls : List Call) (given : List Answer) (h : HashMap) : Prop where
  gets : ∀ (i : Nat) (key : CString), calls[i]? = some (.get key) →
    ∃ n node, given[i]? = some (.node n) ∧ h.nodes[n]? = some node ∧ text node.key = key.bytes
  same : ∀ (i j : Nat) (key other : CString) (n m : Nat), calls[i]? = some (.get key) → calls[j]? = some (.get other) →
    given[i]? = some (.node n) → given[j]? = some (.node m) → (n = m ↔ key = other)
  exist : ∀ (i : Nat) (key : CString), calls[i]? = some (.isExist key) →
    given[i]? = some (.exist (decide (Call.get key ∈ calls.take i)))
  chains : ∀ b < varSize, ∃ p places, h.table[b]? = some p ∧ Chain (hashLinks h.nodes) p places ∧ places.Nodup
  heads : ∃ places, Chain (nextLinks h.nodes) h.nodeHead places ∧ places.Nodup ∧
    ∀ n, n ∈ places ↔ Answer.node n ∈ given

theorem keys_mapped (memory : Nat → Cvar) (calls : List Call) (short : ∀ key ∈ gets calls, key.bytes.length < 100)
    (few : (gets calls).dedup.length ≤ varSize) :
    (∀ fname, 0 ≤ (generateHashValue fname).toInt ∧ (generateHashValue fname).toInt < varSize) ∧
    ∃ given h, run (new memory) calls = .ok (given,h) ∧ MapsKeys calls given h := by
  have known (key : CString) : key ∈ learnAll [] calls ↔ Call.get key ∈ calls := by
    rw [mem_learnAll]
    exact or_iff_right List.not_mem_nil
  have distinct : (learnAll [] calls).Nodup := learnAll_nodup .nil calls
  have room : (learnAll [] calls).length ≤ varSize := by
    have same : (learnAll [] calls).Perm (gets calls).dedup := by
      refine (List.perm_ext_iff_of_nodup distinct (List.nodup_dedup _)).mpr fun key => ?_
      rw [known,List.mem_dedup,mem_gets]
    rw [same.length_eq]
    exact few
  obtain ⟨h,ran,holds⟩ := run_holds (new_holds memory) calls (fun key member => short key (mem_gets.mpr member)) room
  refine ⟨hash_range,answers [] calls,h,ran,?_,?_,?_,?_,?_⟩
  · intro i key asked
    have mine := List.getElem?_idxOf ((known key).mpr (List.mem_of_getElem? asked))
    obtain ⟨node,here,text⟩ := holds.stored _ key mine
    exact ⟨_,node,answers_get asked,here,text⟩
  · intro i j key other n m asked asked' here here'
    cases here.symm.trans (answers_get asked)
    cases here'.symm.trans (answers_get asked')
    exact List.idxOf_inj ((known key).mpr (List.mem_of_getElem? asked))
  · intro i key asked
    have before : key ∈ learnAll [] (calls.take i) ↔ Call.get key ∈ calls.take i :=
      mem_learnAll.trans (or_iff_right List.not_mem_nil)
    rw [answers_isExist asked,decide_eq_decide.mpr before]
  · intro b low
    obtain ⟨p,places,here,chain,-⟩ := holds.chains b low
    exact ⟨p,places,here,chain,chain.nodup⟩
  · refine ⟨_,holds.heads,holds.heads.nodup,?_⟩
    intro n
    rw [node_mem_answers,List.mem_reverse,List.mem_range]

-- Two keys that differ in case only share a chain, and one has a letter that is a
-- negative char.
theorem keys_mapped_folded : (∀ fname, 0 ≤ (generateHashValue fname).toInt ∧ (generateHashValue fname).toInt < varSize) ∧
    ∃ given h, run (new fun _ => ⟨List.replicate 100 0xCD,none,none⟩)
      [.get ⟨[0x61,0xC4],by decide⟩,.get ⟨[0x41,0xC4],by decide⟩,.isExist ⟨[0x61],by decide⟩] = .ok (given,h) ∧
      MapsKeys [.get ⟨[0x61,0xC4],by decide⟩,.get ⟨[0x41,0xC4],by decide⟩,.isExist ⟨[0x61],by decide⟩] given h :=
  keys_mapped _ _ (by decide) (by decide)

end HashMap
end PcNetwork.Libbase
