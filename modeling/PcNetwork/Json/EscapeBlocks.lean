import PcNetwork.Json.RcString
import PcNetwork.Json.Built

namespace PcNetwork.Json
open Cells RcString

variable {bits : Nat} {output : RcString} {s t : Text} {cells : List (Option Char)} {c d : Char}

def escapeRound (bits : Nat) (output : RcString) (c : Char) : Option RcString :=
  match c with
  | '\x5C' => output.catcs bits ['\x5C','\x5C'] 2
  | '\x22' => output.catcs bits ['\x5C','\x22'] 2
  | '/' => output.catcs bits ['\x5C','/'] 2
  | '\x08' => output.catcs bits ['\x5C','b'] 2
  | '\x0C' => output.catcs bits ['\x5C','f'] 2
  | '\n' => output.catcs bits ['\x5C','n'] 2
  | '\r' => output.catcs bits ['\x5C','r'] 2
  | '\t' => output.catcs bits ['\x5C','t'] 2
  | c => output.catc bits c

-- json_escape as it works on the blocks, with a size_t of so many bits.
def jsonEscapeBlock (bits : Nat) (text : List (Option Char)) : Option (List (Option Char)) := do
  let length ← strlen nul text
  let output ← (text.take length).foldlM (fun output cell => cell >>= escapeRound bits output) (create bits length)
  output.unwrap bits

def unescapeCase (bits : Nat) (output : RcString) (c : Char) : Option RcString :=
  match c with
  | '\x22' => output.catc bits '\x22'
  | '\x5C' => output.catc bits '\x5C'
  | '/' => output.catc bits '/'
  | 'b' => output.catc bits '\x08'
  | 'f' => output.catc bits '\x0C'
  | 'n' => output.catc bits '\n'
  | 'r' => output.catc bits '\r'
  | 't' => output.catc bits '\t'
  | c => output.catc bits '\x5C' >>= fun output => output.catc bits c

-- The character behind a backslash is read also when it is the NUL.
def unescapeLoop (bits : Nat) : List (Option Char) → Nat → RcString → Option RcString
  | _,0,output => some output
  | some c :: rest,n+1,output =>
    if c = '\x5C' then
      match rest with
      | some d :: rest => unescapeCase bits output d >>= unescapeLoop bits rest (n-1)
      | _ => none
    else output.catc bits c >>= unescapeLoop bits rest n
  | _,_+1,_ => none

def jsonUnescapeBlock (bits : Nat) (text : List (Option Char)) : Option (List (Option Char)) := do
  let length ← strlen nul text
  let output ← unescapeLoop bits text length (create bits length)
  output.unwrap bits

theorem escapeRound_holds (holds : output.Holds t) (solid : c ≠ nul) (small : t.length+2+6 < 2^bits) :
    ∃ r, escapeRound bits output c = some r ∧ r.Holds (t ++ escapeChar c) := by
  unfold escapeRound
  split
  · exact holds.catcs ['\x5C','\x5C'] 2 small
  · exact holds.catcs ['\x5C','\x22'] 2 small
  · exact holds.catcs ['\x5C','/'] 2 small
  · exact holds.catcs ['\x5C','b'] 2 small
  · exact holds.catcs ['\x5C','f'] 2 small
  · exact holds.catcs ['\x5C','n'] 2 small
  · exact holds.catcs ['\x5C','r'] 2 small
  · exact holds.catcs ['\x5C','t'] 2 small
  · have plain : escapeChar c = front nul [c] := by
      rw [front_same (by simpa using solid.symm)]
      unfold escapeChar
      split <;> first | contradiction | rfl
    rw [plain]
    exact holds.catc c (by omega)

theorem escapeChar_short (c : Char) : (escapeChar c).length ≤ 2 := by
  unfold escapeChar
  split <;> simp

theorem escape_short (s : Text) : (jsonEscape s).length ≤ 2*s.length := by
  induction s with
  | nil => exact Nat.le_refl 0
  | cons c s ih =>
    have first := escapeChar_short c
    rw [jsonEscape] at ih ⊢
    rw [List.flatMap_cons,List.length_append,List.length_cons]
    omega

theorem unescape_short (s : Text) : (jsonUnescape s).length ≤ s.length := by
  fun_induction jsonUnescape s <;> simp only [List.length_cons,List.length_nil] at * <;> omega

theorem escapeLoop_holds (clean : nul ∉ s) (holds : output.Holds t) (small : t.length+2*s.length+6 < 2^bits) :
    ∃ r, (s.map some).foldlM (fun output cell => cell >>= escapeRound bits output) output = some r ∧ r.Holds (t ++ jsonEscape s) := by
  induction s generalizing output t with
  | nil => exact ⟨output,rfl,by rwa [jsonEscape,List.flatMap_nil,List.append_nil]⟩
  | cons c s ih =>
    obtain ⟨other,clean⟩ := List.ne_and_not_mem_of_not_mem_cons clean
    have first := escapeChar_short c
    rw [List.length_cons] at small
    obtain ⟨next,ran,held⟩ := escapeRound_holds holds (Ne.symm other) (show t.length+2+6 < 2^bits by omega)
    obtain ⟨r,ran',held'⟩ := ih clean held (by rw [List.length_append]; omega)
    refine ⟨r,?_,?_⟩
    · simp only [List.map_cons,List.foldlM_cons,bind,Option.bind,ran]
      exact ran'
    · rwa [jsonEscape,List.flatMap_cons,← List.append_assoc]

theorem unescapeCase_holds (holds : output.Holds t) (solid : d ≠ nul) (small : t.length+5 < 2^bits) :
    ∃ r, unescapeCase bits output d = some r ∧ ∃ piece, piece.length ≤ 2 ∧ r.Holds (t ++ piece) ∧
      ∀ rest, jsonUnescape ('\x5C' :: d :: rest) = piece ++ jsonUnescape rest := by
  have single (e : Char) (same : ∀ rest, jsonUnescape ('\x5C' :: d :: rest) = front nul [e] ++ jsonUnescape rest) :
      ∃ r, output.catc bits e = some r ∧ ∃ piece, piece.length ≤ 2 ∧ r.Holds (t ++ piece) ∧
        ∀ rest, jsonUnescape ('\x5C' :: d :: rest) = piece ++ jsonUnescape rest := by
    obtain ⟨r,ran,held⟩ := holds.catc e (show t.length+4 < 2^bits by omega)
    exact ⟨r,ran,_,(written_asked (.catc e)).trans (Nat.le_succ 1),held,same⟩
  unfold unescapeCase
  split
  · exact single '\x22' fun _ => rfl
  · exact single '\x5C' fun _ => rfl
  · exact single '/' fun _ => rfl
  · exact single '\x08' fun _ => rfl
  · exact single '\x0C' fun _ => rfl
  · exact single '\n' fun _ => rfl
  · exact single '\r' fun _ => rfl
  · exact single '\t' fun _ => rfl
  · obtain ⟨next,ran,held⟩ := holds.catc '\x5C' (show t.length+4 < 2^bits by omega)
    obtain ⟨r,ran',held'⟩ := held.catc d (show (t ++ ['\x5C']).length+4 < 2^bits by simpa using small)
    have whole : front nul [d] = [d] := front_same (by simpa using solid.symm)
    rw [whole,List.append_assoc] at held'
    refine ⟨r,by rw [ran]; exact ran',['\x5C',d],Nat.le_refl 2,held',fun rest => ?_⟩
    rw [jsonUnescape]
    · rfl
    all_goals assumption

theorem unescapeLoop_done (cells : List (Option Char)) (output : RcString) : unescapeLoop bits cells 0 output = some output := by
  rw [unescapeLoop.eq_def]

theorem unescapeLoop_pair (d : Char) (rest : List (Option Char)) (n : Nat) (output : RcString) :
    unescapeLoop bits (some '\x5C' :: some d :: rest) (n+1) output = unescapeCase bits output d >>= unescapeLoop bits rest (n-1) := by
  rw [unescapeLoop.eq_def]
  exact if_pos rfl

theorem unescapeLoop_plain (plain : c ≠ '\x5C') (rest : List (Option Char)) (n : Nat) (output : RcString) :
    unescapeLoop bits (some c :: rest) (n+1) output = output.catc bits c >>= unescapeLoop bits rest n := by
  rw [unescapeLoop.eq_def]
  exact if_neg plain

theorem unescapeLoop_holds (clean : nul ∉ s) (holds : output.Holds t) (small : t.length+s.length+4 < 2^bits) (rest : List (Option Char)) :
    ∃ r, unescapeLoop bits (s.map some ++ some nul :: rest) s.length output = some r ∧ r.Holds (t ++ jsonUnescape s) := by
  induction n : s.length using Nat.strong_induction_on generalizing s output t with
  | h n ih =>
  cases s with
  | nil =>
    subst n
    exact ⟨output,unescapeLoop_done _ output,by rwa [jsonUnescape,List.append_nil]⟩
  | cons c s =>
    obtain ⟨other,behind⟩ := List.ne_and_not_mem_of_not_mem_cons clean
    rw [List.length_cons] at n small
    subst n
    by_cases backslash : c = '\x5C'
    · subst backslash
      cases s with
      | nil =>
        -- The backslash is the last character, and the NUL behind it is nothing to append.
        obtain ⟨next,ran,held⟩ := holds.catc '\x5C' (show t.length+4 < 2^bits by omega)
        obtain ⟨r,ran',held'⟩ := held.catc nul (show (t ++ ['\x5C']).length+4 < 2^bits by simpa using small)
        refine ⟨r,?_,by simpa [front,nul,jsonUnescape] using held'⟩
        have last : unescapeCase bits output nul = output.catc bits '\x5C' >>= fun output => output.catc bits nul := rfl
        rw [List.map_singleton,List.singleton_append,unescapeLoop_pair,last,ran]
        simp only [bind,Option.bind,ran']
        exact unescapeLoop_done rest r
      | cons d s =>
        obtain ⟨other',behind'⟩ := List.ne_and_not_mem_of_not_mem_cons behind
        rw [List.length_cons] at small
        obtain ⟨next,ran,piece,few,held,same⟩ := unescapeCase_holds holds (Ne.symm other') (show t.length+5 < 2^bits by omega)
        obtain ⟨r,ran',held'⟩ := ih s.length (by rw [List.length_cons]; omega) behind' held (by rw [List.length_append]; omega) rfl
        refine ⟨r,?_,by rwa [same,← List.append_assoc]⟩
        rw [List.map_cons,List.map_cons,List.cons_append,List.cons_append,unescapeLoop_pair,ran]
        exact ran'
    · obtain ⟨next,ran,held⟩ := holds.catc c (show t.length+4 < 2^bits by omega)
      have whole : front nul [c] = [c] := front_same (by simpa using other)
      obtain ⟨r,ran',held'⟩ := ih s.length (by simp) behind held (by rw [whole,List.length_append,List.length_singleton]; omega) rfl
      rw [whole,List.append_assoc,List.singleton_append] at held'
      refine ⟨r,?_,by rwa [unescape_plain backslash]⟩
      rw [List.map_cons,List.cons_append,unescapeLoop_plain backslash,ran]
      exact ran'

theorem escape_blocks (spells : Spells nul cells s) (small : 2*s.length+6 < 2^bits) : jsonEscapeBlock bits cells = some ((jsonEscape s ++ [nul]).map some) ∧
    jsonUnescapeBlock bits cells = some ((jsonUnescape s ++ [nul]).map some) := by
  rw [jsonEscapeBlock,jsonUnescapeBlock,spells.strlen]
  obtain ⟨clean,rest,rfl⟩ := spells
  have created : (create bits s.length).Holds [] := create_holds (by omega)
  obtain ⟨r,ran,holds⟩ := escapeLoop_holds clean created (show 0+2*s.length+6 < 2^bits by omega)
  obtain ⟨r',ran',holds'⟩ := unescapeLoop_holds clean created (show 0+s.length+4 < 2^bits by omega) rest
  have text : (s.map some ++ some nul :: rest).take s.length = s.map some := List.take_left' (List.length_map ..)
  constructor
  · change ((s.map some ++ some nul :: rest).take s.length).foldlM (fun output cell => cell >>= escapeRound bits output) (create bits s.length) >>=
      RcString.unwrap bits = some ((jsonEscape s ++ [nul]).map some)
    rw [text,ran]
    have short := escape_short s
    exact holds.unwrap (show (jsonEscape s).length+1 < 2^bits by omega)
  · simp only [bind,Option.bind,ran']
    have short := unescape_short s
    exact holds'.unwrap (show (jsonUnescape s).length+1 < 2^bits by omega)

theorem escape_blocks_slash : jsonEscapeBlock 32 [some '/',some nul] = some [some '\x5C',some '/',some nul] ∧
    jsonUnescapeBlock 32 [some '/',some nul] = some [some '/',some nul] :=
  escape_blocks (s := ['/']) ⟨by decide,[],rfl⟩ (by decide)

end PcNetwork.Json
