import PcNetwork.Json.RcString
import PcNetwork.Json.Format

namespace PcNetwork.Json
open Cells

-- The text that json_strip_white_spaces reads and writes over, where it writes, and whether
-- it is inside a string.
structure Stripping where
  text : List (Option Char)
  out : Nat
  inside : Bool

namespace Stripping

def write (s : Stripping) (c : Char) (inside : Bool) : Option Stripping := do
  let text ← store s.text s.out c
  return ⟨text,s.out+1,inside⟩

def round (s : Stripping) (i : Nat) : Option Stripping := do
  let c ← s.text[i]?.join
  if isSpace c then
    if s.inside then s.write c s.inside else return s
  else if c = '\x22' then
    if s.inside then do
      let before ← s.text[i-1]?.join
      s.write c (before = '\x5C')
    else s.write c Bool.true
  else s.write c s.inside

def loop (s : Stripping) (i : Nat) : Nat → Option Stripping
  | 0 => some s
  | n+1 => s.round i >>= fun s => s.loop (i+1) n

end Stripping

def jsonStripWhiteSpacesBlock (text : List (Option Char)) : Option (List (Option Char)) := do
  let length ← strlen nul text
  let s ← Stripping.loop ⟨text,0,Bool.false⟩ 0 length
  store s.text s.out nul

variable {cells rest : List (Option Char)} {written more : Text} {c previous : Char}

-- What is written comes over what has been read.
theorem store_behind (written : Text) (gap : List (Option Char)) (c : Char) (rest : List (Option Char)) :
    ∃ gap', store (written.map some ++ gap ++ some c :: rest) written.length c = some ((written ++ [c]).map some ++ gap' ++ rest) ∧
      gap'.length = gap.length ∧ ((written ++ [c]).map some ++ gap').getLast? = some (some c) := by
  cases gap with
  | nil => exact ⟨[],by simp [store],rfl,by simp⟩
  | cons old gap => exact ⟨gap ++ [some c],by simp [store],by simp,by simp [← List.append_assoc]⟩

-- Between what is written and what is still to be read lie the places of what has gone.
structure Stripped (s : Stripping) (i : Nat) (written : Text) (previous : Char) (more : Text) (rest : List (Option Char)) : Prop where
  split : ∃ gap, s.text = written.map some ++ gap ++ (more.map some ++ some nul :: rest) ∧ i = written.length+gap.length ∧
    (s.inside → (written.map some ++ gap).getLast? = some (some previous))
  out : s.out = written.length

variable {s : Stripping} {i : Nat}

theorem Stripped.next (stripped : Stripped s i written previous (c :: more) rest) : s.text[i]? = some (some c) := by
  obtain ⟨gap,split,place,-⟩ := stripped.split
  have size : (written.map some ++ gap).length = i := by simp [place]
  rw [split,List.getElem?_append_right (Nat.le_of_eq size),size,Nat.sub_self]
  rfl

theorem Stripped.before (stripped : Stripped s i written previous (c :: more) rest) (inside : s.inside) :
    s.text[i-1]? = some (some previous) := by
  obtain ⟨gap,split,place,last⟩ := stripped.split
  have size : (written.map some ++ gap).length = i := by simp [place]
  have filled : written.map some ++ gap ≠ [] := by
    intro empty
    have none := last inside
    rw [empty] at none
    cases none
  have short : i-1 < (written.map some ++ gap).length := by
    have some := List.length_pos_of_ne_nil filled
    omega
  rw [split,List.getElem?_append_left short,← size,← List.getLast?_eq_getElem?]
  exact last inside

theorem Stripped.write (stripped : Stripped s i written previous (c :: more) rest) (inside : Bool) :
    ∃ next, s.write c inside = some next ∧ next.inside = inside ∧ Stripped next (i+1) (written ++ [c]) c more rest := by
  obtain ⟨gap,split,place,-⟩ := stripped.split
  obtain ⟨gap',stored,size,last⟩ := store_behind written gap c (more.map some ++ some nul :: rest)
  rw [List.map_cons,List.cons_append] at split
  refine ⟨⟨(written ++ [c]).map some ++ gap' ++ (more.map some ++ some nul :: rest),s.out+1,inside⟩,?_,rfl,
    ⟨gap',rfl,?_,fun _ => last⟩,?_⟩
  · rw [Stripping.write,split,stripped.out,stored]
    rfl
  · rw [place,size,List.length_append,List.length_singleton]
    omega
  · rw [stripped.out,List.length_append,List.length_singleton]

theorem Stripped.skip (stripped : Stripped s i written previous (c :: more) rest) : Stripped s (i+1) written c more rest := by
  obtain ⟨gap,split,place,-⟩ := stripped.split
  refine ⟨⟨gap ++ [some c],?_,?_,fun _ => ?_⟩,stripped.out⟩
  · simp [split]
  · rw [place,List.length_append,List.length_singleton]
    omega
  · rw [← List.append_assoc,List.getLast?_concat]

theorem Stripped.round (stripped : Stripped s i written previous (c :: more) rest) : ∃ next, s.round i = some next ∧
    ∃ written', Stripped next (i+1) written' c more rest ∧
      written' ++ stripFrom next.inside c more = written ++ stripFrom s.inside previous (c :: more) := by
  have here : s.text[i]?.join = some c := by
    rw [stripped.next]
    rfl
  have wrote (inside : Bool) (same : stripFrom s.inside previous (c :: more) = c :: stripFrom inside c more) :
      ∃ next, s.write c inside = some next ∧ ∃ written', Stripped next (i+1) written' c more rest ∧
        written' ++ stripFrom next.inside c more = written ++ stripFrom s.inside previous (c :: more) := by
    obtain ⟨next,ran,now,stripped'⟩ := stripped.write inside
    exact ⟨next,ran,_,stripped',by rw [now,same,List.append_assoc,List.singleton_append]⟩
  rw [Stripping.round,here]
  simp only [bind,Option.bind]
  by_cases space : isSpace c = true
  · rw [if_pos space]
    by_cases inside : s.inside = true
    · rw [if_pos inside]
      exact wrote s.inside (by rw [stripFrom,if_pos space,if_pos inside])
    · rw [if_neg inside]
      exact ⟨s,rfl,written,stripped.skip,by rw [stripFrom,if_pos space,if_neg inside]⟩
  · rw [if_neg space]
    by_cases quote : c = '\x22'
    · rw [if_pos quote]
      by_cases inside : s.inside = true
      · have before : s.text[i-1]?.join = some previous := by
          rw [stripped.before inside]
          rfl
        rw [if_pos inside,before]
        exact wrote (previous = '\x5C') (by rw [stripFrom,if_neg space,if_pos quote,if_pos inside])
      · rw [if_neg inside]
        exact wrote Bool.true (by rw [stripFrom,if_neg space,if_pos quote,if_neg inside])
    · rw [if_neg quote]
      exact wrote s.inside (by rw [stripFrom,if_neg space,if_neg quote])

theorem Stripped.loop (stripped : Stripped s i written previous more rest) : ∃ last, s.loop i more.length = some last ∧
    ∃ j c, Stripped last j (written ++ stripFrom s.inside previous more) c [] rest := by
  induction more generalizing s i written previous with
  | nil => exact ⟨s,rfl,i,previous,by rwa [stripFrom,List.append_nil]⟩
  | cons c more ih =>
    obtain ⟨next,ran,written',stripped',same⟩ := stripped.round
    obtain ⟨last,ran',j,d,stripped''⟩ := ih stripped'
    refine ⟨last,?_,j,d,same ▸ stripped''⟩
    rw [List.length_cons,Stripping.loop,ran]
    exact ran'

theorem strip_among (inside : Bool) (previous : Char) (s : Text) : ∀ c ∈ stripFrom inside previous s, c ∈ s := by
  induction s generalizing inside previous with
  | nil => exact fun _ member => member
  | cons c s ih =>
    have here (b : Bool) : ∀ d ∈ c :: stripFrom b c s, d ∈ c :: s := fun d member =>
      List.mem_cons.mpr ((List.mem_cons.mp member).imp_right (ih b c d))
    intro d member
    rw [stripFrom] at member
    split at member
    · split at member
      · exact here _ d member
      · exact List.mem_cons_of_mem _ (ih _ _ d member)
    · split at member
      · exact here _ d member
      · exact here _ d member

-- The function on the block leaves the text that it makes of the value, although it writes
-- over what it reads.
theorem strip_block (spells : Spells nul cells more) : ∃ next, jsonStripWhiteSpacesBlock cells = some next ∧
    Spells nul next (jsonStripWhiteSpaces more) := by
  rw [jsonStripWhiteSpacesBlock,spells.strlen]
  obtain ⟨clean,rest,rfl⟩ := spells
  have start : Stripped ⟨more.map some ++ some nul :: rest,0,Bool.false⟩ 0 [] '\x00' more rest :=
    ⟨⟨[],by simp,rfl,fun inside => by cases inside⟩,rfl⟩
  obtain ⟨last,ran,_,_,stripped⟩ := start.loop
  obtain ⟨gap,split,-,-⟩ := stripped.split
  have left : nul ∉ jsonStripWhiteSpaces more := fun member => clean (strip_among _ _ more nul member)
  simp only [bind,Option.bind,ran,stripped.out,split,List.nil_append]
  change ∃ next, store ((jsonStripWhiteSpaces more).map some ++ gap ++ some nul :: rest) (jsonStripWhiteSpaces more).length nul = some next ∧
    Spells nul next (jsonStripWhiteSpaces more)
  cases gap with
  | nil => exact ⟨_,by simp [store],left,rest,rfl⟩
  | cons old gap => exact ⟨(jsonStripWhiteSpaces more).map some ++ some nul :: (gap ++ some nul :: rest),by simp [store],left,_,rfl⟩

theorem strip_block_space : ∃ next, jsonStripWhiteSpacesBlock [some ' ',some '7',some nul,none] = some next ∧ Spells nul next ['7'] :=
  strip_block (⟨by decide,[none],rfl⟩ : Spells nul [some ' ',some '7',some nul,none] [' ','7'])

end PcNetwork.Json
