import PcNetwork.Library.Loop
import PcNetwork.Library.Occurrence

namespace PcNetwork.Libbase
open Occurrence
variable {α : Type} [DecidableEq α] {old new s t before after : List α}

-- One round of StringReplace looks at the whole string again.
def replaceRound (old new s : List α) : List α ⊕ List α :=
  match find old s with
  | none => .inr s
  | some pos => .inl (replace s pos old.length new)

-- The stages of that: what is done with, and the rest.
inductive Stage (old new s : List α) : List α → List α → Prop where
  | start : Stage old new s [] s
  | next : Stage old new s done rest → find old rest = some pos →
      Stage old new s (done ++ (rest.take pos ++ new)) (rest.drop (pos+old.length))

-- At every stage the first occurrence in the whole string gives the same string as the
-- first one in the rest does, and there is none in the whole when there is none in the rest.
def Straight (old new s : List α) : Prop :=
  ∀ done rest, Stage old new s done rest →
    (find old (done ++ rest)).map (replace (done ++ rest) · old.length new) =
      (find old rest).map fun pos => done ++ replace rest pos old.length new

theorem round_first (first : First old s before after) : replaceRound old new s = .inl (before ++ (new ++ after)) := by
  simp only [replaceRound,first.found]
  rw [first.here,replace_split]

theorem round_on (on : replaceRound old new s = .inl t) : ∃ before after, First old s before after ∧ t = before ++ (new ++ after) := by
  cases found : find old s with
  | none => simp [replaceRound,found] at on
  | some pos =>
    obtain ⟨before,after,first,rfl⟩ := find_found found
    rw [round_first first] at on
    cases on
    exact ⟨before,after,first,rfl⟩

theorem round_done (done : replaceRound old new s = .inr t) : t = s ∧ find old s = none := by
  cases found : find old s with
  | none =>
    simp only [replaceRound,found] at done
    cases done
    exact ⟨rfl,rfl⟩
  | some pos => simp [replaceRound,found] at done

theorem Straight.at_stage (straight : Straight old new s) (stage : Stage old new s done rest) :
    (find old rest = none → find old (done ++ rest) = none) ∧
      ∀ before after, First old rest before after → replaceRound old new (done ++ rest) = .inl (done ++ (before ++ new) ++ after) := by
  have same := straight done rest stage
  constructor
  · intro missing
    simpa [missing] using same
  · intro before after first
    rw [first.found,first.here,Option.map_some,replace_split,← first.here] at same
    obtain ⟨pos,found,replaced⟩ := Option.map_eq_some_iff.mp same
    simp only [replaceRound,found,replaced,List.append_assoc]

theorem Stage.following (stage : Stage old new s done rest) (first : First old rest before after) :
    Stage old new s (done ++ (before ++ new)) after := by
  have next := stage.next first.found
  rwa [first.here,List.take_left,← List.drop_drop,List.drop_left,List.drop_left] at next

-- A straight pass does as the stages do.
theorem straight_ends (nonempty : old ≠ []) (straight : Straight old new s) (stage : Stage old new s done rest) :
    Ends (replaceRound old new) (done ++ rest) (done ++ replaceAll old new rest) := by
  induction size : rest.length using Nat.strongRecOn generalizing done rest with
  | ind n ih =>
    obtain ⟨stops,goes_on⟩ := straight.at_stage stage
    cases found : find old rest with
    | none =>
      have last : replaceRound old new (done ++ rest) = .inr (done ++ rest) := by simp only [replaceRound,stops found]
      rw [replaceAll_missing found]
      exact (Ends.last last).mpr rfl
    | some pos =>
      obtain ⟨before,after,first,_⟩ := find_found found
      have shorter : after.length < n := by
        have positive := List.length_pos_of_ne_nil nonempty
        rw [← size,first.here]
        simp
        omega
      rw [Ends.more (goes_on before after first),replaceAll_first nonempty first]
      have ends := ih _ shorter (stage.following first) rfl
      simpa using ends

-- Every round moves the string the same way.
theorem round_differs (differ : Differ a b old new) (on : replaceRound old new s = .inl t) : Differ a b s t := by
  obtain ⟨before,after,first,rfl⟩ := round_on on
  obtain ⟨common,x,y,rfl,rfl⟩ := differ
  exact ⟨before ++ common,x ++ after,y ++ after,by rw [first.here]; simp,by simp⟩

theorem ends_differs (apart : a ≠ b) (differ : Differ a b old new) (ends : Ends (replaceRound old new) s t) :
    t = s ∨ Differ a b s t := by
  obtain ⟨u,moved,done⟩ := ends.invariant (fun u => u = s ∨ Differ a b s u) (.inl rfl) (by
    rintro u v (rfl | moved) on
    · exact .inr (round_differs differ on)
    · exact .inr (moved.trans apart (round_differs differ on)))
  rw [(round_done done).1]
  exact moved

theorem ends_clean (ends : Ends (replaceRound old new) s t) : find old t = none := by
  obtain ⟨u,_,done⟩ := ends.invariant (fun _ => True) trivial fun _ _ _ _ => trivial
  rw [(round_done done).1]
  exact (round_done done).2

theorem stage_meets (nonempty : old ≠ []) (apart : a ≠ b) (differ : Differ a b old new)
    (ends : Ends (replaceRound old new) (done ++ rest) (done ++ replaceAll old new rest)) :
    (find old (done ++ rest)).map (replace (done ++ rest) · old.length new) =
      (find old rest).map fun pos => done ++ replace rest pos old.length new := by
  cases found : find old rest with
  | none =>
    rw [replaceAll_missing found] at ends
    rw [ends_clean ends]
    rfl
  | some pos =>
    obtain ⟨before,after,first,rfl⟩ := find_found found
    have here : done ++ rest = (done ++ before) ++ (old ++ after) := by rw [first.here]; simp
    cases found_too : find old (done ++ rest) with
    | none => exact absurd here (find_missing found_too _ _)
    | some at_pos =>
      obtain ⟨p,x,earliest,rfl⟩ := find_found found_too
      rcases Nat.lt_or_eq_of_le (earliest.first _ _ here) with earlier | same
      · have result : done ++ replaceAll old new rest = (done ++ before) ++ (new ++ replaceAll old new after) := by
          rw [replaceAll_first nonempty first]
          simp
        have missed := earlier_misses differ earliest.here earlier here (replaceAll old new after)
        rw [← result] at missed
        rcases ends_differs apart differ ((Ends.more (round_first earliest)).mp ends) with equal | further
        · rw [← equal] at missed
          exact absurd missed (Differ.irrefl apart)
        · exact absurd (missed.trans apart further) (Differ.irrefl apart)
      · obtain ⟨rfl,rest_same⟩ := List.append_inj (earliest.here.symm.trans here) same
        obtain rfl := List.append_cancel_left rest_same
        rw [Option.map_some,Option.map_some,here,replace_split,first.here,replace_split]
        simp

theorem stage_ends (nonempty : old ≠ []) (apart : a ≠ b) (differ : Differ a b old new) (stage : Stage old new s done rest)
    (ends : Ends (replaceRound old new) s (replaceAll old new s)) :
    Ends (replaceRound old new) (done ++ rest) (done ++ replaceAll old new rest) := by
  induction stage with
  | start => exact ends
  | @next done rest pos stage found ih =>
    obtain ⟨before,after,first,rfl⟩ := find_found found
    have same := stage_meets nonempty apart differ ih
    rw [found,Option.map_some,first.here,replace_split,← first.here] at same
    obtain ⟨at_pos,found_too,replaced⟩ := Option.map_eq_some_iff.mp same
    have round : replaceRound old new (done ++ rest) = .inl (done ++ (before ++ (new ++ after))) := by
      simp only [replaceRound,found_too,replaced]
    rw [Ends.more round,replaceAll_first nonempty first] at ih
    rw [first.here,List.take_left,← List.drop_drop,List.drop_left,List.drop_left]
    simpa using ih

-- A value that the new one begins with occurs again and again.
theorem clean_at_once (within : old <+: new) (ends : Ends (replaceRound old new) s t) : find old s = none := by
  cases found : find old s with
  | none => rfl
  | some pos =>
    exfalso
    obtain ⟨more,rfl⟩ := within
    refine never_ends (fun s => ∃ before after, s = before ++ (old ++ after)) ?_ ?_ ends
    · obtain ⟨before,after,first,_⟩ := find_found found
      exact ⟨before,after,first.here⟩
    · rintro u ⟨before,after,here⟩
      cases again : find old u with
      | none => exact absurd here (find_missing again before after)
      | some at_pos =>
        obtain ⟨p,x,first,_⟩ := find_found again
        exact ⟨_,(round_first first),p,more ++ x,by simp⟩

theorem clean_straight (clean : find old s = none) : Straight old new s := by
  intro done rest stage
  have unmoved : done = [] ∧ rest = s := by
    induction stage with
    | start => exact ⟨rfl,rfl⟩
    | next _ found ih =>
      obtain ⟨rfl,rfl⟩ := ih
      rw [clean] at found
      cases found
  obtain ⟨rfl,rfl⟩ := unmoved
  rw [List.nil_append,clean]
  rfl

-- A character is replaced in a straight pass by what it does not occur in, as the log
-- does with the colons of its time stamps.
theorem single_straight {c : α} (absent : c ∉ new) : Straight [c] new s := by
  have front : ∀ {s before after}, First [c] s before after → c ∉ before := by
    intro s before after first member
    obtain ⟨b,a,rfl⟩ := List.append_of_mem member
    have shorter := first.first b (a ++ (c :: after)) (by rw [first.here]; simp)
    simp only [List.length_append,List.length_cons] at shorter
    omega
  intro done rest stage
  have passed : c ∉ done := by
    induction stage with
    | start => exact List.not_mem_nil
    | next _ found ih =>
      obtain ⟨before,after,first,rfl⟩ := find_found found
      rw [first.here,List.take_left]
      simp [ih,front first,absent]
  cases found : find [c] rest with
  | none =>
    have outside : c ∉ done ++ rest := by
      intro member
      rcases List.mem_append.mp member with before | inside
      · exact passed before
      · obtain ⟨b,a,split⟩ := List.append_of_mem inside
        exact find_missing found b a split
    cases found_too : find [c] (done ++ rest) with
    | none => rfl
    | some pos =>
      obtain ⟨b,a,first,_⟩ := find_found found_too
      rw [first.here] at outside
      simp at outside
  | some pos =>
    obtain ⟨before,after,first,rfl⟩ := find_found found
    have here : done ++ rest = (done ++ before) ++ ([c] ++ after) := by rw [first.here]; simp
    have first_too : First [c] (done ++ rest) (done ++ before) after := by
      refine ⟨here,?_⟩
      intro b a split
      by_contra shorter
      have begins : b ++ [c] <+: done ++ rest := ⟨a,by rw [split]; simp⟩
      have within := List.prefix_of_prefix_length_le begins ⟨[c] ++ after,here.symm⟩ (by simp at shorter ⊢; omega)
      have member : c ∈ done ++ before := within.subset (by simp)
      simp [passed,front first] at member
    rw [first_too.found,Option.map_some,Option.map_some,here,replace_split,first.here,replace_split]
    simp

-- The loop ends with all the occurrences replaced if the pass is straight, and only if
-- it is, unless the new value is shorter than the old one and its beginning.
theorem replaces_all (old new s : List α) (nonempty : old ≠ []) :
    (Straight old new s → Ends (replaceRound old new) s (replaceAll old new s)) ∧
      ((new <+: old → new = old) → Ends (replaceRound old new) s (replaceAll old new s) → Straight old new s) := by
  constructor
  · intro straight
    exact straight_ends nonempty straight .start
  · intro no_prefix ends
    rcases prefix_or_differ old new with within | within | ⟨a,b,apart,differ⟩
    · exact clean_straight (clean_at_once within ends)
    · have equal := no_prefix within
      rw [equal] at ends
      exact clean_straight (clean_at_once (List.prefix_refl _) ends)
    · exact fun done rest stage => stage_meets nonempty apart differ (stage_ends nonempty apart differ stage ends)

theorem replaces_all_colons : Ends (replaceRound [58] [95]) ([49,58,50,58,51] : List UInt8) [49,95,50,95,51] :=
  (replaces_all [58] [95] [49,58,50,58,51] (by decide)).1 (single_straight (by decide))

-- A character that is doubled is found again in what has replaced it.
theorem doubling_never_ends : ¬ ∀ (old new s : List UInt8), old ≠ [] → Ends (replaceRound old new) s (replaceAll old new s) := by
  intro all
  have clean := clean_at_once (by decide) (all [97] [97,97] [97] (by decide))
  exact absurd clean (by decide)

end PcNetwork.Libbase
