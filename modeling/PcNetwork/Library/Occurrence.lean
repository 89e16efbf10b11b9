import Mathlib.Data.List.Infix

namespace PcNetwork.Occurrence
variable {α : Type} {old new s t u before after p x : List α} {a b : α}

def replace (s : List α) (pos length : Nat) (new : List α) : List α := s.take pos ++ (new ++ s.drop (pos+length))

theorem replace_split (before old after new : List α) :
    replace (before ++ (old ++ after)) before.length old.length new = before ++ (new ++ after) := by
  rw [replace,List.take_left,← List.drop_drop,List.drop_left,List.drop_left]

-- The first difference of two strings is that b stands in the second one where a stands
-- in the first one.
def Differ (a b : α) (s t : List α) : Prop := ∃ common x y, s = common ++ a :: x ∧ t = common ++ b :: y

theorem Differ.irrefl (apart : a ≠ b) : ¬ Differ a b s s := by
  rintro ⟨common,x,y,rfl,same⟩
  exact apart (List.cons.inj (List.append_cancel_left same)).1

theorem Differ.trans (apart : a ≠ b) (one : Differ a b s t) (two : Differ a b t u) : Differ a b s u := by
  obtain ⟨first,x,y,rfl,rfl⟩ := one
  obtain ⟨second,z,w,same,rfl⟩ := two
  rcases List.append_eq_append_iff.mp same with ⟨l,rfl,rest⟩ | ⟨l,rfl,rest⟩
  · cases l with
    | nil => exact absurd (List.cons.inj rest).1.symm apart
    | cons c l =>
      cases rest
      exact ⟨first,x,l ++ b :: w,rfl,by simp⟩
  · cases l with
    | nil => exact absurd (List.cons.inj rest).1 apart
    | cons c l =>
      cases rest
      exact ⟨second,l ++ a :: x,w,by simp,rfl⟩

-- An earlier occurrence than the one in the rest is replaced for good.
theorem earlier_misses (differ : Differ a b old new) (here_too : s = p ++ (old ++ x)) (earlier : p.length < before.length)
    (here : s = before ++ (old ++ after)) (tail : List α) : Differ a b (before ++ (new ++ tail)) (p ++ (new ++ x)) := by
  obtain ⟨common,y,z,rfl,rfl⟩ := differ
  have begins : p ++ common ++ [a] <+: s := ⟨y ++ x,by rw [here_too]; simp⟩
  have begins_too : before ++ common <+: s := ⟨a :: (y ++ after),by rw [here]; simp⟩
  obtain ⟨l,within⟩ := List.prefix_of_prefix_length_le begins begins_too (by simp; omega)
  refine ⟨p ++ common,l ++ b :: (z ++ tail),z ++ x,?_,by simp⟩
  calc before ++ (common ++ b :: z ++ tail) = before ++ common ++ b :: (z ++ tail) := by simp
    _ = p ++ common ++ a :: (l ++ b :: (z ++ tail)) := by rw [← within]; simp

variable [DecidableEq α]

-- What a value and the one that replaces it can be to each other.
theorem prefix_or_differ (old new : List α) : old <+: new ∨ new <+: old ∨ ∃ a b, a ≠ b ∧ Differ a b old new := by
  induction old generalizing new with
  | nil => exact .inl (List.nil_prefix)
  | cons c old ih =>
    cases new with
    | nil => exact .inr (.inl List.nil_prefix)
    | cons d new =>
      by_cases same : c = d
      · subst same
        rcases ih new with within | within | ⟨a,b,apart,common,x,y,rfl,rfl⟩
        · exact .inl ((List.prefix_cons_inj c).mpr within)
        · exact .inr (.inl ((List.prefix_cons_inj c).mpr within))
        · exact .inr (.inr ⟨a,b,apart,c :: common,x,y,rfl,rfl⟩)
      · exact .inr (.inr ⟨c,d,same,[],old,new,rfl,rfl⟩)

-- The first place at which the value occurs.
def find (old : List α) : List α → Option Nat
  | [] => if old = [] then some 0 else none
  | c :: s => if old.isPrefixOf (c :: s) then some 0 else (find old s).map (· + 1)

-- What is meant by replacing all: from the left to the right, what was replaced is not
-- looked at again. The number is of the characters still to be passed over.
def replaceFrom (old new : List α) : Nat → List α → List α
  | _,[] => []
  | 0,c :: s => if old.isPrefixOf (c :: s) then new ++ replaceFrom old new (old.length-1) s else c :: replaceFrom old new 0 s
  | skip+1,_ :: s => replaceFrom old new skip s

def replaceAll (old new s : List α) : List α := replaceFrom old new 0 s

-- A place at which the value occurs, and no other one in front of it.
structure First (old s before after : List α) : Prop where
  here : s = before ++ (old ++ after)
  first : ∀ b a, s = b ++ (old ++ a) → before.length ≤ b.length

theorem find_missing (missing : find old s = none) (b a : List α) : s ≠ b ++ (old ++ a) := by
  induction s generalizing b with
  | nil =>
    rintro split
    simp only [find] at missing
    split at missing
    · cases missing
    · simp_all
  | cons c s ih =>
    intro split
    simp only [find] at missing
    split at missing
    · cases missing
    · rename_i apart
      cases b with
      | nil =>
        rw [split] at apart
        exact apart (List.isPrefixOf_iff_prefix.mpr (List.prefix_append ..))
      | cons d b =>
        cases split
        exact ih (Option.map_eq_none_iff.mp missing) b rfl

theorem find_found (found : find old s = some pos) :
    ∃ before after, First old s before after ∧ before.length = pos := by
  induction s generalizing pos with
  | nil =>
    simp only [find] at found
    split at found
    · rename_i empty
      cases found
      exact ⟨[],[],⟨by simp [empty],by simp⟩,rfl⟩
    · cases found
  | cons c s ih =>
    simp only [find] at found
    split at found
    · rename_i here
      cases found
      obtain ⟨after,split⟩ := List.isPrefixOf_iff_prefix.mp here
      exact ⟨[],after,⟨split.symm,by simp⟩,rfl⟩
    · rename_i apart
      obtain ⟨below,there,rfl⟩ := Option.map_eq_some_iff.mp found
      obtain ⟨before,after,first,rfl⟩ := ih there
      refine ⟨c :: before,after,⟨by rw [first.here]; rfl,?_⟩,rfl⟩
      intro b a split
      cases b with
      | nil =>
        rw [split] at apart
        exact absurd (List.isPrefixOf_iff_prefix.mpr (List.prefix_append ..)) apart
      | cons d b =>
        cases split
        exact Nat.succ_le_succ (first.first b a rfl)

theorem First.found (first : First old s before after) : find old s = some before.length := by
  cases found : find old s with
  | none => exact absurd first.here (find_missing found before after)
  | some pos =>
    obtain ⟨b,a,other,rfl⟩ := find_found found
    have below := first.first b a other.here
    have above := other.first before after first.here
    congr 1
    omega

theorem replaceFrom_skip (old new skipped s : List α) : replaceFrom old new skipped.length (skipped ++ s) = replaceFrom old new 0 s := by
  induction skipped with
  | nil => rfl
  | cons c skipped ih => exact ih

theorem replaceAll_missing (missing : find old s = none) : replaceAll old new s = s := by
  induction s with
  | nil => rfl
  | cons c s ih =>
    have apart : ¬ old.isPrefixOf (c :: s) := by
      intro here
      simp [find,here] at missing
    simp only [find,if_neg apart,Option.map_eq_none_iff] at missing
    rw [replaceAll,replaceFrom,if_neg apart]
    exact congrArg _ (ih missing)

theorem replaceAll_first (nonempty : old ≠ []) (first : First old s before after) :
    replaceAll old new s = before ++ (new ++ replaceAll old new after) := by
  obtain ⟨here,first⟩ := first
  induction before generalizing s with
  | nil =>
    obtain ⟨c,rest,rfl⟩ := List.exists_cons_of_ne_nil nonempty
    subst here
    have at_start : (c :: rest).isPrefixOf (c :: (rest ++ after)) := List.isPrefixOf_iff_prefix.mpr ⟨after,rfl⟩
    show replaceFrom _ _ 0 (c :: (rest ++ after)) = _
    rw [replaceFrom,if_pos at_start]
    simp only [List.length_cons,Nat.add_sub_cancel,replaceFrom_skip]
    rfl
  | cons c before ih =>
    subst here
    have apart : ¬ old.isPrefixOf (c :: (before ++ (old ++ after))) := by
      intro at_start
      obtain ⟨a,split⟩ := List.isPrefixOf_iff_prefix.mp at_start
      exact absurd (first [] a split.symm) (by simp)
    show replaceFrom _ _ 0 (c :: (before ++ (old ++ after))) = _
    rw [replaceFrom,if_neg apart]
    refine congrArg _ (ih rfl ?_)
    intro b a split
    have longer := first (c :: b) a (by rw [List.cons_append,split]; rfl)
    exact Nat.le_of_succ_le_succ longer

end PcNetwork.Occurrence
