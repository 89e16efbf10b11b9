import Mathlib.Data.List.FinRange
import Mathlib.Data.List.Induction

namespace PcNetwork
variable {α σ : Type}

-- What every round of a loop over a list preserves, the loop preserves.
theorem foldlM_invariant {f : σ → α → Option σ} {l : List α} (Inv : σ → Prop) (ran : l.foldlM f s = some t)
    (start : Inv s) (preserved : ∀ s a t, a ∈ l → Inv s → f s a = some t → Inv t) : Inv t := by
  induction l generalizing s with
  | nil =>
    cases ran
    exact start
  | cons a l ih =>
    rw [List.foldlM_cons] at ran
    obtain ⟨middle,first,rest⟩ := Option.bind_eq_some_iff.mp ran
    exact ih rest (preserved _ _ _ (List.mem_cons_self ..) start first)
      fun s b t member => preserved s b t (List.mem_cons_of_mem _ member)

-- The round for one member, between the rounds before it and those behind it.
theorem foldlM_split {f : σ → α → Option σ} {before after : List α} (ran : (before ++ a :: after).foldlM f s = some t) :
    ∃ u v, before.foldlM f s = some u ∧ f u a = some v ∧ after.foldlM f v = some t := by
  rw [List.foldlM_append] at ran
  obtain ⟨u,first,rest⟩ := Option.bind_eq_some_iff.mp ran
  rw [List.foldlM_cons] at rest
  obtain ⟨v,round,last⟩ := Option.bind_eq_some_iff.mp rest
  exact ⟨u,v,first,round,last⟩

-- A loop of which nothing says that it ends. One round leads to the next one or to
-- the result.
def loop (round : σ → σ ⊕ α) : Nat → σ → Option α
  | 0,_ => none
  | fuel+1,s =>
    match round s with
    | .inl t => loop round fuel t
    | .inr a => some a

def Ends (round : σ → σ ⊕ α) (s : σ) (a : α) : Prop := ∃ fuel, loop round fuel s = some a

variable {round : σ → σ ⊕ α}

theorem Ends.more (goes_on : round s = .inl t) : Ends round s a ↔ Ends round t a := by
  constructor
  · rintro ⟨fuel,ran⟩
    cases fuel with
    | zero => cases ran
    | succ fuel =>
      simp only [loop,goes_on] at ran
      exact ⟨fuel,ran⟩
  · rintro ⟨fuel,ran⟩
    refine ⟨fuel+1,?_⟩
    simp only [loop,goes_on]
    exact ran

theorem Ends.last (stops : round s = .inr b) : Ends round s a ↔ a = b := by
  constructor
  · rintro ⟨fuel,ran⟩
    cases fuel with
    | zero => cases ran
    | succ fuel =>
      simp only [loop,stops] at ran
      exact (Option.some.inj ran).symm
  · rintro rfl
    refine ⟨1,?_⟩
    simp only [loop,stops]

-- Where a round has led.
def After (round : σ → σ ⊕ α) : σ ⊕ α → α → Prop
  | .inl t,a => Ends round t a
  | .inr b,a => a = b

theorem Ends.after : Ends round s a ↔ After round (round s) a := by
  cases made : round s with
  | inl t => exact Ends.more made
  | inr b => exact Ends.last made

theorem Ends.unique (ends : Ends round s a) (ends_too : Ends round s b) : a = b := by
  obtain ⟨fuel,ran⟩ := ends
  induction fuel generalizing s with
  | zero => cases ran
  | succ fuel ih =>
    cases made : round s with
    | inl t =>
      simp only [loop,made] at ran
      exact ih ((Ends.more made).mp ends_too) ran
    | inr c =>
      simp only [loop,made] at ran
      cases ran
      exact ((Ends.last made).mp ends_too).symm

-- What every round preserves holds of the state in which the last round is made.
theorem Ends.invariant (ends : Ends round s a) (Inv : σ → Prop) (start : Inv s)
    (preserved : ∀ s t, Inv s → round s = .inl t → Inv t) : ∃ t, Inv t ∧ round t = .inr a := by
  obtain ⟨fuel,ran⟩ := ends
  induction fuel generalizing s with
  | zero => cases ran
  | succ fuel ih =>
    cases made : round s with
    | inl t =>
      simp only [loop,made] at ran
      exact ih (preserved s t start made) ran
    | inr b =>
      simp only [loop,made] at ran
      cases ran
      exact ⟨s,start,made⟩

-- A loop ends where every round that is not the last makes something smaller.
theorem Ends.of_measure (Inv : σ → Prop) (Good : α → Prop) (measure : σ → Nat) (start : Inv s)
    (made : ∀ s, Inv s → (∃ t, round s = .inl t ∧ Inv t ∧ measure t < measure s) ∨ ∃ a, round s = .inr a ∧ Good a) :
    ∃ a, Ends round s a ∧ Good a := by
  induction size : measure s using Nat.strong_induction_on generalizing s with
  | h n ih =>
    subst size
    rcases made s start with ⟨t,goes_on,inv,smaller⟩ | ⟨a,stops,good⟩
    · obtain ⟨a,ends,good⟩ := ih _ smaller inv rfl
      exact ⟨a,(Ends.more goes_on).mpr ends,good⟩
    · exact ⟨a,(Ends.last stops).mpr rfl,good⟩

-- A loop that is given more to go on with makes the same rounds up to its last one.
theorem Ends.fed (feed : σ → σ) (Resumed : α → Prop) (ends : Ends round s a)
    (goes : ∀ s t, round s = .inl t → round (feed s) = .inl (feed t))
    (stops : ∀ s, round s = .inr a → ∀ b, Ends round (feed s) b ↔ Resumed b) (b : α) : Ends round (feed s) b ↔ Resumed b := by
  obtain ⟨t,fed,stopped⟩ := ends.invariant (fun t => Ends round (feed s) b ↔ Ends round (feed t) b) Iff.rfl
    fun t u same made => same.trans (Ends.more (goes t u made))
  exact fed.trans (stops t stopped b)

-- A loop does not end where every round leads back to states that it goes on from.
theorem never_ends (Inv : σ → Prop) (start : Inv s) (goes_on : ∀ s, Inv s → ∃ t, round s = .inl t ∧ Inv t) :
    ¬ Ends round s a := by
  intro ends
  obtain ⟨t,inv,stops⟩ := ends.invariant Inv start (by
    intro s t inv made
    obtain ⟨u,made_too,inv⟩ := goes_on s inv
    rw [made] at made_too
    cases made_too
    exact inv)
  obtain ⟨u,made,_⟩ := goes_on t inv
  rw [stops] at made
  cases made

end PcNetwork
