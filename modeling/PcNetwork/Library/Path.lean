import Mathlib.Data.List.Infix

namespace PcNetwork
variable {σ τ ε δ α : Type}

-- A transition system is any step relation. A path keeps every transition it
-- takes, so that a statement can speak about each step as well as about the end.
structure Transition (σ ε : Type) where
  before : σ
  event : ε
  after : σ

inductive Path (Step : σ → ε → σ → Prop) (origin : σ) : List (Transition σ ε) → σ → Prop where
  | nil : Path Step origin [] origin
  | step : Path Step origin earlier middle → Step middle event after →
      Path Step origin (earlier ++ [⟨middle,event,after⟩]) after

variable {Step : σ → ε → σ → Prop} {origin last : σ} {taken : List (Transition σ ε)}

theorem Path.append {further : List (Transition σ ε)} (first : Path Step origin taken middle)
    (second : Path Step middle further last) : Path Step origin (taken ++ further) last := by
  induction second with
  | nil => simpa using first
  | step _ step ih =>
    rw [← List.append_assoc]
    exact ih.step step

-- An invariant of one step is an invariant of a run.
theorem Path.invariant (Inv : σ → Prop) (path : Path Step origin taken last) (start : Inv origin)
    (preserved : ∀ before event after, Inv before → Step before event after → Inv after) : Inv last := by
  induction path with
  | nil => exact start
  | step _ step ih => exact preserved _ _ _ ih step

-- The same along the way: what one step does from a state of the invariant, every
-- transition of the path has done.
theorem Path.along (Inv : σ → Prop) (Holds : σ → ε → σ → Prop) (path : Path Step origin taken last)
    (start : Inv origin)
    (preserved : ∀ before event after, Inv before → Step before event after → Inv after)
    (holds : ∀ before event after, Inv before → Step before event after → Holds before event after) :
    ∀ t ∈ taken, Holds t.before t.event t.after := by
  induction path with
  | nil => simp
  | step prior step ih =>
    intro t member
    rcases List.mem_append.mp member with old | new
    · exact ih t old
    · cases List.mem_singleton.mp new
      exact holds _ _ _ (prior.invariant Inv start preserved) step

-- A path whose steps all meet a condition is a path of the steps that meet it.
theorem Path.restrict (Meets : σ → ε → Prop) (path : Path Step origin taken last)
    (met : ∀ t ∈ taken, Meets t.before t.event) :
    Path (fun before event after => Step before event after ∧ Meets before event) origin taken last := by
  induction path with
  | nil => exact .nil
  | step _ step ih =>
    have earlier := ih fun t member => met t (List.mem_append_left _ member)
    exact .step earlier ⟨step,met _ (List.mem_append_right _ (List.mem_singleton.mpr rfl))⟩

-- An invariant that a step preserves only under a condition holds at the end of
-- every path whose steps meet the condition.
theorem Path.guarded (Inv : σ → Prop) (Meets : σ → ε → Prop) (path : Path Step origin taken last)
    (start : Inv origin) (met : ∀ t ∈ taken, Meets t.before t.event)
    (preserved : ∀ before event after, Inv before → Meets before event → Step before event after → Inv after) :
    Inv last :=
  (path.restrict Meets met).invariant Inv start fun before event after inv step =>
    preserved before event after inv step.2 step.1

-- Where a step from a good state is good exactly if it meets a condition, a path has
-- only good steps exactly if all of them meet it. A good step leads to the next good state.
theorem Path.exactly_from (Inv : σ → Prop) (Good : σ → ε → σ → Prop) (Meets : σ → ε → Prop)
    (path : Path Step origin taken last) (start : Inv origin)
    (good : ∀ before event after, Inv before → Step before event after → Good before event after → Inv after)
    (meets : ∀ before event after, Inv before → Step before event after → (Good before event after ↔ Meets before event)) :
    (∀ t ∈ taken, Good t.before t.event t.after) ↔ ∀ t ∈ taken, Meets t.before t.event := by
  suffices both : ((∀ t ∈ taken, Good t.before t.event t.after) ↔ ∀ t ∈ taken, Meets t.before t.event) ∧
      ((∀ t ∈ taken, Good t.before t.event t.after) → Inv last) from both.1
  induction path with
  | nil => simp [start]
  | step _ step ih =>
    obtain ⟨same,reached⟩ := ih
    simp only [List.forall_mem_append,List.forall_mem_singleton]
    refine ⟨?_,fun all => good _ _ _ (reached all.1) step all.2⟩
    constructor
    · intro all
      exact ⟨same.mp all.1,(meets _ _ _ (reached all.1) step).mp all.2⟩
    · intro all
      have earlier := same.mpr all.1
      exact ⟨earlier,(meets _ _ _ (reached earlier) step).mpr all.2⟩

-- The same where a good step says by itself that the next state is good.
theorem Path.exactly (Inv : σ → Prop) (Good : σ → ε → σ → Prop) (Meets : σ → ε → Prop)
    (path : Path Step origin taken last) (start : Inv origin)
    (good : ∀ before event after, Good before event after → Inv after)
    (meets : ∀ before event after, Inv before → Step before event after → (Good before event after ↔ Meets before event)) :
    (∀ t ∈ taken, Good t.before t.event t.after) ↔ ∀ t ∈ taken, Meets t.before t.event :=
  path.exactly_from Inv Good Meets start (fun before event after _ _ reached => good before event after reached) meets

-- A log that every step extends by what the step contributes.
theorem Path.logged (log : σ → List α) (adds : σ → ε → σ → List α) (path : Path Step origin taken last)
    (extends_by : ∀ before event after, Step before event after → log after = log before ++ adds before event after) :
    log last = log origin ++ taken.flatMap fun t => adds t.before t.event t.after := by
  induction path with
  | nil => simp
  | step _ step ih => rw [extends_by _ _ _ step,ih]; simp

-- Simulation: when every step from a related state is a step of an abstract system
-- that leads to a related state again, so is a run. The label says which one.
theorem Path.simulates {Abstract : τ → δ → τ → Prop} (Related : σ → τ → Prop) (label : Transition σ ε → δ)
    (path : Path Step origin taken last) (start : Related origin spec)
    (follows : ∀ before event after x, Related before x → Step before event after →
      ∃ y, Related after y ∧ Abstract x (label ⟨before,event,after⟩) y) :
    ∃ end_spec run, Related last end_spec ∧ Path Abstract spec run end_spec ∧
      run.map Transition.event = taken.map label := by
  induction path with
  | nil => exact ⟨spec,[],start,.nil,rfl⟩
  | step _ step ih =>
    obtain ⟨x,run,related,abstract,events⟩ := ih
    obtain ⟨y,again,move⟩ := follows _ _ _ _ related step
    exact ⟨y,_,again,.step abstract move,by rw [List.map_append,List.map_append,events]; rfl⟩

end PcNetwork
