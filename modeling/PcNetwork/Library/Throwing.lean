import Mathlib.Data.List.Infix

namespace PcNetwork
variable {ε σ α β : Type}

-- A function that may throw, on a state. What was assigned before a throw stays
-- assigned. The exception is the text given to the throw.
abbrev Throwing (σ α : Type) := EStateM String σ α

theorem bind_ok {p : EStateM ε σ α} (ran : p s = .ok a t) (f : α → EStateM ε σ β) : (p >>= f) s = f a t := by
  show (match p s with | .ok a t => f a t | .error e t => .error e t) = f a t
  rw [ran]

theorem bind_error {p : EStateM ε σ α} (threw : p s = .error e t) (f : α → EStateM ε σ β) : (p >>= f) s = .error e t := by
  show (match p s with | .ok a t => f a t | .error e t => .error e t) = .error e t
  rw [threw]

-- A sequence that returns is a first part that returned and a second that did.
theorem bind_returned {p : EStateM ε σ α} {f : α → EStateM ε σ β} (ran : (p >>= f) s = .ok b u) :
    ∃ a t, p s = .ok a t ∧ f a t = .ok b u := by
  cases first : p s with
  | ok a t =>
    rw [bind_ok first] at ran
    exact ⟨a,t,rfl,ran⟩
  | error e t =>
    rw [bind_error first] at ran
    cases ran

-- The state a function leaves behind, in whatever way it ends.
def final : EStateM.Result ε σ α → σ
  | .ok _ s => s
  | .error _ s => s

theorem final_bind_pure (p : EStateM ε σ α) (b : β) (s : σ) :
    final ((p >>= fun _ => (pure b : EStateM ε σ β)) s) = final (p s) := by
  cases ran : p s with
  | ok a t => rw [bind_ok ran]; rfl
  | error e t => rw [bind_error ran]; rfl

-- In whatever way the function ends, it leaves a state that is related to s. A value
-- that it returns meets Q.
structure Keeps (R : σ → σ → Prop) (Q : α → Prop) (p : EStateM ε σ α) (s : σ) : Prop where
  relates : R s (final (p s))
  returns : ∀ a t, p s = .ok a t → Q a

variable {R : σ → σ → Prop} {P : α → Prop} {Q : β → Prop}

theorem Keeps.pure {b : β} (related : R s s) (holds : Q b) : Keeps R Q (pure b : EStateM ε σ β) s :=
  ⟨related,fun _ _ same => by cases same; exact holds⟩

theorem Keeps.bind (trans : ∀ {s t u}, R s t → R t u → R s u) {p : EStateM ε σ α} {f : α → EStateM ε σ β}
    (first : Keeps R P p s) (next : ∀ a t, R s t → P a → Keeps R Q (f a) t) : Keeps R Q (p >>= f) s := by
  obtain ⟨related,returned⟩ := first
  cases ran : p s with
  | ok a t =>
    rw [ran] at related
    obtain ⟨later,result⟩ := next a t related (returned a t ran)
    constructor
    · rw [bind_ok ran]
      exact trans related later
    · rw [bind_ok ran]
      exact result
  | error e t =>
    rw [ran] at related
    constructor
    · rw [bind_error ran]
      exact related
    · rw [bind_error ran]
      exact nofun

end PcNetwork
