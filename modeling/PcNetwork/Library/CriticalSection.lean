import Mathlib.Logic.Basic

namespace PcNetwork

-- The thread that is in it, and how many times it has entered without leaving again.
structure CriticalSection where
  owner : Option (Nat × Nat)

namespace CriticalSection

def new : CriticalSection := ⟨none⟩

-- No result while another thread is in it: the caller waits.
def enter (cs : CriticalSection) (c : Nat) : Option CriticalSection :=
  match cs.owner with
  | none => some ⟨some (c,1)⟩
  | some (d,n) => if d = c then some ⟨some (c,n+1)⟩ else none

-- No result for a thread that is not in it.
def leave (cs : CriticalSection) (c : Nat) : Option CriticalSection :=
  match cs.owner with
  | none => none
  | some (d,n) => if d = c then some (if n ≤ 1 then ⟨none⟩ else ⟨some (c,n-1)⟩) else none

-- It is entered once by each of those that are said to be in it, so by one at most.
structure Held (cs : CriticalSection) (inside : Nat → Prop) : Prop where
  once : ∀ c n, cs.owner = some (c,n) → n = 1
  holds : ∀ c, inside c ↔ ∃ n, cs.owner = some (c,n)

variable {cs next : CriticalSection} {inside now : Nat → Prop}

theorem new_held (nobody : ∀ c, ¬ inside c) : Held new inside :=
  ⟨by simp [new],fun c => by simp [new,nobody c]⟩

-- Somebody who is not in it gets in: nobody was.
theorem Held.entered (held : Held cs inside) (outside : ¬ inside c) (entered : cs.enter c = some next)
    (others : ∀ d, d ≠ c → (now d ↔ inside d)) (comes : now c) : Held next now := by
  cases owner : cs.owner with
  | none =>
    simp only [enter,owner] at entered
    cases entered
    refine ⟨by simp,?_⟩
    intro d
    by_cases same : d = c
    · subst same
      simp [comes]
    · rw [others d same,held.holds d,owner]
      simp [Ne.symm same]
  | some entry =>
    obtain ⟨d,n⟩ := entry
    simp only [enter,owner] at entered
    split at entered
    · rename_i same
      subst same
      exact absurd ((held.holds d).mpr ⟨n,owner⟩) outside
    · cases entered

-- The one who is in it leaves, and nobody is.
theorem Held.left (held : Held cs inside) (left : cs.leave c = some next)
    (others : ∀ d, d ≠ c → (now d ↔ inside d)) (goes : ¬ now c) : Held next now := by
  cases owner : cs.owner with
  | none =>
    simp only [leave,owner] at left
    cases left
  | some entry =>
    obtain ⟨d,n⟩ := entry
    have single := held.once d n owner
    subst single
    simp only [leave,owner] at left
    split at left
    · rename_i same
      subst same
      rw [if_pos (Nat.le_refl 1)] at left
      cases left
      refine ⟨by simp,?_⟩
      intro e
      by_cases same : e = d
      · subst same
        simp [goes]
      · rw [others e same,held.holds e,owner]
        simp [Ne.symm same]
    · cases left

theorem Held.congr (held : Held cs inside) (same : ∀ c, now c ↔ inside c) : Held cs now :=
  ⟨held.once,fun c => (same c).trans (held.holds c)⟩

end CriticalSection
end PcNetwork
