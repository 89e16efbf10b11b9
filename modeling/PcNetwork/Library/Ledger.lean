import Mathlib.Data.List.Perm.Subperm
import Mathlib.Data.List.Nodup

namespace PcNetwork

-- The account of a memory: how many addresses it has given out, which were deleted and
-- in which order, and its misuses: an address that was deleted while it was still held
-- somewhere, and one that was used after it was deleted.
structure Ledger where
  count : Nat
  deleted : List Nat
  early : List Nat
  stale : List Nat

namespace Ledger

def new : Ledger := ⟨0,[],[],[]⟩
def alloc (l : Ledger) : Ledger := {l with count := l.count+1}
def delete (l : Ledger) (a : Nat) (held : List Nat) : Ledger :=
  {l with deleted := l.deleted ++ [a],early := if a ∈ held then l.early ++ [a] else l.early}
def touch (l : Ledger) (a : Nat) : Ledger := if a ∈ l.deleted then {l with stale := l.stale ++ [a]} else l

-- No misuse so far.
structure Sound (l : Ledger) : Prop where
  once : l.deleted.Nodup
  early : l.early = []
  stale : l.stale = []

-- The places that an address can be at, with what is there: no address is at two of
-- them, and none of those there was deleted.
structure Owns (l : Ledger) (places : List Nat) : Prop extends Sound l where
  apart : places.Nodup
  live : ∀ a ∈ places, a < l.count ∧ a ∉ l.deleted
  known : ∀ a ∈ l.deleted, a < l.count

variable {l m n : Ledger} {places rest : List Nat}

theorem new_owns : Owns new [] := ⟨⟨.nil,rfl,rfl⟩,.nil,nofun,nofun⟩

-- Addresses move from place to place, or are forgotten.
theorem Owns.moved (owns : Owns l places) (less : rest.Subperm places) : Owns l rest := by
  obtain ⟨part,same,within⟩ := less
  refine ⟨owns.toSound,same.nodup_iff.mp (owns.apart.sublist within),?_,owns.known⟩
  intro a member
  exact owns.live a (within.subset (same.mem_iff.mpr member))

theorem alloc_owns (owns : Owns l places) : Owns l.alloc (l.count :: places) := by
  have unknown : l.count ∉ l.deleted := fun member => Nat.lt_irrefl _ (owns.known _ member)
  refine ⟨⟨owns.once,owns.early,owns.stale⟩,?_,?_,?_⟩
  · refine List.nodup_cons.mpr ⟨?_,owns.apart⟩
    intro member
    exact Nat.lt_irrefl _ (owns.live _ member).1
  · intro a member
    rcases List.mem_cons.mp member with rfl | old
    · exact ⟨Nat.lt_succ_self _,unknown⟩
    · exact ⟨Nat.lt_succ_of_lt (owns.live a old).1,(owns.live a old).2⟩
  · intro a member
    exact Nat.lt_succ_of_lt (owns.known a member)

-- What is deleted has to be at a place where nobody else holds it.
theorem delete_owns {a : Nat} {held : List Nat} (owns : Owns l (a :: places)) (within : held ⊆ places) :
    Owns (l.delete a held) places := by
  obtain ⟨alone,apart⟩ := List.nodup_cons.mp owns.apart
  obtain ⟨mine,fresh⟩ := owns.live a List.mem_cons_self
  have free : a ∉ held := fun member => alone (within member)
  refine ⟨⟨?_,?_,owns.stale⟩,apart,?_,?_⟩
  · refine List.nodup_append.mpr ⟨owns.once,List.nodup_singleton a,?_⟩
    rintro x member y last rfl
    cases List.mem_singleton.mp last
    exact fresh member
  · simp [delete,free,owns.early]
  · intro x member
    obtain ⟨low,kept⟩ := owns.live x (List.mem_cons_of_mem _ member)
    refine ⟨low,?_⟩
    intro gone
    rcases List.mem_append.mp gone with old | new
    · exact kept old
    · cases List.mem_singleton.mp new
      exact alone member
  · intro x gone
    rcases List.mem_append.mp gone with old | new
    · exact owns.known x old
    · cases List.mem_singleton.mp new
      exact mine

theorem touch_same {a : Nat} (owns : Owns l places) (member : a ∈ places) : l.touch a = l :=
  if_neg (owns.live a member).2

-- A misuse is not undone.
def Later (l m : Ledger) : Prop := l.early <+: m.early

theorem Later.refl (l : Ledger) : Later l l := List.prefix_refl _
theorem Later.trans (first : Later l m) (second : Later m n) : Later l n := List.IsPrefix.trans first second

theorem alloc_later (l : Ledger) : Later l l.alloc := List.prefix_refl _

theorem delete_later (l : Ledger) (a : Nat) (held : List Nat) : Later l (l.delete a held) := by
  unfold Later delete
  dsimp only
  split
  · exact List.prefix_append _ _
  · exact List.prefix_refl _

theorem touch_later (l : Ledger) (a : Nat) : Later l (l.touch a) := by
  unfold Later touch
  split <;> exact List.prefix_refl _

theorem Later.misused (later : Later l m) (misused : l.early ≠ []) : m.early ≠ [] := by
  intro none
  rw [Later,none] at later
  exact misused (List.prefix_nil.mp later)

end Ledger
end PcNetwork
