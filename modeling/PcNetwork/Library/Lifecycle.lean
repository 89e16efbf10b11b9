import Mathlib.Data.List.Infix
import Mathlib.Logic.Function.Basic
import Mathlib.Logic.Relation

namespace PcNetwork
variable {ι κ : Type} [DecidableEq ι]

-- A slot is reported up with the key of what it holds, and down again.
inductive Report (ι κ : Type) where
  | up (slot : ι) (key : κ)
  | down (slot : ι) (key : κ)
  deriving DecidableEq

def Report.settle (i : ι) (now : Option κ) : Report ι κ → Option κ
  | .up slot key => if slot = i then some key else now
  | .down slot _ => if slot = i then none else now

-- What a slot holds when its last report was up.
def standing (i : ι) (log : List (Report ι κ)) : Option κ := log.foldl (Report.settle i) none

theorem standing_snoc (i : ι) (log : List (Report ι κ)) (r : Report ι κ) : standing i (log ++ [r]) = r.settle i (standing i log) := by
  unfold standing
  rw [List.foldl_append,List.foldl_cons,List.foldl_nil]

-- Every report down is about what the slot holds by the reports before it: what was
-- reported up is reported down once at most.
def Paired (log : List (Report ι κ)) : Prop :=
  ∀ earlier slot key later, log = earlier ++ .down slot key :: later → standing slot earlier = some key

theorem Paired.nil : Paired ([] : List (Report ι κ)) := by
  intro earlier slot key later same
  cases earlier <;> cases same

theorem Paired.snoc {log : List (Report ι κ)} {r : Report ι κ} (paired : Paired log)
    (stands : ∀ slot key, r = .down slot key → standing slot log = some key) : Paired (log ++ [r]) := by
  intro earlier slot key later same
  rcases List.eq_nil_or_concat later with rfl | ⟨before,last,rfl⟩
  · obtain ⟨rfl,equal⟩ := List.append_inj' same rfl
    exact stands slot key (List.cons.inj equal).1
  · rw [List.concat_eq_append,← List.cons_append,← List.append_assoc] at same
    obtain ⟨rfl,_⟩ := List.append_inj' same rfl
    exact paired earlier slot key before rfl

theorem Paired.earlier {log more : List (Report ι κ)} (paired : Paired (log ++ more)) : Paired log := by
  intro earlier slot key later same
  refine paired earlier slot key (later ++ more) ?_
  rw [same,List.append_assoc,List.cons_append]

-- Of a key there are at most as many reports down as up, and one less while it stands.
theorem Paired.settled [DecidableEq κ] {log : List (Report ι κ)} (paired : Paired log) (slot : ι) (key : κ) :
    log.count (.down slot key)+(if standing slot log = some key then 1 else 0) ≤ log.count (.up slot key) := by
  induction log using List.reverseRecOn with
  | nil => exact Nat.le_refl _
  | append_singleton log r ih =>
    have before := ih paired.earlier
    rw [standing_snoc,List.count_append,List.count_append]
    cases r with
    | up i k =>
      have down : [Report.up i k].count (.down slot key) = 0 := List.count_eq_zero.mpr (by simp)
      by_cases same : i = slot ∧ k = key
      · obtain ⟨rfl,rfl⟩ := same
        have up : [Report.up i k].count (.up i k) = 1 := List.count_singleton_self
        rw [down,up]
        split <;> omega
      · have kept : (Report.up i k).settle slot (standing slot log) = some key → standing slot log = some key := by
          simp only [Report.settle]
          split
          · rename_i equal
            exact fun stands => absurd ⟨equal,Option.some.inj stands⟩ same
          · exact id
        rw [down]
        split
        · rename_i stands
          rw [if_pos (kept stands)] at before
          omega
        · omega
    | down i k =>
      by_cases same : i = slot
      · subst same
        have stood := paired log i k [] rfl
        have falls : (Report.down i k).settle i (standing i log) = none := if_pos rfl
        rw [stood] at before
        rw [falls,if_neg nofun]
        by_cases equal : k = key
        · subst equal
          rw [if_pos rfl] at before
          rw [List.count_singleton_self]
          omega
        · have other : [Report.down i k].count (.down i key) = 0 := List.count_eq_zero.mpr (by simp [Ne.symm equal])
          omega
      · have kept : (Report.down i k).settle slot (standing slot log) = standing slot log := if_neg same
        have other : [Report.down i k].count (.down slot key) = 0 := List.count_eq_zero.mpr (by simp [Ne.symm same])
        rw [kept]
        omega

-- A call that waits for the owner of a slot: the one that is about to free it, or one
-- that goes on with it.
inductive Wait (ι : Type) where
  | closing (slot : ι)
  | serving (slot : ι)

def Wait.closed : Wait ι → Option ι
  | .closing slot => some slot
  | .serving _ => none

def closings (waits : List (Wait ι)) : List ι := waits.filterMap Wait.closed

-- Slots that are given away with a key and freed again. `waits` are the calls that have
-- not returned, the last one first, and `log` is what the owners were told.
structure Cycle (ι κ : Type) where
  holds : ι → Option κ
  waits : List (Wait ι)
  log : List (Report ι κ)

namespace Cycle
variable {c d : Cycle ι κ} {i : ι} {k : κ} {rest : List (Wait ι)}

def opened (c : Cycle ι κ) (i : ι) (k : κ) : Cycle ι κ :=
  ⟨Function.update c.holds i (some k),.serving i :: c.waits,c.log ++ [.up i k]⟩

def closing (c : Cycle ι κ) (i : ι) (k : κ) : Cycle ι κ := ⟨c.holds,.closing i :: c.waits,c.log ++ [.down i k]⟩

def shut (c : Cycle ι κ) (i : ι) (rest : List (Wait ι)) : Cycle ι κ := ⟨Function.update c.holds i none,rest,c.log⟩

-- The owner is told that a slot goes down before it is freed, and not again while that
-- call waits.
inductive Turn : Cycle ι κ → Cycle ι κ → Prop where
  | opened (free : before.holds slot = none) (key : κ) : Turn before (before.opened slot key)
  | closing (held : before.holds slot = some key) (outside : slot ∉ closings before.waits) : Turn before (before.closing slot key)
  | serving (outside : slot ∉ closings before.waits) : Turn before {before with waits := .serving slot :: before.waits}
  | returned (waits : before.waits = .serving slot :: older) : Turn before {before with waits := older}
  | shut (waits : before.waits = .closing slot :: older) : Turn before (before.shut slot older)

-- A call that serves a slot has begun when nothing was closing it.
def Ordered : List (Wait ι) → Prop
  | [] => True
  | .closing _ :: rest => Ordered rest
  | .serving slot :: rest => slot ∉ closings rest ∧ Ordered rest

structure Sound (c : Cycle ι κ) : Prop where
  held : ∀ i ∈ closings c.waits, ∃ k, c.holds i = some k
  once : (closings c.waits).Nodup
  ordered : Ordered c.waits
  stands : ∀ i k, c.holds i = some k → i ∉ closings c.waits → standing i c.log = some k
  paired : Paired c.log

theorem Sound.opened (sound : Sound c) (free : c.holds i = none) (k : κ) : Sound (c.opened i k) where
  held j member := by
    obtain ⟨key,holds⟩ := sound.held j member
    have other : j ≠ i := by
      rintro rfl
      rw [free] at holds
      cases holds
    exact ⟨key,(Function.update_of_ne other _ _).trans holds⟩
  once := sound.once
  ordered := by
    refine ⟨fun member => ?_,sound.ordered⟩
    obtain ⟨key,holds⟩ := sound.held i member
    rw [free] at holds
    cases holds
  stands j key holds outside := by
    show standing j (c.log ++ [.up i k]) = some key
    rw [standing_snoc]
    by_cases same : i = j
    · subst same
      exact (if_pos rfl).trans ((Function.update_self i _ c.holds).symm.trans holds)
    · have before : c.holds j = some key := (Function.update_of_ne (Ne.symm same) _ _).symm.trans holds
      exact (if_neg same).trans (sound.stands j key before outside)
  paired := sound.paired.snoc nofun

theorem Sound.closing (sound : Sound c) (held : c.holds i = some k) (outside : i ∉ closings c.waits) : Sound (c.closing i k) where
  held j member := by
    rcases List.mem_cons.mp member with rfl | old
    · exact ⟨k,held⟩
    · exact sound.held j old
  once := List.nodup_cons.mpr ⟨outside,sound.once⟩
  ordered := sound.ordered
  stands j key holds apart := by
    obtain ⟨other,apart⟩ := not_or.mp (mt List.mem_cons.mpr apart)
    show standing j (c.log ++ [.down i k]) = some key
    rw [standing_snoc]
    exact (if_neg (Ne.symm other)).trans (sound.stands j key holds apart)
  paired := sound.paired.snoc fun slot key same => by
    cases same
    exact sound.stands i k held outside

theorem Sound.serving (sound : Sound c) (outside : i ∉ closings c.waits) : Sound {c with waits := .serving i :: c.waits} :=
  ⟨sound.held,sound.once,⟨outside,sound.ordered⟩,sound.stands,sound.paired⟩

theorem Sound.outside (sound : Sound c) (waits : c.waits = .serving i :: rest) : i ∉ closings rest := by
  have ordered := sound.ordered
  rw [waits] at ordered
  exact ordered.1

theorem Sound.returned (sound : Sound c) (waits : c.waits = .serving i :: rest) : Sound {c with waits := rest} := by
  obtain ⟨held,once,ordered,stands,paired⟩ := sound
  rw [waits] at held once ordered stands
  exact ⟨held,once,ordered.2,stands,paired⟩

theorem Sound.shut (sound : Sound c) (waits : c.waits = .closing i :: rest) : Sound (c.shut i rest) := by
  obtain ⟨held,once,ordered,stands,paired⟩ := sound
  rw [waits] at held once ordered stands
  obtain ⟨absent,once⟩ := List.nodup_cons.mp (show (i :: closings rest).Nodup from once)
  refine ⟨fun j member => ?_,once,ordered,fun j key holds apart => ?_,paired⟩
  · obtain ⟨key,holds⟩ := held j (List.mem_cons_of_mem _ member)
    have other : j ≠ i := fun same => absent (same ▸ member)
    exact ⟨key,(Function.update_of_ne other _ _).trans holds⟩
  · by_cases same : j = i
    · subst same
      have empty : Function.update c.holds j none j = none := Function.update_self j none c.holds
      rw [show (c.shut j rest).holds j = none from empty] at holds
      cases holds
    · have before : c.holds j = some key := (Function.update_of_ne same _ _).symm.trans holds
      exact stands j key before fun member => (List.mem_cons.mp member).elim same apart

theorem Sound.turn (sound : Sound c) (turn : Turn c d) : Sound d := by
  cases turn with
  | opened free k => exact sound.opened free k
  | closing held outside => exact sound.closing held outside
  | serving outside => exact sound.serving outside
  | returned waits => exact sound.returned waits
  | shut waits => exact sound.shut waits

theorem Sound.turns (sound : Sound c) (turns : Relation.ReflTransGen Turn c d) : Sound d := by
  induction turns with
  | refl => exact sound
  | tail _ turn ih => exact ih.turn turn

theorem Sound.start (free : ∀ i, c.holds i = none) (waits : c.waits = []) (log : c.log = []) : Sound c where
  held i member := by
    rw [waits] at member
    cases member
  once := waits ▸ List.nodup_nil
  ordered := waits ▸ trivial
  stands i k holds := by
    rw [free i] at holds
    cases holds
  paired := log ▸ Paired.nil

end Cycle
end PcNetwork
