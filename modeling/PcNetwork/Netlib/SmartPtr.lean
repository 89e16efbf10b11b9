import PcNetwork.Library.Path
import PcNetwork.Library.Shared
import Mathlib.Logic.Function.Basic

namespace PcNetwork.Netlib
variable {τ : Type}

-- The variables there are, with the pointer and the counter of each. The count is an
-- int, and an address space of 32 bits holds fewer variables than an int counts.
structure SmartPtrs (τ : Type) where
  memory : Shared τ
  live : List Nat
  var : Nat → Ref

inductive SmartOp (τ : Type) where
  | allocates (object : τ)
  | constructs (i : Nat) (ptr : Option Nat)
  | constructsEmpty (i : Nat)
  | copies (i t : Nat)
  | assigns (i t : Nat)
  | resets (i : Nat) (ptr : Option Nat)
  | resetsTo (i t : Nat)
  | destroys (i : Nat)

namespace SmartPtrs

def start : SmartPtrs τ := ⟨.empty,[],fun _ => ⟨none,none⟩⟩

def allocate (s : SmartPtrs τ) (object : τ) : SmartPtrs τ :=
  {s with memory := {s.memory with objects := s.memory.objects.alloc object}}

-- A counter is made for NULL as well.
def construct (s : SmartPtrs τ) (i : Nat) (ptr : Option Nat) : SmartPtrs τ :=
  {memory := s.memory.adopt ptr, live := i :: s.live, var := Function.update s.var i (s.memory.adopted ptr)}

def constructEmpty (s : SmartPtrs τ) (i : Nat) : SmartPtrs τ :=
  {s with live := i :: s.live, var := Function.update s.var i ⟨none,none⟩}

def copy (s : SmartPtrs τ) (i t : Nat) : Except HeapFault (SmartPtrs τ) := do
  let memory ← s.memory.addref (s.var t).u
  .ok {memory := memory, live := i :: s.live, var := Function.update s.var i (s.var t)}

def assign (s : SmartPtrs τ) (i t : Nat) : Except HeapFault (SmartPtrs τ) := do
  let memory ← s.memory.addref (s.var t).u
  let memory ← memory.release (s.var i)
  .ok {s with memory := memory, var := Function.update s.var i (s.var t)}

-- For NULL no counter is made.
def reset (s : SmartPtrs τ) (i : Nat) (ptr : Option Nat) : Except HeapFault (SmartPtrs τ) :=
  match ptr with
  | none => do
    let memory ← s.memory.release (s.var i)
    .ok {s with memory := memory, var := Function.update s.var i ⟨none,none⟩}
  | some a => do
    let memory ← (s.memory.adopt (some a)).release (s.var i)
    .ok {s with memory := memory, var := Function.update s.var i (s.memory.adopted (some a))}

def resetTo (s : SmartPtrs τ) (i t : Nat) : Except HeapFault (SmartPtrs τ) := s.assign i t

-- The destructor sets the pointer to NULL, but nothing reads it any more.
def destroy (s : SmartPtrs τ) (i : Nat) : Except HeapFault (SmartPtrs τ) := do
  let memory ← s.memory.release (s.var i)
  .ok {s with memory := memory, live := s.live.erase i}

def perform (s : SmartPtrs τ) : SmartOp τ → Except HeapFault (SmartPtrs τ)
  | .allocates object => .ok (s.allocate object)
  | .constructs i ptr => .ok (s.construct i ptr)
  | .constructsEmpty i => .ok (s.constructEmpty i)
  | .copies i t => s.copy i t
  | .assigns i t => s.assign i t
  | .resets i ptr => s.reset i ptr
  | .resetsTo i t => s.resetTo i t
  | .destroys i => s.destroy i

-- NULL, or a pointer to an object that has not been given to a smart_ptr.
def Fresh (s : SmartPtrs τ) (ptr : Option Nat) : Prop := ∀ a, ptr = some a → a < s.memory.objects.count ∧ a ∉ s.memory.given

-- A variable is constructed when it is not there, and used while it is.
def Legal (s : SmartPtrs τ) : SmartOp τ → Prop
  | .allocates _ => True
  | .constructs i ptr => i ∉ s.live ∧ s.Fresh ptr
  | .constructsEmpty i => i ∉ s.live
  | .copies i t => i ∉ s.live ∧ t ∈ s.live
  | .assigns i t => i ∈ s.live ∧ t ∈ s.live
  | .resets i ptr => i ∈ s.live ∧ s.Fresh ptr
  | .resetsTo i t => i ∈ s.live ∧ t ∈ s.live
  | .destroys i => i ∈ s.live

def holders (s : SmartPtrs τ) (a : Nat) : Nat := s.live.countP fun i => (s.var i).p = some a

def deleted (s : SmartPtrs τ) : List Nat := s.memory.objects.deleted

end SmartPtrs

def SmartStep (s : SmartPtrs τ) (op : SmartOp τ) (t : SmartPtrs τ) : Prop := s.Legal op ∧ s.perform op = .ok t

-- The counter of every variable that holds an object counts the variables that do, and
-- an object that was given is deleted once, when there is none of them.
structure Managed (s : SmartPtrs τ) : Prop where
  counted : ∀ i ∈ s.live, ∀ a, (s.var i).p = some a →
    ∃ c, (s.var i).u = some c ∧ s.memory.counters.cells c = some (s.holders a : Int)
  once : s.deleted.Nodup
  gone : ∀ a, a ∈ s.deleted ↔ a ∈ s.memory.given ∧ s.holders a = 0

-- What an operation deletes is what had a holder before it and has none after it.
def DeletesLast (before after : SmartPtrs τ) : Prop :=
  ∀ a, (a ∈ after.deleted ∧ a ∉ before.deleted) ↔ (0 < before.holders a ∧ after.holders a = 0)

namespace SmartPtrs
open Shared

def refs (s : SmartPtrs τ) : List Ref := s.live.map s.var

structure Kept (s : SmartPtrs τ) : Prop where
  live : s.live.Nodup
  counts : Counts s.refs s.memory

variable {s t : SmartPtrs τ} {op : SmartOp τ}

theorem holders_refs (s : SmartPtrs τ) (a : Nat) : s.holders a = Shared.holders s.refs a := by
  rw [Shared.holders,refs,List.countP_map]
  rfl

theorem start_kept : Kept (start : SmartPtrs τ) := ⟨.nil,empty_counts⟩

theorem Kept.managed (kept : Kept s) : Managed s := by
  refine ⟨?_,kept.counts.objects.once,?_⟩
  · intro i member a here
    rw [holders_refs]
    exact kept.counts.counted _ (List.mem_map_of_mem member) a here
  · intro a
    rw [holders_refs]
    exact kept.counts.gone a

-- What the variables hold after one that is not there is constructed.
theorem refs_new {ids : List Nat} (outside : i ∉ ids) (var : Nat → Ref) (r : Ref) :
    (i :: ids).map (Function.update var i r) = r :: ids.map var := by
  rw [List.map_cons,Function.update_self]
  congr 1
  refine List.map_congr_left fun j member => Function.update_of_ne ?_ _ _
  rintro rfl
  exact outside member

-- What they hold apart from one of them stays when that one is written to.
theorem refs_written {ids : List Nat} (nodup : ids.Nodup) (member : i ∈ ids) (var : Nat → Ref) :
    (ids.map var).Perm (var i :: (ids.erase i).map var) ∧
      ∀ r, (ids.map (Function.update var i r)).Perm (r :: (ids.erase i).map var) := by
  have split := List.perm_cons_erase member
  refine ⟨split.map var,fun r => ?_⟩
  have written := split.map (Function.update var i r)
  rw [refs_new (List.Nodup.not_mem_erase nodup)] at written
  exact written

-- The variable takes over a reference of a memory that counts it with all the others,
-- and lets go of what it held.
theorem takes_over (kept : Kept s) (inside : i ∈ s.live) (counts : Counts (r :: s.refs) m) :
    ∃ n, m.release (s.var i) = .ok n ∧ Kept {s with memory := n, var := Function.update s.var i r} ∧ n.given = m.given := by
  obtain ⟨rest,written⟩ := refs_written kept.live inside s.var
  have swapped := counts.perm ((rest.cons _).trans ((List.Perm.swap ..).trans ((written r).symm.cons _)))
  obtain ⟨n,released,counts,given⟩ := release_counts swapped
  exact ⟨n,released,⟨kept.live,counts⟩,given⟩

-- What was given stays so, and what is given has a holder.
structure Gives (s t : SmartPtrs τ) : Prop where
  before : ∀ a ∈ s.memory.given, a ∈ t.memory.given
  held : ∀ a ∈ t.memory.given, a ∈ s.memory.given ∨ 0 < t.holders a

theorem Gives.none (same : t.memory.given = s.memory.given) : Gives s t := by
  constructor
  · intro a member
    rw [same]
    exact member
  · intro a member
    rw [same] at member
    exact .inl member

theorem Gives.adopted (given : t.memory.given = (s.memory.adopt ptr).given) (inside : i ∈ t.live) (holds : (t.var i).p = ptr) : Gives s t := by
  constructor
  · intro a member
    rw [given]
    exact List.mem_append_right _ member
  · intro a member
    rw [given] at member
    rcases List.mem_append.mp member with new | old
    · have here : (t.var i).p = some a := holds.trans (Option.mem_toList.mp new)
      exact .inr (List.countP_pos_iff.mpr ⟨i,inside,by simpa using here⟩)
    · exact .inl old

theorem assign_kept (kept : Kept s) (inside : i ∈ s.live) (inside_too : j ∈ s.live) :
    ∃ t, s.assign i j = .ok t ∧ Kept t ∧ Gives s t := by
  obtain ⟨m,added,counts,_,given⟩ := addref_counts kept.counts (List.mem_map_of_mem inside_too)
  obtain ⟨n,released,kept,given_too⟩ := takes_over kept inside counts
  refine ⟨_,?_,kept,.none (given_too.trans given)⟩
  rw [assign,added]
  show (m.release _ >>= _) = _
  rw [released]
  rfl

theorem reset_kept (kept : Kept s) (inside : i ∈ s.live) (fresh : s.Fresh ptr) :
    ∃ t, s.reset i ptr = .ok t ∧ Kept t ∧ Gives s t := by
  cases ptr with
  | none =>
    obtain ⟨n,released,kept,given⟩ := takes_over kept inside (null_counts kept.counts)
    refine ⟨_,?_,kept,.none given⟩
    simp only [reset,released]
    rfl
  | some a =>
    obtain ⟨n,released,kept,given⟩ := takes_over kept inside (adopt_counts kept.counts (some a) fresh)
    refine ⟨_,?_,kept,.adopted given inside (by simp [Shared.adopted])⟩
    simp only [reset,released]
    rfl

theorem perform_kept (kept : Kept s) (legal : s.Legal op) : ∃ t, s.perform op = .ok t ∧ Kept t ∧ Gives s t := by
  cases op with
  | allocates object => exact ⟨_,rfl,⟨kept.live,alloc_counts kept.counts object⟩,.none rfl⟩
  | constructs i ptr =>
    obtain ⟨outside,fresh⟩ := legal
    refine ⟨_,rfl,⟨List.nodup_cons.mpr ⟨outside,kept.live⟩,?_⟩,.adopted rfl (List.mem_cons_self ..) (by simp [construct,Shared.adopted])⟩
    rw [refs,construct,refs_new outside]
    exact adopt_counts kept.counts ptr fresh
  | constructsEmpty i =>
    refine ⟨_,rfl,⟨List.nodup_cons.mpr ⟨legal,kept.live⟩,?_⟩,.none rfl⟩
    rw [refs,constructEmpty,refs_new legal]
    exact null_counts kept.counts
  | copies i j =>
    obtain ⟨outside,inside⟩ := legal
    obtain ⟨m,added,counts,_,given⟩ := addref_counts kept.counts (List.mem_map_of_mem inside)
    refine ⟨_,by rw [perform,copy,added]; rfl,⟨List.nodup_cons.mpr ⟨outside,kept.live⟩,?_⟩,.none given⟩
    rw [refs,refs_new outside]
    exact counts
  | assigns i j => exact assign_kept kept legal.1 legal.2
  | resets i ptr => exact reset_kept kept legal.1 legal.2
  | resetsTo i j => exact assign_kept kept legal.1 legal.2
  | destroys i =>
    obtain ⟨rest,_⟩ := refs_written kept.live legal s.var
    obtain ⟨n,released,counts,given⟩ := release_counts (kept.counts.perm rest)
    exact ⟨{s with memory := n, live := s.live.erase i},by rw [perform,destroy,released]; rfl,⟨kept.live.erase i,counts⟩,.none given⟩

theorem step_kept (kept : Kept s) (step : SmartStep s op t) : Kept t ∧ Gives s t := by
  obtain ⟨legal,ran⟩ := step
  obtain ⟨_,same,kept,gives⟩ := perform_kept kept legal
  cases ran.symm.trans same
  exact ⟨kept,gives⟩

theorem step_deletes (kept : Kept s) (step : SmartStep s op t) : DeletesLast s t := by
  obtain ⟨kept_too,before,held⟩ := step_kept kept step
  have gone := kept.managed.gone
  have gone_too := kept_too.managed.gone
  intro a
  constructor
  · rintro ⟨now,not_before⟩
    obtain ⟨given,none_left⟩ := (gone_too a).mp now
    refine ⟨Nat.pos_of_ne_zero fun unheld => ?_,none_left⟩
    rcases held a given with old | holder
    · exact not_before ((gone a).mpr ⟨old,unheld⟩)
    · omega
  · rintro ⟨holder,none_left⟩
    obtain ⟨i,member,here⟩ := List.countP_pos_iff.mp holder
    have given := kept.counts.known _ (List.mem_map_of_mem member) a (by simpa using here)
    refine ⟨(gone_too a).mpr ⟨before a given,none_left⟩,fun deleted => ?_⟩
    have unheld := ((gone a).mp deleted).2
    omega

end SmartPtrs

-- In every run the counters count the holders, every operation goes through, and each
-- deletes what it takes the last holder of.
theorem smart_ptr_deletes_once {s : SmartPtrs τ} (path : Path SmartStep .start taken s) :
    Managed s ∧ (∀ op, s.Legal op → ∃ t, s.perform op = .ok t) ∧ ∀ t ∈ taken, DeletesLast t.before t.after := by
  have kept := path.invariant SmartPtrs.Kept SmartPtrs.start_kept fun _ _ _ kept step => (SmartPtrs.step_kept kept step).1
  refine ⟨kept.managed,?_,?_⟩
  · intro op legal
    obtain ⟨t,ran,_⟩ := SmartPtrs.perform_kept kept legal
    exact ⟨t,ran⟩
  · exact path.along SmartPtrs.Kept (fun before _ after => DeletesLast before after) SmartPtrs.start_kept
      (fun _ _ _ kept step => (SmartPtrs.step_kept kept step).1) fun _ _ _ kept step => SmartPtrs.step_deletes kept step

-- Two variables for one object: it goes with the second of them, after an assignment of
-- that one to itself.
theorem smart_ptr_deletes_once_twins : ∃ (s : SmartPtrs Nat) (taken : List _), Path SmartStep .start taken s ∧ Managed s ∧
    s.deleted = [0] := by
  have path : Path SmartStep (SmartPtrs.start : SmartPtrs Nat)
      [⟨_,.allocates 7,_⟩,⟨_,.constructs 0 (some 0),_⟩,⟨_,.copies 1 0,_⟩,⟨_,.destroys 0,_⟩,⟨_,.assigns 1 1,_⟩,⟨_,.resets 1 none,_⟩] _ :=
    .step (.step (.step (.step (.step (.step .nil ⟨trivial,rfl⟩) ⟨⟨by decide,by rintro a ⟨⟩; decide⟩,rfl⟩)
      ⟨⟨by decide,by decide⟩,rfl⟩) ⟨(by decide : 0 ∈ [1,0]),rfl⟩) ⟨⟨by decide,by decide⟩,rfl⟩) ⟨⟨by decide,nofun⟩,rfl⟩
  exact ⟨_,_,path,(smart_ptr_deletes_once path).1,rfl⟩

end PcNetwork.Netlib
