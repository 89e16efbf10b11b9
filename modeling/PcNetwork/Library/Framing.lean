import Mathlib.Data.List.Infix

namespace PcNetwork
variable {α φ : Type}

-- What a decoder says about the bytes at hand.
inductive Verdict (α φ : Type) where
  | more
  | bad
  | frame (found : φ) (rest : List α)

-- A framing is a decoder whose answer is final: bytes that arrive later change
-- neither a frame that was found nor a refusal. Only `more` may be revised.
structure Framing (α φ : Type) where
  next : List α → Verdict α φ
  next_nil : next [] = .more
  consumes : ∀ {bytes found rest}, next bytes = .frame found rest → rest.length < bytes.length
  frame_final : ∀ {bytes found rest} (later : List α), next bytes = .frame found rest →
    next (bytes ++ later) = .frame found (rest ++ later)
  bad_final : ∀ {bytes} (later : List α), next bytes = .bad → next (bytes ++ later) = .bad

inductive Tail (α : Type) where
  | waiting (rest : List α)
  | broken

namespace Framing
variable (F : Framing α φ)

-- All frames of a byte string and what is left behind them.
def split (bytes : List α) : List φ × Tail α :=
  match _ : F.next bytes with
  | .more => ([],.waiting bytes)
  | .bad => ([],.broken)
  | .frame f rest => (f :: (split rest).1,(split rest).2)
termination_by bytes.length
decreasing_by all_goals exact F.consumes ‹_›

theorem split_more (answer : F.next bytes = .more) : F.split bytes = ([],.waiting bytes) := by
  rw [split]; split <;> simp_all

theorem split_bad (answer : F.next bytes = .bad) : F.split bytes = ([],.broken) := by
  rw [split]; split <;> simp_all

theorem split_frame (answer : F.next bytes = .frame found rest) :
    F.split bytes = (found :: (F.split rest).1,(F.split rest).2) := by
  rw [split]; split <;> simp_all

@[simp] theorem split_nil : F.split [] = ([],.waiting []) := F.split_more F.next_nil

-- Induction over the frames of a byte string.
theorem split_induction {motive : List α → Prop}
    (more : ∀ bytes, F.next bytes = .more → motive bytes)
    (bad : ∀ bytes, F.next bytes = .bad → motive bytes)
    (frame : ∀ bytes found rest, F.next bytes = .frame found rest → motive rest → motive bytes)
    (bytes : List α) : motive bytes := by
  induction size : bytes.length using Nat.strongRecOn generalizing bytes with
  | ind size ih =>
    cases answer : F.next bytes with
    | more => exact more _ answer
    | bad => exact bad _ answer
    | frame found rest =>
      exact frame _ _ _ answer (ih rest.length (size ▸ F.consumes answer) rest rfl)

-- What waits has no frame at its front.
theorem split_waiting (left : (F.split bytes).2 = .waiting rest) : F.next rest = .more := by
  induction bytes using F.split_induction with
  | more bytes answer => rw [F.split_more answer] at left; cases left; exact answer
  | bad bytes answer => rw [F.split_bad answer] at left; cases left
  | frame bytes found tail answer ih => rw [F.split_frame answer] at left; exact ih left

-- What waits is the end of the byte string.
theorem split_suffix (consume : ∀ {bytes found rest}, F.next bytes = .frame found rest → rest <:+ bytes)
    (left : (F.split bytes).2 = .waiting rest) : rest <:+ bytes := by
  induction bytes using F.split_induction with
  | more bytes answer => rw [F.split_more answer] at left; cases left; exact List.suffix_refl _
  | bad bytes answer => rw [F.split_bad answer] at left; cases left
  | frame bytes found tail answer ih =>
    rw [F.split_frame answer] at left
    exact (ih left).trans (consume answer)

-- A receiver keeps the frames so far and the bytes it could not use yet.
def absorb (state : List φ × Tail α) (chunk : List α) : List φ × Tail α :=
  match state.2 with
  | .waiting rest => (state.1 ++ (F.split (rest ++ chunk)).1,(F.split (rest ++ chunk)).2)
  | .broken => state

theorem absorb_split (bytes chunk : List α) : F.absorb (F.split bytes) chunk = F.split (bytes ++ chunk) := by
  induction bytes using F.split_induction with
  | more bytes answer => simp [absorb,F.split_more answer]
  | bad bytes answer => rw [F.split_bad answer,F.split_bad (F.bad_final chunk answer)]; rfl
  | frame bytes found rest answer ih =>
    rw [F.split_frame answer,F.split_frame (F.frame_final chunk answer),← ih]
    cases left : (F.split rest).2 <;> simp [absorb,left]

-- Bytes whose last frames are those of a remainder, and what arrives behind them.
theorem split_extend {whole rest : List α} {done : List φ}
    (split : F.split whole = (done ++ (F.split rest).1,(F.split rest).2)) (later : List α) :
    F.split (whole ++ later) = (done ++ (F.split (rest ++ later)).1,(F.split (rest ++ later)).2) := by
  rw [← F.absorb_split whole,← F.absorb_split rest,split]
  unfold absorb
  cases tail : (F.split rest).2 with
  | waiting left => simp only [List.append_assoc]
  | broken => simp only [tail]

-- An encoder of frames. A byte string that is cut off inside a frame still waits.
theorem more_of_cut {enc : φ → List α} {f : φ} (reads : ∀ later, F.next (enc f ++ later) = .frame f later)
    (cut : enc f = bytes ++ rest) (short : rest ≠ []) : F.next bytes = .more := by
  have whole : F.next (bytes ++ rest) = .frame f [] := by
    have read := reads []
    rwa [cut,List.append_nil] at read
  cases answer : F.next bytes with
  | more => rfl
  | bad => rw [F.bad_final rest answer] at whole; cases whole
  | frame found left =>
    rw [F.frame_final rest answer] at whole
    exact absurd (List.append_eq_nil_iff.mp (Verdict.frame.inj whole).2).2 short

-- What arrived of an encoded stream so far are its first frames and part of the next.
theorem split_encoded {enc : φ → List α} {items : List φ} {bytes : List α}
    (reads : ∀ f ∈ items, ∀ later, F.next (enc f ++ later) = .frame f later) (part : bytes <+: items.flatMap enc) :
    ∃ done todo tail, items = done ++ todo ∧ F.split bytes = (done,.waiting tail) ∧
      bytes = done.flatMap enc ++ tail := by
  induction items generalizing bytes with
  | nil =>
    cases List.prefix_nil.mp part
    exact ⟨[],[],[],rfl,F.split_nil,rfl⟩
  | cons f rest ih =>
    have reading := reads f List.mem_cons_self
    rw [List.flatMap_cons] at part
    have arrived : ∀ later, bytes = enc f ++ later →
        ∃ done todo tail, f :: rest = done ++ todo ∧ F.split bytes = (done,.waiting tail) ∧
          bytes = done.flatMap enc ++ tail := by
      rintro later rfl
      obtain ⟨done,todo,tail,split,found,content⟩ :=
        ih (fun g member => reads g (List.mem_cons_of_mem _ member)) ((List.prefix_append_right_inj _).mp part)
      refine ⟨f :: done,todo,tail,congrArg (f :: ·) split,?_,?_⟩
      · rw [F.split_frame (reading later),found]
      · rw [List.flatMap_cons,List.append_assoc,← content]
    rcases List.prefix_or_prefix_of_prefix part (List.prefix_append (enc f) _) with ⟨missing,cut⟩ | ⟨later,whole⟩
    · by_cases none : missing = []
      · rw [none,List.append_nil] at cut
        exact arrived [] (by rw [List.append_nil]; exact cut)
      · exact ⟨[],f :: rest,bytes,rfl,F.split_more (F.more_of_cut reading cut.symm none),rfl⟩
    · exact arrived later whole.symm

-- An encoded stream that has arrived in whole.
theorem split_whole {enc : φ → List α} {items : List φ}
    (reads : ∀ f ∈ items, ∀ later, F.next (enc f ++ later) = .frame f later) :
    F.split (items.flatMap enc) = (items,.waiting []) := by
  induction items with
  | nil => exact F.split_nil
  | cons f rest ih =>
    rw [List.flatMap_cons,F.split_frame (reads f List.mem_cons_self _),ih fun g member => reads g (List.mem_cons_of_mem _ member)]

end Framing
end PcNetwork
