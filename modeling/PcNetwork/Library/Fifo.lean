import PcNetwork.Library.Path

namespace PcNetwork
variable {α : Type}

-- A byte queue with its past: what has left it and what is still in it. One step may
-- push at the end, take from the front, or both.
structure Fifo (α : Type) where
  taken : List α
  queue : List α

structure FifoEvent (α : Type) where
  pushed : List α
  taken : List α

inductive FifoStep : Fifo α → FifoEvent α → Fifo α → Prop where
  | move (parts : queue ++ pushed = items ++ rest) :
      FifoStep ⟨before,queue⟩ ⟨pushed,items⟩ ⟨before ++ items,rest⟩

def Fifo.history (q : Fifo α) : List α := q.taken ++ q.queue

theorem fifoStep_history {q next : Fifo α} (step : FifoStep q event next) :
    next.history = q.history ++ event.pushed := by
  cases step with
  | move parts => simp only [Fifo.history,List.append_assoc,parts]

-- Nothing is lost, duplicated or reordered: what left the queue and what is in it
-- are together exactly what was pushed.
theorem fifo_history {q last : Fifo α} (path : Path FifoStep q moves last) :
    last.history = q.history ++ (moves.map Transition.event).flatMap FifoEvent.pushed := by
  rw [List.flatMap_map]
  exact path.logged Fifo.history (fun _ event _ => event.pushed) fun _ _ _ => fifoStep_history

theorem fifo_taken {q last : Fifo α} (path : Path FifoStep q moves last) :
    last.taken = q.taken ++ (moves.map Transition.event).flatMap FifoEvent.taken := by
  rw [List.flatMap_map]
  refine path.logged Fifo.taken (fun _ event _ => event.taken) ?_
  intro before event after step
  cases step with
  | move parts => rfl

end PcNetwork
