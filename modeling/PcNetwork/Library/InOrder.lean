import PcNetwork.Library.Path

namespace PcNetwork
variable {α : Type}

-- What a numbered channel is for. Anything that was sent may arrive, at any time and
-- as often as it likes, and only what is next in the order of sending is accepted.
structure InOrder (α : Type) where
  sent : List α
  accepted : List α

inductive InOrderEvent (α : Type) where
  | sends (x : α)
  | arrives (position : Nat)
  | rests

inductive InOrderStep : InOrder α → InOrderEvent α → InOrder α → Prop where
  | sends : InOrderStep ⟨sent,accepted⟩ (.sends x) ⟨sent ++ [x],accepted⟩
  | accepts (found : sent[accepted.length]? = some x) :
      InOrderStep ⟨sent,accepted⟩ (.arrives accepted.length) ⟨sent,accepted ++ [x]⟩
  | ignores (out_of_turn : position ≠ q.accepted.length) : InOrderStep q (.arrives position) q
  | rests : InOrderStep q .rests q

theorem inOrder_prefix {q next : InOrder α} (before : q.accepted <+: q.sent)
    (step : InOrderStep q event next) : next.accepted <+: next.sent := by
  cases step with
  | sends => exact before.trans (List.prefix_append _ _)
  | accepts found =>
    obtain ⟨rest,parts⟩ := before
    dsimp only at parts found ⊢
    subst parts
    rw [List.getElem?_append_right (Nat.le_refl _),Nat.sub_self] at found
    cases rest with
    | nil => cases found
    | cons y rest =>
      cases found
      exact ⟨rest,by rw [List.append_assoc]; rfl⟩
  | ignores => exact before
  | rests => exact before

-- Drops, duplicates and reorderings do not show: what has been accepted is a
-- beginning of what was sent, each once.
theorem inOrder_accepted {last : InOrder α} (path : Path InOrderStep ⟨[],[]⟩ run last) :
    last.accepted = last.sent.take last.accepted.length := by
  refine List.prefix_iff_eq_take.mp (path.invariant (fun q => q.accepted <+: q.sent) List.nil_prefix ?_)
  exact fun _ _ _ => inOrder_prefix

end PcNetwork
