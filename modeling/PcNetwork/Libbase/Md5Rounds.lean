import PcNetwork.Libbase.Md5
import Mathlib.Data.List.FinRange

namespace PcNetwork.Md5

-- The loop that the lines write out: in every step the variables move one place on and
-- the message index and the number of bits follow a rule of the round.
def roundOf (i : Nat) : Macro :=
  match i/16 with
  | 0 => .FF
  | 1 => .GG
  | 2 => .HH
  | _ => .II

def messageIndex (i : Nat) : Nat :=
  match i/16 with
  | 0 => i
  | 1 => (5*i+1) % 16
  | 2 => (3*i+5) % 16
  | _ => 7*i % 16

def shift (i : Nat) : UInt32 :=
  match i/16,i % 4 with
  | 0,0 => 7
  | 0,1 => 12
  | 0,2 => 17
  | 0,_ => 22
  | 1,0 => 5
  | 1,1 => 9
  | 1,2 => 14
  | 1,_ => 20
  | 2,0 => 4
  | 2,1 => 11
  | 2,2 => 16
  | 2,_ => 23
  | _,0 => 6
  | _,1 => 10
  | _,2 => 15
  | _,_ => 21

def constant (i : Nat) : UInt32 := ((lines.map Line.ac).getD i 0)

def loopStep (x : List UInt32) (w : Words) (i : Nat) : Words :=
  ⟨w.d,w.b+rotateLeft (w.a+((roundOf i).basic w.b w.c w.d+x.getD (messageIndex i) 0+constant i)) (shift i),w.b,w.c⟩

-- The variables as the loop has them when it is at step i.
def seenAt (i : Nat) (w : Words) : Words :=
  match i % 4 with
  | 0 => w
  | 1 => ⟨w.d,w.a,w.b,w.c⟩
  | 2 => ⟨w.c,w.d,w.a,w.b⟩
  | _ => ⟨w.b,w.c,w.d,w.a⟩

-- The line of step i, with the variables that stand where the loop has a, b, c and d.
def lineOf (i : Nat) : Line :=
  match i % 4 with
  | 0 => ⟨roundOf i,.a,.b,.c,.d,messageIndex i,shift i,constant i⟩
  | 1 => ⟨roundOf i,.d,.a,.b,.c,messageIndex i,shift i,constant i⟩
  | 2 => ⟨roundOf i,.c,.d,.a,.b,messageIndex i,shift i,constant i⟩
  | _ => ⟨roundOf i,.b,.c,.d,.a,messageIndex i,shift i,constant i⟩

theorem lines_written : lines = (List.range 64).map lineOf := by
  decide +kernel

theorem line_step (x : List UInt32) (w : Words) (i : Nat) : seenAt (i+1) ((lineOf i).run x w) = loopStep x (seenAt i w) i := by
  have turn : i % 4 = 0 ∧ (i+1) % 4 = 1 ∨ i % 4 = 1 ∧ (i+1) % 4 = 2 ∨ i % 4 = 2 ∧ (i+1) % 4 = 3 ∨ i % 4 = 3 ∧ (i+1) % 4 = 0 := by omega
  rcases turn with ⟨now,after⟩ | ⟨now,after⟩ | ⟨now,after⟩ | ⟨now,after⟩ <;>
    simp only [seenAt,lineOf,now,after,loopStep,Line.run,Words.get,Words.set,UInt32.add_comm]

theorem lines_loop (x : List UInt32) (w : Words) (n : Nat) :
    seenAt n (((List.range n).map lineOf).foldl (Line.run x) w) = (List.range n).foldl (loopStep x) w := by
  induction n with
  | zero => rfl
  | succ n ih =>
    rw [List.range_succ,List.map_append,List.foldl_append,List.foldl_append,← ih]
    exact line_step x _ n

-- The 64 written-out lines of MD5Transform are the loop of 64 steps.
theorem transform_loop (state : Words) (block : List UInt8) :
    md5Transform state block =
      let w := (List.range 64).foldl (loopStep (decode block)) state
      ⟨state.a+w.a,state.b+w.b,state.c+w.c,state.d+w.d⟩ := by
  have same := lines_loop (decode block) state 64
  rw [← lines_written] at same
  show _ = (⟨state.a+((List.range 64).foldl (loopStep (decode block)) state).a,_,_,_⟩ : Words)
  rw [← same]
  rfl

end PcNetwork.Md5
