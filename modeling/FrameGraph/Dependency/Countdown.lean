import FrameGraph.Total

/-!
# Counting down

A table of counters, one per pass: how many of the passes that it waits for are still to come.
`countDown` lowers the counters at some positions and tells which of them reached zero.

Principal statement: `totalOf_countDown_le` — every position that is reported has lowered the
table's total, so a loop that takes one reported position per step comes to an end.
-/

set_option autoImplicit false

namespace FrameGraph

/-- Lowers the counter at each of the positions by one.  Answers the new table and the positions
whose counter reached zero, in order. -/
def countDown (counters : List Nat) : List Nat → List Nat × List Nat
  | [] => (counters, [])
  | position :: rest =>
      match counters[position]? with
      | some (left + 1) =>
          let (counters, finished) := countDown (counters.set position left) rest
          (counters, if left = 0 then position :: finished else finished)
      | _ => countDown counters rest

/-- Every reported position has lowered the total of the counters. -/
theorem totalOf_countDown_le (counters positions : List Nat) :
    totalOf (countDown counters positions).1 + (countDown counters positions).2.length ≤
      totalOf counters := by
  induction positions generalizing counters with
  | nil => simp [countDown]
  | cons position rest ih =>
      unfold countDown
      split
      · next left h =>
          have hs := totalOf_set h left
          have hr := ih (counters.set position left)
          dsimp only
          split
          · simp only [List.length_cons]; omega
          · omega
      · exact ih counters

end FrameGraph
