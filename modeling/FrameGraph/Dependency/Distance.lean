import FrameGraph.Dependency.Graph

/-!
# Distances to target passes

The distance of a pass is the least number of dependencies on a path from it forward to one of the
targets.  The search goes backwards from the targets, breadth first, and settles the distance of a
pass when it first meets it.

Principal statement: `settleAll_count` — every pass that is newly met had no distance before, so
the search comes to an end.
-/

set_option autoImplicit false

namespace FrameGraph

/-- Gives the passes that have no distance yet the distance `d`.  Answers the new table and those
passes, in the order in which they were met. -/
def settleAll (table : List (Option Nat)) (d : Nat) : List Nat → List (Option Nat) × List Nat
  | [] => (table, [])
  | pass :: rest =>
      match table[pass]? with
      | some none =>
          ((settleAll (table.set pass (some d)) d rest).1,
            pass :: (settleAll (table.set pass (some d)) d rest).2)
      | _ => settleAll table d rest

theorem count_set_some {table : List (Option Nat)} {pass : Nat} (h : table[pass]? = some none)
    (d : Nat) : (table.set pass (some d)).count none + 1 = table.count none := by
  induction table generalizing pass with
  | nil => simp at h
  | cons entry rest ih =>
      cases pass with
      | zero =>
          simp only [List.getElem?_cons_zero, Option.some.injEq] at h
          simp [h]
      | succ pass =>
          simp only [List.getElem?_cons_succ] at h
          simp only [List.set_cons_succ, List.count_cons]
          have := ih h
          omega

/-- Every pass that is newly met had no distance before. -/
theorem settleAll_count (table : List (Option Nat)) (d : Nat) (passes : List Nat) :
    (settleAll table d passes).1.count none + (settleAll table d passes).2.length =
      table.count none := by
  induction passes generalizing table with
  | nil => simp [settleAll]
  | cons pass rest ih =>
      unfold settleAll
      split
      · next h =>
          have hc := count_set_some h d
          have hr := ih (table.set pass (some d))
          simp only [List.length_cons]
          omega
      · exact ih table

@[simp] theorem length_settleAll (table : List (Option Nat)) (d : Nat) (passes : List Nat) :
    (settleAll table d passes).1.length = table.length := by
  induction passes generalizing table with
  | nil => rfl
  | cons pass rest ih =>
      unfold settleAll
      split
      · simp [ih]
      · exact ih table

namespace DependencyGraph

/-- Goes backwards from the passes of the queue until it is empty. -/
def searchBack (g : DependencyGraph) (table : List (Option Nat)) (queue : List Nat) :
    List (Option Nat) :=
  match queue with
  | [] => table
  | pass :: rest =>
      let met := settleAll table ((table.getD pass none).getD 0 + 1) (g.predecessorsOf pass)
      g.searchBack met.1 (rest ++ met.2)
termination_by table.count none + queue.length
decreasing_by
  have := settleAll_count table ((table.getD pass none).getD 0 + 1) (g.predecessorsOf pass)
  simp only [List.length_append, List.length_cons]
  omega

/-- The distance of every pass to the nearest target; a pass from which no path leads to a target
has none. -/
def distancesTo (g : DependencyGraph) (targets : List Nat) : List (Option Nat) :=
  let met := settleAll (List.replicate g.passCount none) 0 targets
  g.searchBack met.1 met.2

theorem length_searchBack (g : DependencyGraph) (table : List (Option Nat)) (queue : List Nat) :
    (g.searchBack table queue).length = table.length := by
  fun_induction searchBack g table queue with
  | case1 => rfl
  | case2 table pass rest met ih => simpa [met] using ih

@[simp] theorem length_distancesTo (g : DependencyGraph) (targets : List Nat) :
    (g.distancesTo targets).length = g.passCount := by
  simp [distancesTo, length_searchBack]

end DependencyGraph

end FrameGraph
