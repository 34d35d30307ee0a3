/-!
# Totals

The total of a list of numbers, as a bound on loops and as the number that a checked sum has to
reach.

Principal statement: `totalOf_set` — what setting one of the numbers does to the total.
-/

set_option autoImplicit false

namespace FrameGraph

/-- The total of a list of numbers. -/
def totalOf : List Nat → Nat
  | [] => 0
  | n :: rest => n + totalOf rest

@[simp] theorem totalOf_nil : totalOf [] = 0 := rfl

@[simp] theorem totalOf_cons (n : Nat) (rest : List Nat) :
    totalOf (n :: rest) = n + totalOf rest := rfl

/-- Replacing a number `a` by `b` changes the total by their difference. -/
theorem totalOf_set {l : List Nat} {i a : Nat} (h : l[i]? = some a) (b : Nat) :
    totalOf (l.set i b) + a = totalOf l + b := by
  induction l generalizing i with
  | nil => simp at h
  | cons n rest ih =>
      cases i with
      | zero =>
          simp only [List.getElem?_cons_zero, Option.some.injEq] at h
          simp only [List.set_cons_zero, totalOf_cons]
          omega
      | succ i =>
          simp only [List.getElem?_cons_succ] at h
          simp only [List.set_cons_succ, totalOf_cons]
          have := ih h
          omega

end FrameGraph
