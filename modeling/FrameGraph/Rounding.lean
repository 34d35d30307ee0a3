/-!
# Rounding

The integer nearest to a quotient, and its decimal places.  A half goes to the even neighbour.
-/

set_option autoImplicit false

namespace FrameGraph

/-- The integer nearest to `n / d`; of two, the even one. -/
def roundDiv (n d : Nat) : Nat :=
  if 2 * (n % d) < d then n / d
  else if d < 2 * (n % d) then n / d + 1
  else n / d + n / d % 2

/-- A quotient with one decimal place. -/
def oneDecimal (n d : Nat) : String :=
  let tenths := roundDiv (10 * n) d
  s!"{tenths / 10}.{tenths % 10}"

end FrameGraph
