import FrameGraph.Toml.Reader

/-!
# Numbers

Integers have 64 bits and are written in decimal, hexadecimal, octal or binary; single underscores
may stand between digits.  A decimal number with a fraction or an exponent is a float, and so are
the infinities and the undefined value.
-/

set_option autoImplicit false

namespace FrameGraph.Toml

/-- Reads a digit behind an underscore. -/
def groupedDigit (isDigit : Char → Bool) : Reader Char
  | '_' :: text => charWhere isDigit text
  | _ => none

/-- Reads digits, the first of which is there; single underscores may stand between them. -/
def digitRun (isDigit : Char → Bool) : Reader (List Char) := fun text =>
  (charWhere isDigit text).map fun (first, rest) =>
    let (others, rest) :=
      many (fun text => charWhere isDigit text <|> groupedDigit isDigit text) rest
    (first :: others, rest)

/-- Reads a sign; holds if it is a minus. -/
def sign : List Char → Bool × List Char
  | '-' :: rest => (true, rest)
  | '+' :: rest => (false, rest)
  | text => (false, text)

/-- Reads a decimal number without leading zeros: whether it is negative, and its digits. -/
def decimal : Reader (Bool × List Char) := fun text =>
  let (negative, text) := sign text
  match text with
  | '0' :: rest => some ((negative, ['0']), rest)
  | _ => (digitRun Char.isDigit text).map fun (digits, rest) => ((negative, digits), rest)

/-- The number, if it is an integer of 64 bits. -/
def integer64 (i : Int) : Option Int :=
  if -0x8000000000000000 ≤ i ∧ i < 0x8000000000000000 then some i else none

/-- Reads a number with a base of its own. -/
def based (base : Nat) (isDigit : Char → Bool) (text : List Char) : Option (Int × List Char) :=
  match digitRun isDigit text with
  | none => none
  | some (digits, rest) => (integer64 (ofDigits base digits)).map fun i => (i, rest)

/-- Reads an integer. -/
def integer : Reader Int
  | '0' :: 'x' :: text => based 16 isHexDigit text
  | '0' :: 'o' :: text => based 8 isOctalDigit text
  | '0' :: 'b' :: text => based 2 isBinaryDigit text
  | text =>
      match decimal text with
      | none => none
      | some ((negative, digits), rest) =>
          let magnitude : Int := ofDigits 10 digits
          (integer64 (if negative then -magnitude else magnitude)).map fun i => (i, rest)

/-! ## Floats -/

/-- Reads a fraction. -/
def fraction : Reader (List Char)
  | '.' :: text => digitRun Char.isDigit text
  | _ => none

/-- Reads an exponent. -/
def exponent : Reader Int
  | c :: text =>
      if c = 'e' || c = 'E' then
        let (negative, text) := sign text
        (digitRun Char.isDigit text).map fun (digits, rest) =>
          let magnitude : Int := ofDigits 10 digits
          (if negative then -magnitude else magnitude, rest)
      else none
  | [] => none

/-- The least number that is nearer to infinity than to the largest double-precision number. -/
def infinityThreshold : Nat := 0x3FFFFFFFFFFFFF <<< 970

/-- Holds if the digits, with the point `scale` places behind them, stand for a number that rounds
to infinity.  Only numbers of about 309 digits need a closer look. -/
def roundsToInfinity (digits : List Char) (scale : Int) : Bool :=
  let significant := digits.dropWhile (· = '0')
  let places : Int := significant.length + scale
  if significant.isEmpty || places < 300 then false
  else if places > 320 then true
  else
    let n := ofDigits 10 significant
    if scale ≥ 0 then infinityThreshold ≤ n * Nat.pow 10 scale.toNat
    else infinityThreshold * Nat.pow 10 (-scale).toNat ≤ n

/-- Reads a float in digits.  A positive number that is too large is none. -/
def decimalFloat (text : List Char) : Option (List Char) :=
  match decimal text with
  | none => none
  | some ((negative, whole), text) =>
      let finish (places : List Char) (power : Int) (rest : List Char) : Option (List Char) :=
        if !negative && roundsToInfinity (whole ++ places) (power - places.length) then none
        else some rest
      match exponent text, fraction text with
      | some (power, rest), _ => finish [] power rest
      | none, some (places, text) =>
          match exponent text with
          | some (power, rest) => finish places power rest
          | none => finish places 0 text
      | none, none => none

/-- Reads an infinity or the undefined value. -/
def specialFloat (text : List Char) : Option (List Char) :=
  let (_, text) := sign text
  ((word ['i', 'n', 'f'] text).map (·.2)) <|> ((word ['n', 'a', 'n'] text).map (·.2))

/-- Reads a float and answers its text. -/
def float : Reader String := fun text =>
  (decimalFloat text <|> specialFloat text).map fun rest => (consumed text rest, rest)

end FrameGraph.Toml
