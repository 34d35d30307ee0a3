/-!
# Reading text

A reader takes what it reads from the front of a text and answers the rest, or nothing if the text
does not begin with what it reads.
-/

set_option autoImplicit false

namespace FrameGraph.Toml

/-- Reads a value from the front of a text and answers the rest of it. -/
abbrev Reader (α : Type) := List Char → Option (α × List Char)

/-- Reads as many values as there are.  A value that takes up no text ends the reading. -/
def many {α : Type} (read : Reader α) (text : List Char) : List α × List Char :=
  match read text with
  | none => ([], text)
  | some (a, rest) =>
      if rest.length < text.length then (a :: (many read rest).1, (many read rest).2)
      else ([], text)
termination_by text.length

/-- Reads one character of a class. -/
def charWhere (p : Char → Bool) : Reader Char
  | c :: rest => if p c then some (c, rest) else none
  | [] => none

/-- Reads a given word. -/
def word (expected : List Char) : Reader Unit := fun text =>
  if expected.isPrefixOf text then some ((), text.drop expected.length) else none

/-- What a reader has read of a text, given the rest. -/
def consumed (text rest : List Char) : String :=
  String.ofList (text.take (text.length - rest.length))

/-! ## Characters -/

/-- Blanks within a line. -/
def isBlank (c : Char) : Bool := c = ' ' || c = '\t'

/-- Characters that may stand in a comment or a string as they are: no control characters but the
tabulator. -/
def isPlain (c : Char) : Bool := c = '\t' || (' ' ≤ c && c ≤ '~') || c.val ≥ 0x80

def isBinaryDigit (c : Char) : Bool := c = '0' || c = '1'

def isOctalDigit (c : Char) : Bool := '0' ≤ c && c ≤ '7'

def isHexDigit (c : Char) : Bool :=
  c.isDigit || ('a' ≤ c && c ≤ 'f') || ('A' ≤ c && c ≤ 'F')

/-- The value of a digit of any base. -/
def digitValue (c : Char) : Nat :=
  if c.isDigit then c.toNat - '0'.toNat
  else if 'a' ≤ c then c.toNat - 'a'.toNat + 10
  else c.toNat - 'A'.toNat + 10

/-- The number that digits stand for. -/
def ofDigits (base : Nat) (digits : List Char) : Nat :=
  digits.foldl (fun n c => n * base + digitValue c) 0

/-! ## Blanks, comments and lines -/

/-- The text behind blanks. -/
def skipBlanks (text : List Char) : List Char := text.dropWhile isBlank

/-- Reads the end of a line. -/
def newline : Reader Unit
  | '\n' :: rest => some ((), rest)
  | '\r' :: '\n' :: rest => some ((), rest)
  | _ => none

/-- The text behind a comment, if there is one. -/
def skipComment : List Char → List Char
  | '#' :: rest => rest.dropWhile isPlain
  | text => text

/-- Reads what may stand behind the content of a line, and the end of the line. -/
def restOfLine (text : List Char) : Option (List Char) :=
  match skipComment (skipBlanks text) with
  | [] => some []
  | rest => (newline rest).map (·.2)

/-- The text behind blanks, comments and ends of lines. -/
def skipSpace (inComment : Bool) : List Char → Option (List Char)
  | [] => some []
  | '\n' :: rest => skipSpace false rest
  | '\r' :: '\n' :: rest => skipSpace false rest
  | c :: rest =>
      if inComment then if isPlain c then skipSpace true rest else none
      else if isBlank c then skipSpace false rest
      else if c = '#' then skipSpace true rest
      else some (c :: rest)

end FrameGraph.Toml
