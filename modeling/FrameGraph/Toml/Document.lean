import FrameGraph.Toml.Moment
import FrameGraph.Toml.Node
import FrameGraph.Toml.Number
import FrameGraph.Toml.Text

/-!
# Configuration texts

A configuration text consists of lines: keys with values, and headers, under which the keys of the
following lines belong.  `Entries.ofText?` reads a whole text, and answers nothing if it is not
well-formed.
-/

set_option autoImplicit false

namespace FrameGraph.Toml

/-! ## Values -/

/-- Reads a truth value. -/
def boolean : Reader Bool := fun text =>
  (word ['t', 'r', 'u', 'e'] text).map (fun (_, rest) => (true, rest)) <|>
    (word ['f', 'a', 'l', 's', 'e'] text).map fun (_, rest) => (false, rest)

/-- Reads a value that contains no others. -/
def scalar : Reader Node := fun text =>
  (string text).map (fun (s, rest) => (.string s, rest)) <|>
    (moment text).map (fun (s, rest) => (.moment s, rest)) <|>
    (float text).map (fun (s, rest) => (.float s, rest)) <|>
    (integer text).map (fun (i, rest) => (.integer i, rest)) <|>
    (boolean text).map fun (b, rest) => (.boolean b, rest)

/-- Reads the items of an array behind its opening bracket.  Every item but the last is followed by
a comma, and the last one may be. -/
def arrayItems (item : Reader Node) : (fuel : Nat) → Reader (List Node)
  | 0, _ => none
  | fuel + 1, text =>
      match skipSpace false text with
      | none => none
      | some (']' :: rest) => some ([], rest)
      | some text =>
          match item text with
          | none => none
          | some (first, text) =>
              match skipSpace false text with
              | some (']' :: rest) => some ([first], rest)
              | some (',' :: rest) =>
                  (arrayItems item fuel rest).map fun (others, rest) => (first :: others, rest)
              | _ => none

/-- A path of keys and the value under it. -/
structure Assignment where
  first : String
  others : List String
  value : Node

/-- Adds a value under its path of keys. -/
def Assignment.addTo (a : Assignment) (entries : Entries) : Option Entries :=
  match (a.first :: a.others).reverse with
  | [] => none
  | last :: path => entries.insertAt true path.reverse last a.value

/-- Adds assignments in order. -/
def fill (assignments : List Assignment) (entries : Entries) : Option Entries :=
  assignments.foldlM (fun (entries : Entries) (a : Assignment) => a.addTo entries) entries

/-- Reads a path of keys, an equals sign and a value. -/
def assignment (value : Reader Node) : Reader Assignment := fun text =>
  match keyPath text with
  | some ((first, others), '=' :: text) =>
      (value (skipBlanks text)).map fun (node, rest) => (⟨first, others, node⟩, rest)
  | _ => none

/-- Reads the assignments of a table in braces, at least one, up to the closing brace. -/
def inlineAssignments (value : Reader Node) : (fuel : Nat) → Reader (List Assignment)
  | 0, _ => none
  | fuel + 1, text =>
      match assignment value text with
      | none => none
      | some (first, text) =>
          match skipBlanks text with
          | '\x7d' :: rest => some ([first], rest)
          | ',' :: rest =>
              (inlineAssignments value fuel rest).map fun (others, rest) =>
                (first :: others, rest)
          | _ => none

/-- Reads a table in braces behind its opening brace. -/
def inlineTable (value : Reader Node) : Reader Node := fun text =>
  match skipBlanks text with
  | '\x7d' :: rest => some (.table .closed [], rest)
  | _ =>
      match inlineAssignments value text.length text with
      | none => none
      | some (assignments, rest) =>
          (fill assignments []).map fun entries => (.table .closed entries, rest)

/-- Reads a value with up to `depth` arrays and tables inside each other. -/
def value : (depth : Nat) → Reader Node
  | 0 => scalar
  | depth + 1 => fun text =>
      match text with
      | '[' :: rest =>
          (arrayItems (value depth) rest.length rest).map fun (items, rest) =>
            (.array items, rest)
      | '\x7b' :: rest => inlineTable (value depth) rest
      | _ => scalar text

/-- How many arrays and tables may be inside each other. -/
def depthLimit : Nat := 79

/-! ## Lines -/

/-- A line that is not empty: a header or an assignment. -/
inductive Line where
  | header (isList : Bool) (first : String) (others : List String)
  | assignment (a : Assignment)

/-- Reads a header behind its opening brackets. -/
def header (isList : Bool) (text : List Char) : Option (Line × List Char) := do
  let ((first, others), text) ← keyPath text
  let (_, text) ← word (if isList then [']', ']'] else [']']) text
  return (.header isList first others, text)

/-- Reads the content of a line. -/
def line : Reader Line := fun text =>
  match text with
  | '[' :: '[' :: text => header true text
  | '[' :: text => header false text
  | _ => (assignment (value depthLimit) text).map fun (a, rest) => (.assignment a, rest)

/-- Reads all lines of a text. -/
def lines : (fuel : Nat) → List Char → Option (List Line)
  | 0, _ => none
  | fuel + 1, text =>
      match skipBlanks text with
      | [] => some []
      | '#' :: _ | '\n' :: _ | '\r' :: _ =>
          match restOfLine text with
          | none => none
          | some rest => lines fuel rest
      | text =>
          match line text with
          | none => none
          | some (content, text) =>
              match restOfLine text with
              | none => none
              | some rest => (lines fuel rest).map (content :: ·)

/-! ## Sections -/

/-- The assignments at the front of some lines, and the lines behind them. -/
def takeAssignments : List Line → List Assignment × List Line
  | .assignment a :: rest =>
      let (assignments, rest) := takeAssignments rest
      (a :: assignments, rest)
  | lines => ([], lines)

theorem length_takeAssignments_le (lines : List Line) :
    (takeAssignments lines).2.length ≤ lines.length := by
  induction lines with
  | nil => simp [takeAssignments]
  | cons line rest ih =>
      cases line with
      | header => simp [takeAssignments]
      | assignment a => simp only [takeAssignments, List.length_cons]; omega

/-- Adds the section with a given header. -/
def addSection (isList : Bool) (path : List String) (assignments : List Assignment)
    (entries : Entries) : Option Entries :=
  match path.reverse with
  | [] => none
  | last :: parents =>
      let change :=
        if isList then Entries.appendTable last (fill assignments)
        else Entries.fillTable last (fill assignments)
      entries.modifyAt change parents.reverse

/-- Adds sections in order. -/
def addSections (entries : Entries) : List Line → Option Entries
  | [] => some entries
  | .assignment _ :: _ => none
  | .header isList first others :: rest =>
      match addSection isList (first :: others) (takeAssignments rest).1 entries with
      | none => none
      | some entries => addSections entries (takeAssignments rest).2
termination_by lines => lines.length
decreasing_by
  have := length_takeAssignments_le rest
  simp only [List.length_cons]
  omega

/-- The text behind a byte order mark, if there is one. -/
def skipByteOrderMark : List Char → List Char
  | '\ufeff' :: rest => rest
  | text => text

/-- The table that a configuration text describes. -/
def Entries.ofText? (text : String) : Option Entries := do
  let chars := skipByteOrderMark text.toList
  let all ← lines (chars.length + 1) chars
  let (assignments, sections) := takeAssignments all
  let entries ← fill assignments []
  addSections entries sections

end FrameGraph.Toml
