import FrameGraph.Toml.Reader

/-!
# Strings and keys

A string stands in double quotes, with escapes, or in single quotes, without; three quotes allow
it to run over several lines.  A key is a bare word or a string of one line, and dots join keys to
a path.
-/

set_option autoImplicit false

namespace FrameGraph.Toml

/-- Reads the character that `count` hexadecimal digits stand for. -/
def hexChar (count : Nat) : Reader Char := fun text =>
  let digits := text.take count
  let code := ofDigits 16 digits
  if digits.length = count && digits.all isHexDigit && code.isValidChar then
    some (Char.ofNat code, text.drop count)
  else none

/-- Reads an escaped character. -/
def escape : Reader Char
  | '\\' :: 'b' :: rest => some ('\x08', rest)
  | '\\' :: 'f' :: rest => some ('\x0c', rest)
  | '\\' :: 'n' :: rest => some ('\n', rest)
  | '\\' :: 'r' :: rest => some ('\r', rest)
  | '\\' :: 't' :: rest => some ('\t', rest)
  | '\\' :: '"' :: rest => some ('"', rest)
  | '\\' :: '\\' :: rest => some ('\\', rest)
  | '\\' :: 'u' :: rest => hexChar 4 rest
  | '\\' :: 'U' :: rest => hexChar 8 rest
  | _ => none

/-- Reads a character between double quotes that stands for itself. -/
def basicChar : Reader Char := charWhere fun c => isPlain c && c ≠ '"' && c ≠ '\\'

/-- Reads a character between single quotes. -/
def literalChar : Reader Char := charWhere fun c => isPlain c && c ≠ '\''

/-- Reads a string in double quotes. -/
def basicString : Reader String
  | '"' :: text =>
      match many (fun text => basicChar text <|> escape text) text with
      | (chars, '"' :: rest) => some (String.ofList chars, rest)
      | _ => none
  | _ => none

/-- Reads a string in single quotes. -/
def literalString : Reader String
  | '\'' :: text =>
      match many literalChar text with
      | (chars, '\'' :: rest) => some (String.ofList chars, rest)
      | _ => none
  | _ => none

/-! ## Strings of several lines -/

/-- The number of quotes at the front of a text. -/
def quoteCount (quote : Char) (text : List Char) : Nat := (text.takeWhile (· = quote)).length

/-- Reads one or two quotes that do not end the string. -/
def innerQuotes (quote : Char) : Reader (List Char) := fun text =>
  let count := quoteCount quote text
  if count = 1 || count = 2 then some (text.take count, text.drop count) else none

/-- Reads the quotes at the end of a string: three, and up to two that belong to the string. -/
def closingQuotes (quote : Char) : Reader (List Char) := fun text =>
  let count := quoteCount quote text
  if count < 3 then none
  else
    let extra := min (count - 3) 2
    some (text.take extra, text.drop (extra + 3))

/-- Reads an end of line within a string. -/
def innerNewline : Reader (List Char) := fun text =>
  (newline text).map fun (_, rest) => (['\n'], rest)

/-- Reads an escaped end of line, with all blanks and ends of lines behind it.  It stands for
nothing. -/
def escapedNewline : Reader (List Char)
  | '\\' :: text =>
      match newline (skipBlanks text) with
      | some (_, rest) =>
          let (_, rest) := many (fun text =>
            (charWhere isBlank text).map (fun (_, rest) => ((), rest)) <|> newline text) rest
          some ([], rest)
      | none => none
  | _ => none

/-- Reads a string of several lines between triple quotes. -/
def multiline (quote : Char) (piece : Reader (List Char)) : Reader String := fun text =>
  match word [quote, quote, quote] text with
  | none => none
  | some (_, text) =>
      let text := ((newline text).map (·.2)).getD text
      let (pieces, text) := many piece text
      match closingQuotes quote text with
      | none => none
      | some (extra, rest) => some (String.ofList (pieces.flatten ++ extra), rest)

/-- Reads a piece of a string between three double quotes. -/
def basicPiece : Reader (List Char) := fun text =>
  (basicChar text).map (fun (c, rest) => ([c], rest)) <|> escapedNewline text <|>
    (escape text).map (fun (c, rest) => ([c], rest)) <|> innerNewline text <|>
    innerQuotes '"' text

/-- Reads a piece of a string between three single quotes. -/
def literalPiece : Reader (List Char) := fun text =>
  (literalChar text).map (fun (c, rest) => ([c], rest)) <|> innerNewline text <|>
    innerQuotes '\'' text

/-- Reads a string of any form. -/
def string : Reader String := fun text =>
  match text with
  | '"' :: '"' :: '"' :: _ => multiline '"' basicPiece text
  | '"' :: _ => basicString text
  | '\'' :: '\'' :: '\'' :: _ => multiline '\'' literalPiece text
  | _ => literalString text

/-! ## Keys -/

/-- Characters of a bare key. -/
def isBareKeyChar (c : Char) : Bool := c.isAlphanum || c = '_' || c = '-'

/-- Reads one key. -/
def simpleKey : Reader String := fun text =>
  match text with
  | '"' :: _ => basicString text
  | '\'' :: _ => literalString text
  | _ =>
      let (chars, rest) := many (charWhere isBareKeyChar) text
      if chars.isEmpty then none else some (String.ofList chars, rest)

/-- Reads one key with blanks around it. -/
def spacedKey : Reader String := fun text =>
  (simpleKey (skipBlanks text)).map fun (key, rest) => (key, skipBlanks rest)

/-- The number of parts that a path does not reach. -/
def keyLimit : Nat := 80

/-- Reads a path of keys: the first one and the others. -/
def keyPath : Reader (String × List String) := fun text =>
  match spacedKey text with
  | none => none
  | some (first, text) =>
      let (others, rest) := many (fun text =>
        match text with
        | '.' :: text => spacedKey text
        | _ => none) text
      if others.length + 1 < keyLimit then some ((first, others), rest) else none

end FrameGraph.Toml
