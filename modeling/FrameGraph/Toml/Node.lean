/-!
# Tables

The content of a configuration text: scalars, arrays and tables.  How a table came about decides
what may still be added to it.

* A table in braces is closed.
* A table with a header of its own is explicit; its header may not be repeated.
* A table that only serves as the way to a header is implied; it may get a header later.
* A table that a dotted key made is dotted; other dotted keys may add to it.
* A repeated header in double brackets makes a list of tables, and what follows adds to the last.
-/

set_option autoImplicit false

namespace FrameGraph.Toml

/-- How a table came about. -/
inductive TableSort where
  | closed
  | explicit
  | implied
  | dotted
  deriving DecidableEq, Repr

/-- A value of a configuration text. -/
inductive Node where
  | string (text : String)
  | integer (value : Int)
  | float (text : String)
  | boolean (value : Bool)
  | moment (text : String)
  | array (items : List Node)
  | table (sort : TableSort) (entries : List (String × Node))
  | tables (elements : List (List (String × Node)))
  deriving Inhabited

/-- The keys of a table with their values. -/
abbrev Entries := List (String × Node)

namespace Entries

/-- Gives a key that is there another value. -/
def replace (entries : Entries) (key : String) (node : Node) : Entries :=
  entries.map fun entry => if entry.1 = key then (key, node) else entry

/-- Gives a key a value, whether it is there or not. -/
def put (entries : Entries) (key : String) (node : Node) : Entries :=
  match entries.lookup key with
  | none => entries ++ [(key, node)]
  | some _ => entries.replace key node

/-- Changes the last table of a list. -/
def modifyLast (elements : List Entries) (f : Entries → Option Entries) : Option (List Entries) :=
  match elements.getLast? with
  | none => none
  | some last => (f last).map fun changed => elements.dropLast ++ [changed]

/-- Adds a value under a path of keys.  The tables on the way are made if they are missing; those
that are there must be open for dotted keys, and the last one must be dotted itself. -/
def insertAt (isOpen : Bool) (entries : Entries) : List String → String → Node → Option Entries
  | [], key, node =>
      if isOpen && (entries.lookup key).isNone then some (entries ++ [(key, node)]) else none
  | next :: path, key, node =>
      match entries.lookup next with
      | none => (insertAt true [] path key node).map fun t => entries.put next (.table .dotted t)
      | some (.table .dotted inner) =>
          (insertAt true inner path key node).map fun t => entries.put next (.table .dotted t)
      | some (.table .implied inner) =>
          (insertAt false inner path key node).map fun t => entries.put next (.table .implied t)
      | some (.tables elements) =>
          (modifyLast elements fun inner => insertAt false inner path key node).map fun ts =>
            entries.put next (.tables ts)
      | some _ => none

/-- Changes the table under a path of headers.  The tables on the way are implied if they are
missing, and must not be closed if they are there. -/
def modifyAt (f : Entries → Option Entries) (entries : Entries) : List String → Option Entries
  | [] => f entries
  | next :: path =>
      match entries.lookup next with
      | none => (modifyAt f [] path).map fun t => entries.put next (.table .implied t)
      | some (.table .closed _) => none
      | some (.table sort inner) =>
          (modifyAt f inner path).map fun t => entries.put next (.table sort t)
      | some (.tables elements) =>
          (modifyLast elements fun inner => modifyAt f inner path).map fun ts =>
            entries.put next (.tables ts)
      | some _ => none

/-- Fills the table with a given header: a new one, or one that was only implied. -/
def fillTable (key : String) (fill : Entries → Option Entries) (entries : Entries) :
    Option Entries :=
  match entries.lookup key with
  | none => (fill []).map fun t => entries.put key (.table .explicit t)
  | some (.table .implied inner) =>
      (fill inner).map fun t => entries.put key (.table .explicit t)
  | some _ => none

/-- Appends a table to the list with a given header. -/
def appendTable (key : String) (fill : Entries → Option Entries) (entries : Entries) :
    Option Entries :=
  match entries.lookup key with
  | none => (fill []).map fun t => entries.put key (.tables [t])
  | some (.tables elements) =>
      (fill []).map fun t => entries.put key (.tables (elements ++ [t]))
  | some _ => none

end Entries

end FrameGraph.Toml
