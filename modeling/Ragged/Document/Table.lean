import Ragged.Entries
import Ragged.Number.Binary

/-!
# Tables of settings

The content of a document of settings is a tree. A table in it is put together from what stands in
many places of the document, and how it came about decides what may still be added: `define` enters
a value under a dotted key, `openTable` a table that has its own header. Both answer nothing where
the path is taken, and neither ever changes a value that is there.
-/

set_option autoImplicit false

namespace Ragged

/-- How a table came about. -/
inductive Origin where
  /-- It has a header of its own. -/
  | header
  /-- A header names a table within it. -/
  | implied
  /-- A dotted key names something within it. -/
  | dotted
  /-- It was written out as a value, and is closed. -/
  | inline
deriving DecidableEq, Repr, Inhabited

/-- The value of a setting. -/
inductive Setting where
  | text (s : String)
  | integer (i : Int)
  | float (x : Binary64)
  | array (items : List Setting)
  | table (origin : Origin) (entries : List (String × Setting))
deriving Repr, Inhabited

namespace Setting

abbrev Table := List (String × Setting)

/-- Enters a value under a dotted key. The tables on the way are those of dotted keys only; others
have a place of their own where they are filled. -/
def define (v : Setting) : List String → Table → Option Table
  | [], _ => none
  | [key], entries =>
    match Entries.get? entries key with
    | none => some (Entries.put entries key v)
    | some _ => none
  | key :: next :: path, entries =>
    match Entries.get? entries key with
    | none => do return Entries.put entries key (.table .dotted (← define v (next :: path) []))
    | some (.table .dotted inner) => do
      return Entries.put entries key (.table .dotted (← define v (next :: path) inner))
    | some _ => none

/-- Enters the table of a header. It may be there already if no more is known of it than that
another header names a table within it; of the tables on the way, only closed ones refuse. -/
def openTable : List String → Table → Option Table
  | [], _ => none
  | [key], entries =>
    match Entries.get? entries key with
    | none => some (Entries.put entries key (.table .header []))
    | some (.table .implied inner) => some (Entries.put entries key (.table .header inner))
    | some _ => none
  | key :: next :: path, entries =>
    match Entries.get? entries key with
    | none => do return Entries.put entries key (.table .implied (← openTable (next :: path) []))
    | some (.table .inline _) => none
    | some (.table origin inner) => do
      return Entries.put entries key (.table origin (← openTable (next :: path) inner))
    | some _ => none

/-- Changes the entries of the table at a path. -/
def within (change : Table → Option Table) : List String → Table → Option Table
  | [], entries => change entries
  | key :: path, entries =>
    match Entries.get? entries key with
    | some (.table origin inner) => do
      return Entries.put entries key (.table origin (← within change path inner))
    | _ => none

/-- The name a value stands for where one of several is wanted: its text, or the key of the only
entry of a table, if nothing is in that entry. -/
def choice? : Setting → Option String
  | .text s => some s
  | .table _ [(key, .array [])] => some key
  | .table _ [(key, .table _ [])] => some key
  | _ => none

end Setting

end Ragged
