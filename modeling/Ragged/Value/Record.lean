import Ragged.Error
import Ragged.Type.Printer
import Ragged.Value.Basic

/-!
# Values as records

A sequence or a lazy source is a record of a struct by position: it must have just as many elements
as the struct has fields, and the i-th element goes to the i-th field. A mapping is one by name: its
keys must be the field names, in whatever order. Either way `recordFields` gives one value to each
field, in declared order, and `withRecordFields` puts changed values back where they came from.

Of a lazy source one element more than there are fields is looked ahead to, no more; the elements
stay in its queue.
-/

set_option autoImplicit false

namespace Ragged

namespace Value

/-- The value of each field, by name; of fields with one name only the first has a value. -/
def namedFields (fields : Struct) (entries : List (String × Value)) :
    (index : Nat) → List Field → Except BuildError (List Value)
  | _, [] => .ok []
  | i, f :: rest =>
    match Entries.get? entries f.name with
    | some v =>
      if fields.indexOf? f.name = some i then do
        return v :: (← namedFields fields entries (i + 1) rest)
      else .error (.missingField f.name fields.render)
    | none => .error (.missingField f.name fields.render)

/-- The values of a record's fields in declared order, and the value as it is after it was looked
at. -/
def recordFields (fields : Struct) (v : Value) : Value × Except BuildError (List Value) :=
  let expected := fields.length
  match v with
  | .list items | .tuple items =>
    (v, if items.length = expected then .ok items
      else .error (.fieldCount fields.render expected (.exactly items.length)))
  | .iter source =>
    let source := source.fill (expected + 1)
    (.iter source,
      if expected < source.buffered then
        .error (.fieldCount fields.render expected (.atLeast source.buffered))
      else if source.buffered < expected then
        .error (.fieldCount fields.render expected (.exactly source.buffered))
      else .ok source.replay)
  | .dict entries =>
    (v, match (Entries.keys entries).find? (fun key => (fields.indexOf? key).isNone) with
      | some key => .error (.undeclaredField key fields.render)
      | none => namedFields fields entries 0 fields)
  | .atom a => (v, .error (.type (.scalarAsRecord fields.render a.typeName)))

/-- A record with other values for its fields. -/
def withRecordFields (fields : Struct) (v : Value) (values : List Value) : Value :=
  match v with
  | .list _ => .list values
  | .tuple _ => .tuple values
  | .iter source => .iter { source with replay := values }
  | .dict entries =>
    .dict (entries.map fun (key, old) =>
      (key, ((fields.indexOf? key).bind (values[·]?)).getD old))
  | .atom a => .atom a

end Value

end Ragged
