/-!
# Maps that keep their order

A map from names is kept as the list of its entries, in the order in which the names first came. A
name that comes again keeps its place and takes the new value.
-/

set_option autoImplicit false

namespace Ragged

namespace Entries

variable {α : Type}

/-- Enters a value under a key: in place of the one already there, or behind all others. -/
def put (entries : List (String × α)) (key : String) (value : α) : List (String × α) :=
  match entries with
  | [] => [(key, value)]
  | (k, v) :: rest => if k = key then (k, value) :: rest else (k, v) :: put rest key value

def get? (entries : List (String × α)) (key : String) : Option α := entries.lookup key

def keys (entries : List (String × α)) : List String := entries.map Prod.fst

theorem get?_put (entries : List (String × α)) (key : String) (value : α) (k : String) :
    get? (put entries key value) k = if k = key then some value else get? entries k := by
  induction entries with
  | nil => simp [put, get?, List.lookup_cons]; grind
  | cons e rest ih =>
    obtain ⟨l, v⟩ := e
    simp only [put, get?] at *
    split
    · subst_vars; simp [List.lookup_cons]; grind
    · simp [List.lookup_cons]; grind

theorem keys_put (entries : List (String × α)) (key : String) (value : α) :
    keys (put entries key value)
      = if key ∈ keys entries then keys entries else keys entries ++ [key] := by
  induction entries with
  | nil => simp [put, keys]
  | cons e rest ih =>
    obtain ⟨l, v⟩ := e
    simp only [put, keys] at *
    grind

/-- The map in which some entries were entered one after the other. -/
def ofList (entries : List (String × α)) : List (String × α) :=
  entries.foldl (fun done (key, value) => put done key value) []

end Entries

end Ragged
