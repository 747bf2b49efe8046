import NoteQuery.Value.Json

/-!
# Tables

The answer to a query, written with pipes or as JSON.
-/

namespace NoteQuery

set_option autoImplicit false

structure Table where
  headers : List String
  rows : List (List String)
  deriving DecidableEq

namespace Table

def rowText (cells : List String) : String := "| " ++ " | ".intercalate cells ++ " |"

/-- A line of headers, a line of dividers, and a line for each row. -/
def markdown (t : Table) : String :=
  "\n".intercalate (rowText t.headers :: rowText (t.headers.map fun _ => "---") :: t.rows.map rowText)

def stringArray (indent : Nat) (items : List String) : List Char :=
  Json.indentedArray indent (items.map fun s => Json.quoted s.toList)

def json (t : Table) : String :=
  String.ofList ("\x7b\n  \"headers\": ".toList ++ stringArray 2 t.headers ++
    ",\n  \"rows\": ".toList ++ Json.indentedArray 2 (t.rows.map (stringArray 4)) ++
    "\n\x7d".toList)

end Table

end NoteQuery
