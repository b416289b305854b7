import Arborist.Toml.Value

/-!
# `Arborist.Toml.Document`: tables put together from their parts

A document gives the entries of its tables in pieces: under headers, under headers of tables inside
them, and by keys with dots. A table remembers how it came about, because that decides what may be
added to it:

* a header defines a table once; a table that so far only headers of inner tables have named may
  still get a header of its own;
* a key with dots adds to tables that such keys made, or that only headers of inner tables named on
  the way;
* a header with double brackets adds a table to an array of such tables, and a header or key that
  passes through the array means its last table.
-/

set_option autoImplicit false

namespace Arborist.Toml

/-- How a table came about. -/
inductive Origin where
  /-- By its own header, or as the document itself. -/
  | header
  /-- Named on the way by the header of an inner table. -/
  | passing
  /-- By a key with dots. -/
  | dotted
  deriving DecidableEq, Repr

/-- A part of a document that is still open to additions. -/
inductive Part where
  | value (value : Value)
  | table (origin : Origin) (entries : List (String × Part))
  /-- An array of tables under double brackets, last one first. -/
  | tables (reversed : List (List (String × Part)))
  deriving Repr, Inhabited

/-- The entries of an open table. -/
abbrev Entries := List (String × Part)

namespace Entries

def get? (entries : Entries) (key : String) : Option Part :=
  (entries.find? (·.1 = key)).map (·.2)

/-- The entries with a new value for a key. -/
def put (entries : Entries) (key : String) (part : Part) : Entries :=
  (key, part) :: entries.filter (·.1 ≠ key)

/-- Adds a value under a key, which may have dots. `own` says that the table is the one that the key
is relative to; any other has to be one that keys with dots made. -/
def define? (own : Bool) (origin : Origin) : (key : String) → (rest : List String) → Value →
    Entries → Option Entries
  | key, [], value, entries =>
    if own = (origin == .dotted) ∨ (entries.get? key).isSome then none
    else some (entries.put key (.value value))
  | key, next :: rest, value, entries =>
    match entries.get? key with
    | none => do
      return entries.put key (.table .dotted (← define? false .dotted next rest value []))
    | some (.table .header _) => none
    | some (.table origin inner) => do
      return entries.put key (.table origin (← define? false origin next rest value inner))
    | some (.tables (last :: before)) => do
      return entries.put key (.tables ((← define? false .header next rest value last) :: before))
    | some _ => none

/-- Opens the table of a header and changes its entries. -/
def openTable? (change : Entries → Option Entries) : (key : String) → (rest : List String) →
    Entries → Option Entries
  | key, [], entries =>
    match entries.get? key with
    | none => do return entries.put key (.table .header (← change []))
    | some (.table .passing inner) => do return entries.put key (.table .header (← change inner))
    | some _ => none
  | key, next :: rest, entries =>
    match entries.get? key with
    | none => do return entries.put key (.table .passing (← openTable? change next rest []))
    | some (.table origin inner) => do
      return entries.put key (.table origin (← openTable? change next rest inner))
    | some (.tables (last :: before)) => do
      return entries.put key (.tables ((← openTable? change next rest last) :: before))
    | some _ => none

/-- Adds a table to the array of a header with double brackets and gives it entries. -/
def addTable? (change : Entries → Option Entries) : (key : String) → (rest : List String) →
    Entries → Option Entries
  | key, [], entries =>
    match entries.get? key with
    | none => do return entries.put key (.tables [← change []])
    | some (.tables before) => do return entries.put key (.tables ((← change []) :: before))
    | some _ => none
  | key, next :: rest, entries =>
    match entries.get? key with
    | none => do return entries.put key (.table .passing (← addTable? change next rest []))
    | some (.table origin inner) => do
      return entries.put key (.table origin (← addTable? change next rest inner))
    | some (.tables (last :: before)) => do
      return entries.put key (.tables ((← addTable? change next rest last) :: before))
    | some _ => none

end Entries

mutual

/-- The value that a part has come to. -/
def Part.close : Part → Value
  | .value value => value
  | .table _ entries => .table (Value.sortEntries (closeEntries entries))
  | .tables reversed => .array (closeTables reversed).reverse

def closeEntries : List (String × Part) → List (String × Value)
  | [] => []
  | (key, part) :: rest => (key, part.close) :: closeEntries rest

def closeTables : List (List (String × Part)) → List Value
  | [] => []
  | entries :: rest => .table (Value.sortEntries (closeEntries entries)) :: closeTables rest

end

/-- A value under a key; a key with dots has several parts. -/
structure Assignment where
  key : String
  rest : List String
  value : Value

/-- Makes the assignments one after the other. -/
def assign? (assignments : List Assignment) (entries : Entries) : Option Entries :=
  assignments.foldlM (fun entries a => entries.define? true .header a.key a.rest a.value) entries

/-- The entries of a table in braces. -/
def inlineTable? (assignments : List Assignment) : Option Value :=
  (assign? assignments []).map fun entries =>
    .table (Value.sortEntries (closeEntries entries))

/-- A header and the assignments below it. -/
structure Block where
  /-- The header has double brackets. -/
  repeated : Bool
  key : String
  rest : List String
  assignments : List Assignment

/-- The document with these assignments at its front and these blocks behind them, as the entries
of a table. -/
def document? (front : List Assignment) (blocks : List Block) : Option (List (String × Value)) := do
  let entries ← assign? front []
  let entries ← blocks.foldlM (fun entries b =>
    if b.repeated then entries.addTable? (assign? b.assignments) b.key b.rest
    else entries.openTable? (assign? b.assignments) b.key b.rest) entries
  return Value.sortEntries (closeEntries entries)

end Arborist.Toml
