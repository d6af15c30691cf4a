import JavaSynth.Data.Value

set_option autoImplicit false

/-!
# Tables of TOML

A text names tables by headers, by dotted keys and by the way to either, and it matters which: a
table that a header opened takes no dotted key, and one that dotted keys made takes no header.
A list of tables stands for its last table wherever a path leads on through it.
-/
namespace JavaSynth.Toml

inductive Origin where
  /-- By a header of its own. -/
  | header
  /-- On the way to a header. -/
  | implied
  /-- By a dotted key. -/
  | dotted
  deriving DecidableEq

inductive Node where
  | value (v : Value)
  | table (origin : Origin) (entries : List (String × Node))
  | tables (earlier : List (List (String × Node))) (last : List (String × Node))

abbrev Entries := List (String × Node)

namespace Entries

def find? (key : String) (entries : Entries) : Option Node :=
  (List.find? (·.1 == key) entries).map (·.2)

/-- Puts a node in the place of the one under the key, or adds it. -/
def put (key : String) (node : Node) : Entries → Entries
  | [] => [(key, node)]
  | (k, old) :: rest => if k == key then (k, node) :: rest else (k, old) :: put key node rest

/-- Adds a value under a key that is free, in the table that a path of dotted keys leads to.
A path that ends at a table of another origin is refused. -/
def addPair (key : String) (v : Value) : List String → Entries → Option Entries
  | [], entries =>
    match find? key entries with
    | some _ => none
    | none => some (put key (.value v) entries)
  | part :: path, entries =>
    match find? part entries with
    | none => do
      let sub ← addPair key v path []
      some (put part (.table .dotted sub) entries)
    | some (.table .dotted sub) => do
      let sub ← addPair key v path sub
      some (put part (.table .dotted sub) entries)
    | some (.table .implied sub) =>
      if path.isEmpty then none else do
        let sub ← addPair key v path sub
        some (put part (.table .implied sub) entries)
    | some (.tables earlier last) =>
      if path.isEmpty then none else do
        let last ← addPair key v path last
        some (put part (.tables earlier last) entries)
    | some (.table .header _) | some (.value _) => none

/-- Changes the table that the path of a header leads to. -/
def change (f : Entries → Option Entries) : List String → Entries → Option Entries
  | [], entries => f entries
  | part :: path, entries =>
    match find? part entries with
    | none => do
      let sub ← change f path []
      some (put part (.table .implied sub) entries)
    | some (.table origin sub) => do
      let sub ← change f path sub
      some (put part (.table origin sub) entries)
    | some (.tables earlier last) => do
      let last ← change f path last
      some (put part (.tables earlier last) entries)
    | some (.value _) => none

/-- A header opens a table once, and never one that dotted keys made. -/
def openTable (key : String) (entries : Entries) : Option Entries :=
  match find? key entries with
  | none => some (put key (.table .header []) entries)
  | some (.table .implied sub) => some (put key (.table .header sub) entries)
  | _ => none

/-- A header in double brackets adds a table to a list. -/
def openElement (key : String) (entries : Entries) : Option Entries :=
  match find? key entries with
  | none => some (put key (.tables [] []) entries)
  | some (.tables earlier last) => some (put key (.tables (earlier ++ [last]) []) entries)
  | _ => none

end Entries

mutual

def Node.toValue : Node → Value
  | .value v => v
  | .table _ entries => .object (entriesToPairs entries)
  | .tables earlier last => .array (tablesToValues earlier ++ [.object (entriesToPairs last)])

def entriesToPairs : List (String × Node) → List (String × Value)
  | [] => []
  | (key, node) :: rest => (key, node.toValue) :: entriesToPairs rest

def tablesToValues : List (List (String × Node)) → List Value
  | [] => []
  | entries :: rest => .object (entriesToPairs entries) :: tablesToValues rest

end

inductive Line where
  | table (path : List String) (key : String)
  | element (path : List String) (key : String)
  | pair (path : List String) (key : String) (v : Value)

/-- The tables so far, and the path of the one that pairs are added to. -/
structure Document where
  root : Entries := []
  current : List String := []

def Document.add (d : Document) : Line → Option Document
  | .table path key => do
    let root ← Entries.change (Entries.openTable key) path d.root
    some { root, current := path ++ [key] }
  | .element path key => do
    let root ← Entries.change (Entries.openElement key) path d.root
    some { root, current := path ++ [key] }
  | .pair path key v => do
    let root ← Entries.change (Entries.addPair key v path) d.current d.root
    some { d with root }

def ofLines (lines : List Line) : Option Value := do
  let d ← lines.foldlM Document.add {}
  some (.object (entriesToPairs d.root))

end JavaSynth.Toml
