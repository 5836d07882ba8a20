import ImagePipeline.Config.Value

/-!
# Trees of tables under construction

While a document is read, tables are still open to additions. A table may be added to by a header
or by dotted keys, but not by both, and no table or key is defined twice; a table that only lies on
the way to another one may still be defined once. The two ways to walk down a path are therefore
kept apart (`Way`).
-/

namespace ImagePipeline.Toml

open Config (Value)

inductive Node where
  | value (v : Value)
  /-- A table; `defined` tells whether it has been defined itself, `dotted` whether it was made
  for dotted keys. -/
  | table (defined dotted : Bool) (entries : List (String × Node))
  /-- An array of tables, the last one in front. -/
  | tables (last : List (String × Node)) (before : List (List (String × Node)))

abbrev Branch := List (String × Node)

/-- How a path is walked: by the keys of a header, or by dotted keys. -/
inductive Way where
  | header
  | dotted
  deriving DecidableEq

namespace Branch

/-- The entries with another node under a key; a key that is not there is added at the end. -/
def put (key : String) (node : Node) : Branch → Branch
  | [] => [(key, node)]
  | e :: rest => if e.1 = key then (key, node) :: rest else e :: put key node rest

/-- Changes the table at the end of a path, making the tables on the way. The change is told
whether the table was made for dotted keys. -/
def update (way : Way) (change : Bool → Branch → Option Branch) :
    List String → Bool → Branch → Option Branch
  | [], isDotted, branch => change isDotted branch
  | key :: path, _, branch => do
    let node ← match branch.lookup key with
      | none => (update way change path (way == .dotted) []).map fun inner =>
          Node.table false (way == .dotted) inner
      | some (.value _) => none
      | some (.table defined isDotted inner) =>
        if way = .dotted ∧ defined then none
        else (update way change path isDotted inner).map fun inner =>
          Node.table defined isDotted inner
      | some (.tables last before) =>
        (update way change path false last).map fun last => Node.tables last before
    return branch.put key node

/-- Defines a table under a key: a new one, or one that so far only lay on the way to others. -/
def define (key : String) (branch : Branch) : Option Branch :=
  match branch.lookup key with
  | none => some (branch.put key (.table true false []))
  | some (.table false false inner) => some (branch.put key (.table true false inner))
  | some _ => none

def extend (key : String) (branch : Branch) : Option Branch :=
  match branch.lookup key with
  | none => some (branch.put key (.tables [] []))
  | some (.tables last before) => some (branch.put key (.tables [] (last :: before)))
  | some _ => none

def assign (key : String) (v : Value) (branch : Branch) : Option Branch :=
  match branch.lookup key with
  | none => some (branch.put key (.value v))
  | some _ => none

/-- Gives a value to a new key at the end of a path of dotted keys, which has to end in a table
made for dotted keys. -/
def assignAt (path : List String) (key : String) (v : Value) (branch : Branch) : Option Branch :=
  branch.update .dotted (fun isDotted inner =>
    if path.isEmpty || isDotted then inner.assign key v else none) path false

end Branch

mutual

def Node.toValue : Node → Value
  | .value v => v
  | .table _ _ entries => .table (entriesToValue entries)
  | .tables last before => .array (tablesToValue before [.table (entriesToValue last)])

def entriesToValue : Branch → Config.Entries
  | [] => []
  | (key, node) :: rest => (key, node.toValue) :: entriesToValue rest

def tablesToValue : List Branch → List Value → List Value
  | [], done => done
  | branch :: before, done => tablesToValue before (.table (entriesToValue branch) :: done)

end

end ImagePipeline.Toml
