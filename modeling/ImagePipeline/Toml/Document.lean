import ImagePipeline.Toml.Quoted
import ImagePipeline.Toml.Scalar
import ImagePipeline.Toml.Tree

/-!
# TOML documents

A document is a sequence of lines. A line defines a table, adds a table to an array, or gives a
value to a key of the table defined last (`Statement`). `parse` reads the lines one after the other
and carries them out on a tree; a text that is not well formed, or that defines something twice,
has no value.
-/

namespace ImagePipeline.Toml

open Config (Value)

/-! ### Values -/

mutual

def value? : Nat → List Char → Option (Value × List Char)
  | 0, _ => none
  | fuel + 1, cs =>
    match cs with
    | '[' :: rest => (items? fuel rest).map fun (items, rest) => (.array items, rest)
    | '\x7b' :: rest =>
      match skipBlanks rest with
      | '\x7d' :: rest => some (.table [], rest)
      | rest => do
        let (branch, rest) ← pairs? fuel [] rest
        return (.table (entriesToValue branch), rest)
    | '"' :: _ => (quoted? cs).map fun (s, rest) => (.string s, rest)
    | '\'' :: _ => (quoted? cs).map fun (s, rest) => (.string s, rest)
    | _ => do
      let (front, rest) := word cs
      return (← scalar? front, rest)

/-- The items of an array up to its closing bracket; a comma may follow the last one. -/
def items? : Nat → List Char → Option (List Value × List Char)
  | 0, _ => none
  | fuel + 1, cs =>
    match skipLines cs.length cs with
    | ']' :: rest => some ([], rest)
    | cs => do
      let (item, rest) ← value? fuel cs
      match skipLines rest.length rest with
      | ',' :: rest =>
        let (items, rest) ← items? fuel rest
        return (item :: items, rest)
      | ']' :: rest => return ([item], rest)
      | _ => none

/-- The pairs of a table within a line up to its closing brace, added to those already there. -/
def pairs? : Nat → Branch → List Char → Option (Branch × List Char)
  | 0, _, _ => none
  | fuel + 1, branch, cs => do
    let ((path, key), rest) ← path? cs.length cs
    let rest ← after? '=' rest
    let (v, rest) ← value? fuel (skipBlanks rest)
    let branch ← branch.assignAt path key v
    match skipBlanks rest with
    | ',' :: rest => pairs? fuel branch rest
    | '\x7d' :: rest => return (branch, rest)
    | _ => none

end

/-! ### Statements -/

inductive Statement where
  | define (path : List String) (key : String)
  | extend (path : List String) (key : String)
  | assign (path : List String) (key : String) (v : Value)

def statement? (cs : List Char) : Option (Statement × List Char) :=
  match cs with
  | '[' :: '[' :: rest => do
    let ((path, key), rest) ← path? rest.length rest
    let rest ← after? ']' (← after? ']' rest)
    return (.extend path key, rest)
  | '[' :: rest => do
    let ((path, key), rest) ← path? rest.length rest
    return (.define path key, ← after? ']' rest)
  | _ => do
    let ((path, key), rest) ← path? cs.length cs
    let rest ← after? '=' rest
    let (v, rest) ← value? (2 * rest.length) (skipBlanks rest)
    return (.assign path key v, rest)

structure State where
  root : Branch := []
  current : List String := []

def State.step (s : State) : Statement → Option State
  | .define path key => do
    let root ← s.root.update .header (fun _ inner => inner.define key) path false
    return ⟨root, path ++ [key]⟩
  | .extend path key => do
    let root ← s.root.update .header (fun _ inner => inner.extend key) path false
    return ⟨root, path ++ [key]⟩
  | .assign path key v => do
    let root ← s.root.update .header (fun _ inner => inner.assignAt path key v) s.current false
    return { s with root := root }

/-! ### Documents -/

/-- Carries out the lines of a text, at most so many. -/
def lines? : Nat → State → List Char → Option State
  | 0, _, _ => none
  | fuel + 1, s, cs =>
    match skipBlanks cs with
    | [] => some s
    | cs =>
      match lineEnd? cs with
      | some rest => lines? fuel s rest
      | none => do
        let (statement, rest) ← statement? cs
        let s ← s.step statement
        lines? fuel s (← lineEnd? rest)

def dropMark : List Char → List Char
  | '\uFEFF' :: rest => rest
  | cs => cs

def parse (text : String) : Option Value := do
  let cs := dropMark text.toList
  let s ← lines? (cs.length + 1) {} cs
  return .table (entriesToValue s.root)

end ImagePipeline.Toml
