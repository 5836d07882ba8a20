/-!
# Configuration values

A configuration is written as nested tables. A `Value` is looked at through paths of keys
(`Value.at?`); of two entries with the same key only the first one counts. Layering an overlay over
a base (`Value.merge`) goes along those paths: tables are merged key by key, and whatever else the
overlay holds takes the place of what the base holds.
-/

namespace ImagePipeline.Config

inductive Value where
  /-- The absence of a value where one could stand; a TOML text has no way to write it. -/
  | null
  | string (s : String)
  | integer (n : Int)
  | float (x : Float)
  | boolean (b : Bool)
  | datetime (text : String)
  | array (items : List Value)
  | table (entries : List (String × Value))
  deriving Inhabited

abbrev Entries := List (String × Value)

namespace Value

/-- The entry of a table; nothing else has entries. -/
def entry? (key : String) : Value → Option Value
  | table entries => entries.lookup key
  | _ => none

def at? : List String → Value → Option Value
  | [], v => some v
  | key :: rest, v => (v.entry? key).bind (at? rest)

def isTable : Value → Bool
  | table _ => true
  | _ => false

def newEntries (base overlay : Entries) : Entries :=
  overlay.filter fun e => (base.lookup e.1).isNone

mutual

def merge : Value → Value → Value
  | table base, table overlay => table (mergeEntries base overlay ++ newEntries base overlay)
  | _, overlay => overlay

/-- Layers the entries of an overlay over those of a base that have the same key. -/
def mergeEntries : Entries → Entries → Entries
  | [], _ => []
  | (key, v) :: rest, overlay =>
    (key, match overlay.lookup key with
      | some o => merge v o
      | none => v) :: mergeEntries rest overlay

end

end Value

end ImagePipeline.Config
