import ImagePipeline.Text.Split

/-!
# File paths

A path is a row of components with `/` in between; empty components and `.` say nothing, except in
front. The last component is the file name, unless it is `..`. A file's name up to its last dot is
its stem; a dot in front does not count. `FilePath.beside` puts another name into the same
directory.
-/

namespace ImagePipeline.FilePath

def isSilent (component : List Char) : Bool := component.isEmpty || component == ['.']

/-- The components without the silent ones at the end; the first one always stays. -/
def trimmed : List (List Char) → List (List Char)
  | [] => []
  | first :: rest => first :: (rest.reverse.dropWhile isSilent).reverse

/-- The components of a path up to the last one that says something. -/
def components (path : List Char) : List (List Char) := trimmed (Text.pieces '/' path)

/-- The last component of a path, unless it is silent or leads upwards. -/
def nameOf? (path : List Char) : Option (List Char) :=
  match (components path).getLast? with
  | some name => if isSilent name || name == ['.', '.'] then none else some name
  | none => none

def fileName? (path : String) : Option String := (nameOf? path.toList).map String.ofList

/-- The components of the directory of a file; a path without a file name is taken for the
directory itself. -/
def directoryOf (path : List Char) : List (List Char) :=
  match path, nameOf? path with
  | [], _ => []
  | _, some _ => trimmed (components path).dropLast
  | _, none => components path

/-- The name up to its last dot, or the whole name when the only dot stands in front or there is
none. -/
def stemOf (name : List Char) : List Char :=
  match Text.cutAt '.' name.reverse with
  | some (_, []) => name
  | some (_, before) => before.reverse
  | none => name

/-- The path of another file in the directory of the file that a path leads to. -/
def besideOf (path : List Char) (name : List Char) : List Char :=
  Text.joinWith '/' (directoryOf path ++ [name])

/-- The path of the file that is written when no other is named: beside the source, with `-out` and
the format behind the source's stem. -/
def defaultOutput (input format : String) : String :=
  let stem := ((nameOf? input.toList).map stemOf).getD "image".toList
  String.ofList (besideOf input.toList (stem ++ "-out.".toList ++ format.toList))

end ImagePipeline.FilePath
