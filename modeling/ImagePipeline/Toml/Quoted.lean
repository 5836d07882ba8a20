import ImagePipeline.Text.Numeral

/-!
# Blanks, comments and quoted text

What every part of a TOML document is made of. A reader takes something off the front of the text
and hands on what follows it. There are four kinds of quoted text: with single or double quotes,
where only double ones know escapes, and within one line or, with the quotes written three times,
over several lines.
-/

namespace ImagePipeline.Toml

/-! ### Blanks and comments -/

def isBlank (c : Char) : Bool := c = ' ' || c = '\t'

def skipBlanks (cs : List Char) : List Char := cs.dropWhile isBlank

/-- Whether a character may stand in a line as it is: a tab or anything that is not a control
character. -/
def isPlain (c : Char) : Bool := c = '\t' || (0x20 ≤ c.toNat && c.toNat ≤ 0x7E) || 0x80 ≤ c.toNat

def newline? : List Char → Option (List Char)
  | '\n' :: rest => some rest
  | '\r' :: '\n' :: rest => some rest
  | _ => none

def skipComment : List Char → List Char
  | '#' :: rest => rest.dropWhile isPlain
  | cs => cs

/-- The next line, when nothing but blanks and a comment is left of this one. -/
def lineEnd? (cs : List Char) : Option (List Char) :=
  match skipComment (skipBlanks cs) with
  | [] => some []
  | rest => newline? rest

def skipLines : Nat → List Char → List Char
  | 0, cs => cs
  | fuel + 1, cs =>
    let cs := skipComment (skipBlanks cs)
    match newline? cs with
    | some rest => skipLines fuel rest
    | none => cs

/-! ### Escapes -/

/-- The character with a number, unless there is none. -/
def charOf? (n : Nat) : Option Char := if n.isValidChar then some (Char.ofNat n) else none

def hexChar? (digits : Nat) (cs : List Char) : Option (Char × List Char) := do
  let front := cs.take digits
  if front.length ≠ digits then none
  else
    let n ← Text.digitsOnto? 16 Text.hexValue? 0 front
    return (← charOf? n, cs.drop digits)

def escape? : List Char → Option (Char × List Char)
  | 'b' :: rest => some ('\x08', rest)
  | 't' :: rest => some ('\t', rest)
  | 'n' :: rest => some ('\n', rest)
  | 'f' :: rest => some ('\x0c', rest)
  | 'r' :: rest => some ('\r', rest)
  | '"' :: rest => some ('"', rest)
  | '\\' :: rest => some ('\\', rest)
  | 'u' :: rest => hexChar? 4 rest
  | 'U' :: rest => hexChar? 8 rest
  | _ => none

/-! ### Quoted text -/

def prepend (c : Char) (found : Option (List Char × List Char)) : Option (List Char × List Char) :=
  found.map fun (text, rest) => (c :: text, rest)

def literal? : List Char → Option (List Char × List Char)
  | [] => none
  | c :: rest =>
    if c = '\'' then some ([], rest)
    else if isPlain c then prepend c (literal? rest)
    else none

def basic? : Nat → List Char → Option (List Char × List Char)
  | 0, _ => none
  | fuel + 1, cs =>
    match cs with
    | '"' :: rest => some ([], rest)
    | '\\' :: rest => do
      let (c, rest) ← escape? rest
      prepend c (basic? fuel rest)
    | c :: rest => if isPlain c then prepend c (basic? fuel rest) else none
    | [] => none

/-- The text behind three closing quotes, in front of which up to two more belong to the text. -/
def closing? (quote : Char) (cs : List Char) : Option (List Char × List Char) :=
  match (cs.takeWhile (· == quote)).length with
  | 0 => none
  | 1 => none
  | 2 => none
  | 3 => some ([], cs.drop 3)
  | 4 => some ([quote], cs.drop 4)
  | _ => some ([quote, quote], cs.drop 5)

def longLiteral? : Nat → List Char → Option (List Char × List Char)
  | 0, _ => none
  | fuel + 1, cs =>
    match closing? '\'' cs with
    | some found => some found
    | none =>
      match newline? cs, cs with
      | some rest, _ => prepend '\n' (longLiteral? fuel rest)
      | none, c :: rest => if isPlain c then prepend c (longLiteral? fuel rest) else none
      | none, [] => none

/-- The text behind a backslash at the end of a line: everything up to the next character that is
neither a blank nor a line break. -/
def continued? (cs : List Char) : Option (List Char) :=
  (newline? (skipBlanks cs)).map fun rest =>
    rest.dropWhile fun c => isBlank c || c == '\n' || c == '\r'

def longBasic? : Nat → List Char → Option (List Char × List Char)
  | 0, _ => none
  | fuel + 1, cs =>
    match closing? '"' cs with
    | some found => some found
    | none =>
      match newline? cs, cs with
      | some rest, _ => prepend '\n' (longBasic? fuel rest)
      | none, '\\' :: rest =>
        match continued? rest with
        | some rest => longBasic? fuel rest
        | none => do
          let (c, rest) ← escape? rest
          prepend c (longBasic? fuel rest)
      | none, c :: rest => if isPlain c then prepend c (longBasic? fuel rest) else none
      | none, [] => none

def dropNewline (cs : List Char) : List Char := (newline? cs).getD cs

def quoted? (cs : List Char) : Option (String × List Char) :=
  let found := match cs with
    | '"' :: '"' :: '"' :: rest => longBasic? (rest.length + 1) (dropNewline rest)
    | '\'' :: '\'' :: '\'' :: rest => longLiteral? (rest.length + 1) (dropNewline rest)
    | '"' :: rest => basic? (rest.length + 1) rest
    | '\'' :: rest => literal? rest
    | _ => none
  found.map fun (text, rest) => (String.ofList text, rest)

/-! ### Keys -/

def isBare (c : Char) : Bool := c.isAlphanum || c = '_' || c = '-'

/-- One key: bare, or quoted within one line. -/
def key? (cs : List Char) : Option (String × List Char) :=
  let found := match cs with
    | '"' :: rest => basic? (rest.length + 1) rest
    | '\'' :: rest => literal? rest
    | _ =>
      let name := cs.takeWhile isBare
      if name.isEmpty then none else some (name, cs.dropWhile isBare)
  found.map fun (text, rest) => (String.ofList text, rest)

/-- Keys with dots in between, at most so many; the last one apart from those in front. -/
def path? : Nat → List Char → Option ((List String × String) × List Char)
  | 0, _ => none
  | fuel + 1, cs => do
    let (name, rest) ← key? (skipBlanks cs)
    match skipBlanks rest with
    | '.' :: rest =>
      let ((front, last), rest) ← path? fuel rest
      return ((name :: front, last), rest)
    | rest => return (([], name), rest)

end ImagePipeline.Toml
