import ImagePipeline.Text.Split

/-!
# The command line

A command line names one of three commands; every option has a value. A value stands in the same
argument or in the next one, which must not look like an option itself, and no option is given
twice. The configuration file may be named in front of the command or behind it; the latter counts.
Anything else on the line is a mistake (`Invocation.parse`).
-/

namespace ImagePipeline

inductive Command where
  | serve (addr : Option String)
  | process (input descriptor : String) (output : Option String)
  | genConfig
  deriving DecidableEq, Repr

structure Invocation where
  config : Option String
  command : Command
  deriving DecidableEq, Repr

namespace Invocation

structure Flag where
  name : String
  letter : Option Char := none
  allowsEmpty : Bool := false

inductive Argument where
  | word
  | flag (flag : Flag) (value : Option String)
  | unknown

def isValue (arg : String) : Bool :=
  match arg.toList with
  | ['-'] => true
  | '-' :: _ => false
  | _ => true

def longFlag (flags : List Flag) (text : List Char) : Argument :=
  let (name, value) := match Text.cutAt '=' text with
    | some (name, value) => (name, some (String.ofList value))
    | none => (text, none)
  match flags.find? fun f => f.name == String.ofList name with
  | some f => .flag f value
  | none => .unknown

/-- The option of one letter, with whatever stands behind the letter; an equals sign in front of a
value is left out. -/
def shortFlag (flags : List Flag) (letter : Char) (rest : List Char) : Argument :=
  match flags.find? fun f => f.letter == some letter with
  | none => .unknown
  | some f =>
    match rest with
    | [] => .flag f none
    | '=' :: value => .flag f (some (String.ofList value))
    | value => .flag f (some (String.ofList value))

def classify (flags : List Flag) (arg : String) : Argument :=
  match arg.toList with
  | ['-', '-'] => .word
  | '-' :: '-' :: text => longFlag flags text
  | '-' :: letter :: rest => shortFlag flags letter rest
  | _ => .word

abbrev Given := List (String × String)

def give? (flag : Flag) (value : String) (given : Given) : Option Given :=
  if (given.lookup flag.name).isSome || (value.isEmpty && !flag.allowsEmpty) then none
  else some ((flag.name, value) :: given)

/-- Takes in the options up to the first word and hands on what stands from there. -/
def scan? (flags : List Flag) : List String → Given → Option (Given × List String)
  | [], given => some (given, [])
  | arg :: rest, given =>
    match classify flags arg with
    | .word => some (given, arg :: rest)
    | .unknown => none
    | .flag f (some value) => (give? f value given).bind (scan? flags rest)
    | .flag f none =>
      match rest with
      | value :: rest =>
        if isValue value then (give? f value given).bind (scan? flags rest) else none
      | [] => none

def configFlag : Flag := { name := "config" }

def flagsOf : String → Option (List Flag)
  | "serve" => some [configFlag, { name := "addr", allowsEmpty := true }]
  | "process" =>
    some [configFlag, { name := "input", letter := some 'i' },
      { name := "descriptor", letter := some 'd', allowsEmpty := true },
      { name := "output", letter := some 'o' }]
  | "gen-config" => some [configFlag]
  | _ => none

def command? (name : String) (given : Given) : Option Command :=
  match name with
  | "serve" => some (.serve (given.lookup "addr"))
  | "process" => do
    return .process (← given.lookup "input") (← given.lookup "descriptor") (given.lookup "output")
  | "gen-config" => some .genConfig
  | _ => none

/-- The invocation that the arguments make; nothing when there is a mistake in them. -/
def parse (args : List String) : Option Invocation := do
  let (before, rest) ← scan? [configFlag] args []
  match rest with
  | [] => none
  | name :: rest =>
    let flags ← flagsOf name
    let (given, rest) ← scan? flags rest []
    if rest.isEmpty || rest == ["--"] then
      return ⟨(given.lookup "config").or (before.lookup "config"), ← command? name given⟩
    else none

end Invocation

end ImagePipeline
