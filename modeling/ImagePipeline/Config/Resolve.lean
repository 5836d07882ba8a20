import ImagePipeline.Config.Reading

/-!
# From layers to a configuration

What a user configures is laid over the usual values, and the result is read and checked
(`resolve`). Reading fails before checking does, so a value of the wrong kind is reported in
preference to one out of range.
-/

namespace ImagePipeline

inductive ConfigError where
  | io (detail : String)
  | malformed
  | invalid (problem : ConfigProblem)
  deriving DecidableEq

def ConfigError.message : ConfigError → String
  | io detail => "IO error: " ++ detail
  | malformed => "TOML parse error"
  | invalid problem => "Config validation error: " ++ problem.message

namespace ServiceConfig

def validate (c : ServiceConfig) : Except ConfigError Unit :=
  match c.problem? with
  | some problem => .error (.invalid problem)
  | none => .ok ()

def ofValue (v : Config.Value) : Except ConfigError ServiceConfig :=
  match ofValue? v with
  | none => .error .malformed
  | some c =>
    match c.validate with
    | .error e => .error e
    | .ok _ => .ok c

def stockValue : Config.Value := toValue {}

def resolve (overlay : Option Config.Value) : Except ConfigError ServiceConfig :=
  match overlay with
  | some v => ofValue (Config.Value.merge stockValue v)
  | none => ofValue stockValue

end ServiceConfig

end ImagePipeline
