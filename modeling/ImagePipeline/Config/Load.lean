import ImagePipeline.Config.Resolve
import ImagePipeline.Toml.Document

/-!
# Loading a configuration file

A configuration file is a TOML document that is laid over the usual values. Without a file the
usual values hold.
-/

namespace ImagePipeline

inductive FileError where
  | notFound
  | notText
  deriving DecidableEq, Repr

def FileError.message : FileError → String
  | notFound => "No such file or directory (os error 2)"
  | notText => "stream did not contain valid UTF-8"

def FileError.text (content : Option ByteArray) : Except FileError String :=
  match content with
  | none => .error .notFound
  | some bytes =>
    match String.fromUTF8? bytes with
    | none => .error .notText
    | some text => .ok text

namespace ServiceConfig

def ofDocument (text : String) : Except ConfigError ServiceConfig :=
  match Toml.parse text with
  | none => .error .malformed
  | some v => resolve (some v)

def load (file : Option (Except FileError String)) : Except ConfigError ServiceConfig :=
  match file with
  | none => resolve none
  | some (.error e) => .error (.io e.message)
  | some (.ok text) => ofDocument text

end ServiceConfig

end ImagePipeline
