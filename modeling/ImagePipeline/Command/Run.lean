import ImagePipeline.Command.Arguments
import ImagePipeline.Command.Report
import ImagePipeline.Config.Load
import ImagePipeline.Config.Stock
import ImagePipeline.Service.Http
import ImagePipeline.Service.LogFilter

/-!
# Running a command

What a command does depends on its surroundings: the files there, whether an address can be
listened on, the number of cores. `Invocation.run` says what it prints, which files it writes and
with which code it ends. Nothing is printed about an image before it has been written.
-/

namespace ImagePipeline

structure Surroundings where
  read : String → Option ByteArray
  canWrite : String → Bool
  canListen : SocketAddress → Bool
  cores : Nat := 1
  logFilter : Option String := none
  sizeOf : Encoded Picture → Nat

structure Outcome where
  code : Nat
  lines : List String := []
  written : List (String × Encoded Picture) := []
  problem : Option String := none

namespace Outcome

def success (lines : List String) (written : List (String × Encoded Picture)) : Outcome :=
  { code := 0, lines := lines, written := written }

def failure (problem : String) (lines : List String) : Outcome :=
  { code := 1, lines := lines, problem := some problem }

def usage : Outcome :=
  { code := 2
    problem := some ("usage: [--config FILE] serve [--addr ADDR]"
      ++ " | process -i FILE -d DESCRIPTOR [-o FILE] | gen-config") }

end Outcome

namespace Surroundings

def config (s : Surroundings) (path : Option String) : Except ConfigError ServiceConfig :=
  ServiceConfig.load (path.map fun p => FileError.text (s.read p))

/-- Sets up logging; the filter from the surroundings counts if it is a good one. -/
def startLog (s : Surroundings) (config : ServiceConfig) : Except String LogLevel :=
  match s.logFilter.bind fun filter => (LogFilter.maxLevel filter).toOption with
  | some level => .ok level
  | none => LogFilter.maxLevel config.logging.level

def start (s : Surroundings) (path : Option String)
    (change : ServiceConfig → Except ConfigError ServiceConfig) : Except String ServiceConfig :=
  match (s.config path).bind change with
  | .error e => .error e.message
  | .ok config => (s.startLog config).map fun _ => config

end Surroundings

namespace Command

def withAddress (addr : Option String) (config : ServiceConfig) :
    Except ConfigError ServiceConfig :=
  match addr with
  | none => .ok config
  | some addr =>
    let config := { config with server := { config.server with addr := addr } }
    config.validate.map fun _ => config

/-- Starts the service; it runs for as long as it can listen. -/
def runServe (s : Surroundings) (config : ServiceConfig) : Outcome :=
  let lines := Report.banner config s.cores
  match SocketAddress.parse config.server.addr with
  | some address =>
    if s.canListen address then .success lines []
    else .failure ("cannot listen on " ++ address.text) lines
  | none => .failure ("cannot listen on " ++ config.server.addr) lines

def runProcess (s : Surroundings) (config : ServiceConfig) (input descriptor : String)
    (output : Option String) : Outcome :=
  match s.read input with
  | none => .failure FileError.notFound.message []
  | some source =>
    match (Service.pixelJob config (Photo.decode config.limits) source descriptor).recover with
    | .error e => .failure e.message []
    | .ok (.info report) => .success (Report.info input report ++ Report.infoObject report) []
    | .ok (.image image) =>
      let path := output.getD (FilePath.defaultOutput input image.format.name)
      if s.canWrite path then
        .success (Report.made input source.size descriptor image (s.sizeOf image) path)
          [(path, image)]
      else .failure FileError.notFound.message []

end Command

def Invocation.reads (i : Invocation) : List String :=
  i.config.toList ++
    match i.command with
    | .process input _ _ => [input]
    | _ => []

def Invocation.run (s : Surroundings) (i : Invocation) : Outcome :=
  match i.command with
  | .genConfig => .success Config.stockLines []
  | .serve addr =>
    match s.start i.config (Command.withAddress addr) with
    | .error problem => .failure problem []
    | .ok config => Command.runServe s config
  | .process input descriptor output =>
    match s.start i.config .ok with
    | .error problem => .failure problem []
    | .ok config => Command.runProcess s config input descriptor output

def runArguments (s : Surroundings) (args : List String) : Outcome :=
  match Invocation.parse args with
  | none => .usage
  | some i => i.run s

end ImagePipeline
