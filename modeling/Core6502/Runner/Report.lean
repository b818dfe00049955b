import Core6502.Debug.Debugger
import Core6502.Image
import Core6502.Runner.Options

/-!
# The program

What the program prints, and the exit code, for a command line, an environment and the image
that it names. An image of the size of a cartridge is mapped as one unless a load address is
given; any other image is copied as it is and starts where it was loaded.
-/

namespace Core6502

/-- What the program leaves behind: the exit code and the lines of its two outputs. The lines of a
log, which the program can keep on its error output, are no part of it. -/
structure Report where
  exitCode : Nat := 0
  out : List String := []
  err : List String := []
deriving DecidableEq

/-- Why an image cannot be read: the system's description and its number. -/
structure ReadError where
  description : String
  code : Nat
deriving DecidableEq

namespace ReadError

def notFound : ReadError := ⟨"No such file or directory", 2⟩

def denied : ReadError := ⟨"Permission denied", 13⟩

def notDirectory : ReadError := ⟨"Not a directory", 20⟩

def isDirectory : ReadError := ⟨"Is a directory", 21⟩

def nameTooLong : ReadError := ⟨"File name too long", 36⟩

/-- The errors of reading a file that have a wording of their own. -/
def known : List ReadError := [notFound, denied, notDirectory, isDirectory, nameTooLong]

/-- The error with a number, described in the given words unless it has its own. -/
def ofCode (code : Nat) (description : String) : ReadError :=
  (known.find? fun e => e.code == code).getD ⟨description, code⟩

def message (e : ReadError) : String :=
  String.join [e.description, " (os error ", toString e.code, ")"]

end ReadError

/-- Settings that come from environment variables. -/
structure Environment where
  /-- Whether to keep a trace, as if the command line asked for one. -/
  trace : Bool := false
  quiet : Bool := false
  /-- How many instructions may run unless the command line says it. -/
  steps : Nat := 1000000
deriving DecidableEq

namespace Environment

/-- The values that switch a variable on. -/
def onWords : List String := ["1", "true", "TRUE", "on", "ON"]

/-- The settings that the variables make. A count that cannot be read is as good as none. -/
def ofVariables (value? : String → Option String) : Environment where
  trace := (value? "NES_CPU_TRACE").any onWords.contains
  quiet := (value? "NES_CPU_QUIET").any onWords.contains
  steps := ((value? "NES_CPU_MAX_STEPS").bind Numeral.count?).getD 1000000

end Environment

namespace Options

/-- Whether an image of `size` bytes is mapped as a cartridge. -/
def mapsCartridge (o : Options) (size : Nat) : Bool := o.load.isNone && Nrom.fits size

def machine (o : Options) (image : List UInt8) : Machine :=
  if o.mapsCartridge image.length then
    let m := (Machine.mapNrom {} image).2.powerOn
    { m with pc := o.pc.getD m.pc }
  else
    let base := o.load.getD Nrom.base
    { (Machine.load {} base image).powerOn with pc := o.pc.getD base }

def debugger (o : Options) (env : Environment) : Debugger :=
  { Debugger.new with
    breakpoints := o.breakpoints.foldl Breakpoints.add {}
    tracing := o.trace || env.trace }

def budget (o : Options) (env : Environment) : Nat := o.steps.getD env.steps

end Options

namespace Report

def usage : String :=
  "Usage: nes-cpu [--load ADDR] [--pc ADDR] [--steps N] [--break ADDR]... [--trace] <image>"

def help : Report where
  out := [usage,
    "Images of exactly 16 or 32 KiB are mapped as NROM PRG unless --load is given."]

def ofUsageError (e : UsageError) : Report where
  exitCode := 2
  err := [e.message, usage]

def ofReadError (image : String) (e : ReadError) : Report where
  exitCode := 1
  err := [String.join ["error: failed to read ", image, ": ", e.message]]

/-- The last line of a summary. -/
def stateLine (d : Debugger) (m : Machine) : String :=
  String.join ["PC:", String.ofList (Hex.word m.pc), " ", String.ofList m.registers.line,
    " CYC:", toString m.cycles.toNat, " instructions:", toString d.executed.toNat]

/-- The answer for a run that ended. A fault shows the trace, any other end a summary. -/
def ofRun (env : Environment) : Except Fault StopReason × Debugger × Machine → Report
  | (.error fault, d, _) =>
    { exitCode := 1
      err := d.trace.map TraceEntry.text ++ [String.join ["error: ", fault.message]] }
  | (.ok reason, d, m) =>
    if env.quiet then {} else { out := [String.join ["stopped: ", reason.message], stateLine d m] }

def ofImage (o : Options) (env : Environment) (image : List UInt8) : Report :=
  ofRun env ((o.debugger env).run (o.machine image) (o.budget env))

/-- The answer to a command line, where `image?` reads images. -/
def ofWords (words : List String) (env : Environment)
    (image? : String → Except ReadError (List UInt8)) : Report :=
  match Request.ofWords words with
  | .error e => ofUsageError e
  | .ok .help => help
  | .ok (.launch name o) =>
    match image? name with
    | .error e => ofReadError name e
    | .ok image => ofImage o env image

end Report

end Core6502
