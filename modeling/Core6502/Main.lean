import Core6502.Runner.Report

/-!
# The command line

Hands the command line, the environment and the image to `Report.ofWords` and prints what it
answers.
-/

namespace Core6502.Main

/-- The variables that the program looks at. -/
def variableNames : List String := ["NES_CPU_TRACE", "NES_CPU_QUIET", "NES_CPU_MAX_STEPS"]

def environment : IO Environment := do
  let values ← variableNames.mapM fun name => return (name, ← IO.getEnv name)
  return .ofVariables fun name => (values.lookup name).join

/-- The number and the description that the system gives for a failed call. Some calls report
the number with its sign changed. -/
def systemError : IO.Error → UInt32 × String
  | .noFileOrDirectory _ code details | .inappropriateType _ code details
  | .permissionDenied _ code details | .invalidArgument _ code details
  | .otherError code details => (min code (0 - code), details)
  | e => (0, toString e)

def readImage (name : String) : IO (Except ReadError (List UInt8)) := do
  try return .ok (← IO.FS.readBinFile name).toList
  catch e =>
    let (code, details) := systemError e
    return .error (.ofCode code.toNat details)

end Core6502.Main

open Core6502 in
def main (words : List String) : IO UInt32 := do
  let env ← Main.environment
  let image ← match Request.ofWords words with
    | .ok (.launch name _) => Main.readImage name
    | _ => pure (.error .notFound)
  let report := Report.ofWords words env fun _ => image
  report.out.forM IO.println
  report.err.forM IO.eprintln
  return UInt32.ofNat report.exitCode
