import WordHart.CommandLine.Perform

namespace WordHart.CommandLine

def causeOf : IO.Error → FileError
  | .noFileOrDirectory .. => .notFound
  | .permissionDenied .. => .permissionDenied
  | .inappropriateType _ code _ => if code = 21 then .isDirectory else .notDirectory
  | .invalidArgument .. => .nameTooLong
  | _ => .inputOutput

/-- The files of the system that the program runs on. -/
def Files.ofSystem : Files IO where
  read path := do
    try
      let data ← IO.FS.readBinFile path
      return .ok data.toList
    catch error => return .error (causeOf error)
  write path data := do
    try
      IO.FS.writeBinFile path ⟨data.toArray⟩
      return .ok ()
    catch error => return .error (causeOf error)

def present (report : Report) : IO UInt32 := do
  IO.print report.output
  IO.eprint (report.diagnostics.getD "error: invalid arguments\n")
  return report.exitCode

end WordHart.CommandLine

def main (arguments : List String) : IO UInt32 := do
  match ← WordHart.CommandLine.Files.ofSystem.perform arguments with
  | some report => WordHart.CommandLine.present report
  | none => return 0
