import WordHart.Text.Numeral

namespace WordHart

/-- Why a file cannot be read or written. Codes and messages are those of the operating system. -/
inductive FileError where
  | notFound
  | inputOutput
  | permissionDenied
  /-- A path goes on behind something that is no directory. -/
  | notDirectory
  /-- A directory stands where a file is wanted. -/
  | isDirectory
  | nameTooLong
  deriving DecidableEq

namespace FileError

def code : FileError → Nat
  | notFound => 2
  | inputOutput => 5
  | permissionDenied => 13
  | notDirectory => 20
  | isDirectory => 21
  | nameTooLong => 36

def kindText : FileError → String
  | notFound => "NotFound"
  | inputOutput => "Uncategorized"
  | permissionDenied => "PermissionDenied"
  | notDirectory => "NotADirectory"
  | isDirectory => "IsADirectory"
  | nameTooLong => "InvalidFilename"

def message : FileError → String
  | notFound => "No such file or directory"
  | inputOutput => "Input/output error"
  | permissionDenied => "Permission denied"
  | notDirectory => "Not a directory"
  | isDirectory => "Is a directory"
  | nameTooLong => "File name too long"

def text (error : FileError) : String :=
  error.message ++ " (os error " ++ Numeral.decimal error.code ++ ")"

/-- The error written out as a record, with the names of its fields. -/
def recordText (error : FileError) : String :=
  "Os \x7b code: " ++ Numeral.decimal error.code ++ ", kind: " ++ error.kindText ++
    ", message: \"" ++ error.message ++ "\" \x7d"

end FileError

end WordHart
