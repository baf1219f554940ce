import OpcodeTables.Text.Numeral

/-!
# Failures of a file system

Each failure has a number and a text; a number without a name here is kept as it is.
-/

namespace OpcodeTables

inductive Errno where
  | noEntry
  | accessDenied
  | busy
  | alreadyExists
  | notDirectory
  | isDirectory
  | invalid
  | noSpace
  | readOnly
  | nameTooLong
  | linkLoop
  | other (code : Nat)
deriving DecidableEq

namespace Errno

/-- The failures with a name, after their numbers. -/
def named : List (Nat × Errno) :=
  [(2, .noEntry), (13, .accessDenied), (16, .busy), (17, .alreadyExists), (20, .notDirectory), (21, .isDirectory),
   (22, .invalid), (28, .noSpace), (30, .readOnly), (36, .nameTooLong), (40, .linkLoop)]

def code : Errno → Nat
  | .noEntry => 2
  | .accessDenied => 13
  | .busy => 16
  | .alreadyExists => 17
  | .notDirectory => 20
  | .isDirectory => 21
  | .invalid => 22
  | .noSpace => 28
  | .readOnly => 30
  | .nameTooLong => 36
  | .linkLoop => 40
  | .other code => code

def ofCode (n : Nat) : Errno :=
  (named.lookup n).getD (.other n)

def text : Errno → String
  | .noEntry => "No such file or directory"
  | .accessDenied => "Permission denied"
  | .busy => "Device or resource busy"
  | .alreadyExists => "File exists"
  | .notDirectory => "Not a directory"
  | .isDirectory => "Is a directory"
  | .invalid => "Invalid argument"
  | .noSpace => "No space left on device"
  | .readOnly => "Read-only file system"
  | .nameTooLong => "File name too long"
  | .linkLoop => "Too many levels of symbolic links"
  | .other code => "Unknown error " ++ Text.decimal code

/-- The text of a failure with its number. -/
def message (e : Errno) : String :=
  e.text ++ " (os error " ++ Text.decimal e.code ++ ")"

end Errno

end OpcodeTables
