/-
What can go wrong with files and programs.

* `FileFault` — the causes;
* `FileFault.message` — their wording, with the number of the system error where the
  system is the one who refuses.
-/
namespace Mailroom

/-- Why a file or program could not be used. -/
inductive FileFault where
  | notFound
  | tooLong
  | notPermitted
  | alreadyThere
  | notFolder
  | isFolder
  | notEmpty
  /-- the bytes of a file are no text -/
  | notText
  /-- an argument of a program holds a zero byte -/
  | zeroByte
  deriving DecidableEq, Repr

/-- The wording of a fault. -/
def FileFault.message : FileFault → String
  | notFound => "No such file or directory (os error 2)"
  | tooLong => "Argument list too long (os error 7)"
  | notPermitted => "Permission denied (os error 13)"
  | alreadyThere => "File exists (os error 17)"
  | notFolder => "Not a directory (os error 20)"
  | isFolder => "Is a directory (os error 21)"
  | notEmpty => "Directory not empty (os error 39)"
  | notText => "stream did not contain valid UTF-8"
  | zeroByte => "nul byte found in provided data"

end Mailroom
