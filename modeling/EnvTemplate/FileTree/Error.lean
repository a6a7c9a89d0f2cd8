import EnvTemplate.Text

/-!
Why an operation on files fails.
-/
namespace EnvTemplate

inductive OsError
  | notFound
  | busy
  | alreadyExists
  | notDirectory
  | isDirectory
  | invalid
  | nameTooLong
  | notEmpty
  | tooManyLinks
  | nulInPath
  | notUtf8
  deriving DecidableEq

namespace OsError

def system? : OsError → Option (Text × Nat)
  | notFound => some ("No such file or directory".toList, 2)
  | busy => some ("Device or resource busy".toList, 16)
  | alreadyExists => some ("File exists".toList, 17)
  | notDirectory => some ("Not a directory".toList, 20)
  | isDirectory => some ("Is a directory".toList, 21)
  | invalid => some ("Invalid argument".toList, 22)
  | nameTooLong => some ("File name too long".toList, 36)
  | notEmpty => some ("Directory not empty".toList, 39)
  | tooManyLinks => some ("Too many levels of symbolic links".toList, 40)
  | nulInPath => none
  | notUtf8 => none

def message (e : OsError) : Text :=
  match e.system? with
  | some (description, number) =>
    description ++ " (os error ".toList ++ Nat.toDigits 10 number ++ [')']
  | none =>
    match e with
    | nulInPath => "file name contained an unexpected NUL byte".toList
    | _ => "stream did not contain valid UTF-8".toList

end OsError
end EnvTemplate
