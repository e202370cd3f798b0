import PlsqlNav.Path

/-! What can go wrong, and how it is told. Finding nothing is no failure, and neither is a text that
departs from the language. -/
namespace PlsqlNav

namespace IoError

inductive Cause where
  | missing
  | denied
  | other
  deriving DecidableEq, Repr

end IoError

structure IoError where
  cause : IoError.Cause
  text : String
  deriving DecidableEq, Repr

namespace IoError

def noEntry : IoError := ⟨.missing, "No such file or directory (os error 2)"⟩

def notDirectory : IoError := ⟨.other, "Not a directory (os error 20)"⟩

def isDirectory : IoError := ⟨.other, "Is a directory (os error 21)"⟩

def nameTooLong : IoError := ⟨.other, "File name too long (os error 36)"⟩

def nulInName : IoError := ⟨.other, "file name contained an unexpected NUL byte"⟩

def notText : IoError := ⟨.other, "stream did not contain valid UTF-8"⟩

end IoError

/-- A failure while candidate files are listed or read. It ends the search. -/
inductive SearchError where
  | read (path : Path) (error : IoError)
  | walk (reason : String)
  | pattern (reason : String)
  | task (reason : String)
  deriving DecidableEq, Repr

def SearchError.message : SearchError → String
  | read path error => "cannot read " ++ path.text ++ ": " ++ error.text
  | walk reason => "walk failed: " ++ reason
  | pattern reason => "invalid file pattern: " ++ reason
  | task reason => "search task failed: " ++ reason

inductive Failure where
  | search (error : SearchError)
  | io (error : IoError)
  | settings (reason : String)
  | usage (reason : String)
  deriving DecidableEq, Repr

namespace Failure

def message : Failure → String
  | search error => error.message
  | io error => error.text
  | settings reason => reason
  | usage reason => reason

/-- Misuse of the command line exits with 2, any other failure with 1. -/
def exitCode : Failure → Nat
  | usage _ => 2
  | _ => 1

def hint? : Failure → Option String
  | search (.read _ _) =>
    some "a candidate file could not be read; check permissions or exclude it under [ignore] patterns"
  | search (.pattern _) =>
    some "check [search] extensions and [ignore] patterns in .plnav/config.toml"
  | search (.walk _) => some "check that --root points to a readable directory"
  | search (.task _) => none
  | settings _ => some "fix or remove the offending .plnav/config.toml"
  | io error =>
    match error.cause with
    | .missing => some "verify the file or directory exists"
    | .denied => some "check file permissions"
    | .other => none
  | usage _ => none

end Failure

end PlsqlNav
