import Bracketry.Command.Run

/-
  The command line program.

  It runs on the files and the variables of the system, and
  prints what comes of that.

  Key definitions include:
    * `systemHost`
    * `main`
-/

------------------------------------------------------------
-- The System
------------------------------------------------------------

namespace Bracketry

/- Why the system did not read a file. -/
def refusalOf : IO.Error → Refusal
  | .noFileOrDirectory _ _ _ => .notFound
  | .inappropriateType _ code reason => ofCode code reason
  | .invalidArgument _ code reason => ofCode code reason
  | .permissionDenied _ code reason => ofCode code reason
  | error => .other error.toString.toList 0
where
  /- The refusal with a number, which may come negated. -/
  ofCode
      (code : UInt32)
      (reason : String) :
      Refusal :=
    let number :=
      if code.toNat < 2147483648 then code.toNat
      else 4294967296 - code.toNat
    match number with
    | 20 => .notDirectory
    | 21 => .isDirectory
    | 36 => .nameTooLong
    | _ => .other reason.toList number

/- Nothing has the name when a file is refused like this. -/
def Refusal.isAbsence : Refusal → Bool
  | .notFound => true
  | .notDirectory => true
  | .nameTooLong => true
  | .isDirectory => false
  | .other _ _ => false

/- Read a file of the system. -/
def readSystemFile
    (name : List Char) :
    IO Reading := do
  try
    let bytes ← IO.FS.readBinFile (String.ofList name)
    return .content (bytes.toList.map (·.toNat))
  catch error =>
    let refusal := refusalOf error
    if refusal.isAbsence then return .absent refusal
    else return .unreadable refusal

/- The files and the variables of the system. -/
def systemHost : Host IO where
  read := readSystemFile
  lookup := fun name => do
    let value ← IO.getEnv (String.ofList name)
    return value.map (·.toList)

end Bracketry

------------------------------------------------------------
-- The Program
------------------------------------------------------------

/- Run the command line and give its exit code. -/
def main
    (arguments : List String) :
    IO UInt32 := do
  let outcome ←
    Bracketry.Command.run Bracketry.systemHost
      (arguments.map (·.toList))
  match outcome with
  | .success output =>
      IO.print (String.ofList output)
      return 0
  | .failure message =>
      IO.eprint (String.ofList message)
      return 1
  | .fault cause =>
      IO.eprintln (cause.message?.getD "broken contract")
      return 101
