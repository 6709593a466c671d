/-
  What comes of reading a file.

  A program asks for a file by name and gets its bytes, or
  learns why it does not.  A name that belongs to nothing is
  told apart from one whose content cannot be read.

  Key definitions include:
    * `Refusal`, `Refusal.message`
    * `Reading`
-/

------------------------------------------------------------
-- Readings
------------------------------------------------------------

namespace Bracketry

/- Why a system does not read a file. -/
inductive Refusal where
  | notFound
  /- A part of the name that leads on is no directory. -/
  | notDirectory
  | isDirectory
  | nameTooLong
  /- Another reason, in the words of the system. -/
  | other (reason : List Char) (number : Nat)
deriving DecidableEq, Repr, Inhabited

namespace Refusal

/- The words for a refusal. -/
def reason : Refusal → List Char
  | .notFound => "No such file or directory".toList
  | .notDirectory => "Not a directory".toList
  | .isDirectory => "Is a directory".toList
  | .nameTooLong => "File name too long".toList
  | .other reason _ => reason

/- The number of a refusal. -/
def number : Refusal → Nat
  | .notFound => 2
  | .notDirectory => 20
  | .isDirectory => 21
  | .nameTooLong => 36
  | .other _ number => number

/- The wording of a refusal. -/
def message
    (refusal : Refusal) :
    List Char :=
  refusal.reason ++ " (os error ".toList ++
    (toString refusal.number).toList ++ [')']

end Refusal

/- What comes of reading a file. -/
inductive Reading where
  /- The bytes of the file. -/
  | content (bytes : List Nat)
  /- Nothing has the name. -/
  | absent (refusal : Refusal)
  /- Something has the name and cannot be read. -/
  | unreadable (refusal : Refusal)
deriving DecidableEq, Repr, Inhabited

end Bracketry
