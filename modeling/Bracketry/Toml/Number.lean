import Bracketry.Text.Field
import Bracketry.Toml.Text
import Bracketry.Toml.Value

/-
  Numbers in a TOML document, read.

  An underscore may stand between two digits.  A decimal
  number has no zero in front, and a number to another base
  has no sign.

  What a text may hold is wider than the integers: behind its
  first underscore a decimal spelling goes on as it likes,
  and to another base the digits may be left out.  Such a
  spelling is read, and is no number when it is asked for
  one.

  Key definitions include:
    * `Toml.Number.digits?`
    * `Toml.Number.integer?`
    * `Toml.Number.float?`
-/

------------------------------------------------------------
-- Digits
------------------------------------------------------------

namespace Bracketry

namespace Toml

namespace Number

/-
  The digits to a base, at least one.  The flag says that
  the character before was a digit.
-/
def digitsFrom?
    (base : Nat)
    (behindDigit : Bool) :
    List Char → Option (List Nat)
  | [] => if behindDigit then some [] else none
  | c :: rest =>
      if c = '_' ∧ behindDigit then
        digitsFrom? base false rest
      else
        match digit? c with
        | some digit =>
            if digit < base then
              (digitsFrom? base true rest).map (digit :: ·)
            else none
        | none => none

/- The digits of a spelling to a base. -/
def digits?
    (base : Nat)
    (spelling : List Char) :
    Option (List Nat) :=
  digitsFrom? base false spelling

/- The number with some digits. -/
def ofDigits
    (base : Nat)
    (digits : List Nat) :
    Nat :=
  digits.foldl (fun number digit => number * base + digit) 0

/- Decimal digits with no zero in front. -/
def decimal?
    (spelling : List Char) :
    Option (List Nat) := do
  let digits ← digits? 10 spelling
  if digits.head? = some 0 ∧ digits.length ≠ 1 then none
  else return digits

/- The sign in front, and what follows it. -/
def splitSign : List Char → Bool × List Char
  | '-' :: rest => (true, rest)
  | '+' :: rest => (false, rest)
  | spelling => (false, spelling)

/- A number with a sign. -/
def withSign
    (negative : Bool)
    (size : Nat) :
    Int :=
  if negative then -(size : Int) else size

end Number

end Toml

end Bracketry

------------------------------------------------------------
-- Integers
------------------------------------------------------------

namespace Bracketry

namespace Toml

namespace Number

/-
  Every underscore stands between two characters that are
  digits to the base 16.  The flag says that the character
  before is one.
-/
def underscoresFit
    (behindDigit : Bool) :
    List Char → Bool
  | [] => true
  | c :: rest =>
      if c = '_' then
        behindDigit && rest.head?.any (digit? · |>.isSome) &&
          underscoresFit false rest
      else underscoresFit (digit? c).isSome rest

/- The letter before an exponent. -/
def isExponentMark
    (c : Char) :
    Bool :=
  c = 'e' || c = 'E'

/-
  The spelling is read as a decimal integer: digits, or
  digits and an underscore with no mark of a float behind
  them.
-/
def readsAsDecimal
    (size : List Char) :
    Bool :=
  let behind := size.dropWhile (·.isDigit)
  (size = ['0'] || size.head?.any fun c => c ≠ '0') &&
    behind.length < size.length &&
    (behind = [] || behind.head? = some '_') &&
    !behind.any (fun c => c = '.' || isExponentMark c) &&
    underscoresFit false size

/- The spelling is read as an integer to a base. -/
def readsToBase
    (base : Nat)
    (spelling : List Char) :
    Bool :=
  spelling.all
      (fun c => c = '_' || (digit? c).any (· < base)) &&
    underscoresFit false spelling

/- The integer with some digits to a base. -/
def toBase?
    (base : Nat)
    (spelling : List Char) :
    Option Int :=
  (digits? base spelling).map fun ds => (ofDigits base ds : Int)

/-
  The integer that a spelling is read as, if it is read as
  one; without a number if it is none.
-/
def integer? : List Char → Option (Option Int)
  | '0' :: 'x' :: rest =>
      if readsToBase 16 rest then some (toBase? 16 rest)
      else none
  | '0' :: 'o' :: rest =>
      if readsToBase 8 rest then some (toBase? 8 rest)
      else none
  | '0' :: 'b' :: rest =>
      if readsToBase 2 rest then some (toBase? 2 rest)
      else none
  | spelling =>
      let (negative, size) := splitSign spelling
      if readsAsDecimal size then
        some ((decimal? size).map fun ds =>
          withSign negative (ofDigits 10 ds))
      else none

end Number

end Toml

end Bracketry

------------------------------------------------------------
-- Floats
------------------------------------------------------------

namespace Bracketry

namespace Toml

namespace Number

/- The exponent behind the letter. -/
def exponent?
    (spelling : List Char) :
    Option Int :=
  let (negative, size) := splitSign spelling
  (digits? 10 size).map fun ds =>
    withSign negative (ofDigits 10 ds)

/- A float without its exponent. -/
def mantissa?
    (spelling : List Char) :
    Option Float :=
  match Text.splitFirst? (· = '.') spelling with
  | none => do
      let whole ← decimal? spelling
      return .decimal (ofDigits 10 whole) 0
  | some (whole, fraction) => do
      let whole ← decimal? whole
      let fraction ← digits? 10 fraction
      return .decimal (ofDigits 10 (whole ++ fraction))
        (-(fraction.length : Int))

/- The float with another power of ten. -/
def scale
    (exponent : Int) :
    Float → Float
  | .special => .special
  | .decimal digits scale => .decimal digits (scale + exponent)

/- The float that a spelling stands for. -/
def float?
    (spelling : List Char) :
    Option Float :=
  let (_, size) := splitSign spelling
  if size = ['i', 'n', 'f'] ∨ size = ['n', 'a', 'n'] then
    some .special
  else
    match Text.splitFirst? isExponentMark size with
    | some (size, behind) => do
        let exponent ← exponent? behind
        return scale exponent (← mantissa? size)
    | none =>
        if size.contains '.' then mantissa? size else none

end Number

end Toml

end Bracketry
