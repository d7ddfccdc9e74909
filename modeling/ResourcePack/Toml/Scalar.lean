import ResourcePack.Document.Basic
import ResourcePack.Toml.Moment

/-!
# Scalars of TOML

A scalar without quotes is a run of letters, digits and the characters `+-_.:`, or two of
them where a date and a time are separated by a blank. `ofToken?` tells what such a run
stands for. Digits may be grouped by single underscores between them. Integers have to
fit 64 bits, and a floating-point number must not be greater than all finite ones.
-/

namespace ResourcePack

namespace Toml

def isTokenChar (c : Char) : Bool :=
  c.isAlphanum || c = '+' || c = '-' || c = '_' || c = '.' || c = ':'

/-- The digits of a run in which single underscores may stand between digits. -/
def ungroup? (isDigit : Char → Bool) : List Char → Option (List Char)
  | [] => none
  | [c] => if isDigit c then some [c] else none
  | c :: '_' :: rest => if isDigit c then (ungroup? isDigit rest).map (c :: ·) else none
  | c :: rest => if isDigit c then (ungroup? isDigit rest).map (c :: ·) else none

/-- The number a text in this base stands for, if it has grouped digits only. -/
def unsigned? (base : Nat) (token : List Char) : Option Nat :=
  (ungroup? (Text.isDigitOf base) token).map (Text.number base)

/-- The digits of a whole number that does not start with a needless zero. -/
def whole? (token : List Char) : Option (List Char) :=
  match ungroup? Char.isDigit token with
  | some ['0'] => some ['0']
  | some ('0' :: _) => none
  | digits => digits

/-- A sign and what follows it. -/
def splitSign (token : List Char) : Bool × List Char :=
  match token with
  | '-' :: rest => (true, rest)
  | '+' :: rest => (false, rest)
  | _ => (false, token)

/-- The least and the greatest integer. -/
def integerRange : Int × Int := (-0x8000000000000000, 0x7FFFFFFFFFFFFFFF)

/-- The integer a token stands for. Only decimal ones have a sign. -/
def integer? (token : List Char) : Option Int := do
  let n : Int ←
    match token with
    | '0' :: 'x' :: digits => (unsigned? 16 digits).map Int.ofNat
    | '0' :: 'o' :: digits => (unsigned? 8 digits).map Int.ofNat
    | '0' :: 'b' :: digits => (unsigned? 2 digits).map Int.ofNat
    | _ =>
      let (negative, digits) := splitSign token
      (whole? digits).map fun digits =>
        if negative then -(Text.number 10 digits) else Text.number 10 digits
  if integerRange.1 ≤ n ∧ n ≤ integerRange.2 then some n else none

/-- Split a text at the first character of a kind. -/
def splitAt (stop : Char → Bool) (token : List Char) : List Char × List Char :=
  (token.takeWhile (!stop ·), token.dropWhile (!stop ·))

/-- Whether `mantissa * 10 ^ exponent` is nearer to `2 ^ 1024` than to the greatest finite
number of 64 bits, or beyond both. -/
def overflows (mantissa : Nat) (exponent : Int) : Bool :=
  let bound := (1 <<< 1024) - (1 <<< 970)
  let size : Int := (Nat.toDigits 10 mantissa).length + exponent
  if mantissa = 0 ∨ size < 300 then false
  else if 320 < size then true
  else if exponent < 0 then bound * Nat.pow 10 exponent.natAbs ≤ mantissa
  else bound ≤ mantissa * Nat.pow 10 exponent.natAbs

/-- Whether a token is a floating-point number: a whole number with a fraction, an
exponent or both, or one of the names. -/
def isFloat (token : List Char) : Bool :=
  let (negative, unsigned) := splitSign token
  if unsigned = ['i', 'n', 'f'] ∨ unsigned = ['n', 'a', 'n'] then true
  else
    let (mantissa, power) := splitAt (fun c => c = 'e' || c = 'E') unsigned
    let (whole, point) := splitAt (· = '.') mantissa
    let fraction? := match point with
      | [] => some []
      | _ :: digits => ungroup? Char.isDigit digits
    let exponent? : Option Int := match power with
      | [] => some 0
      | _ :: rest =>
        let (negative, digits) := splitSign rest
        (unsigned? 10 digits).map fun n => if negative then -n else n
    match whole? whole, fraction?, exponent? with
    | some whole, some fraction, some exponent =>
      (!point.isEmpty || !power.isEmpty) &&
        (negative || !overflows (Text.number 10 (whole ++ fraction)) (exponent - fraction.length))
    | _, _, _ => false

/-- What a scalar without quotes stands for. -/
def ofToken? (token : List Char) : Option Document :=
  if token = ['t', 'r', 'u', 'e'] then some (.bool true)
  else if token = ['f', 'a', 'l', 's', 'e'] then some (.bool false)
  else
    match integer? token with
    | some n => some (.integer n)
    | none =>
      if isFloat token then some (.number (String.ofList token))
      else (Moment.normal? token).map fun spelling => .date (String.ofList spelling)

/-- The token at the start of a text and what follows it. -/
def token (input : List Char) : List Char × List Char :=
  let first := input.takeWhile isTokenChar
  let rest := input.dropWhile isTokenChar
  if Moment.isDate first then
    match rest with
    | ' ' :: c :: _ =>
      if c.isDigit then
        (first ++ ' ' :: rest.tail.takeWhile isTokenChar, rest.tail.dropWhile isTokenChar)
      else (first, rest)
    | _ => (first, rest)
  else (first, rest)

def scalar? (input : List Char) : Option (Document × List Char) :=
  let (token, rest) := token input
  (ofToken? token).map (·, rest)

end Toml

end ResourcePack
