import ResourcePack.Document.Basic
import ResourcePack.Text.Digits

/-!
# Reading JSON

`Json.parse?` reads a text that holds one document with blanks around it, in the strict
grammar: no comments, no trailing commas, no leading zeros, double quotes only. Documents
may be nested to any depth.

Strings are read as text, except that an escape may name half of a surrogate pair without
the other half; such a string is a document, but no text. Only numbers written without
fraction and exponent are integers, and `-0`, which keeps its sign, is not one.
-/

namespace ResourcePack

namespace Json

/-- The characters that may stand between the parts of a document. -/
def isBlank (c : Char) : Bool :=
  c = ' ' || c = '\t' || c = '\n' || c = '\r'

def skipBlanks (text : List Char) : List Char :=
  text.dropWhile isBlank

/-- The number that four hexadecimal digits stand for. -/
def unit? (a b c d : Char) : Option Nat := do
  return (← Text.hexValue? a) * 0x1000 + (← Text.hexValue? b) * 0x100
    + (← Text.hexValue? c) * 0x10 + (← Text.hexValue? d)

/-- What a letter after a backslash stands for. -/
def shortEscape? (c : Char) : Option Char :=
  match c with
  | '"' => some '"'
  | '\\' => some '\\'
  | '/' => some '/'
  | 'b' => some '\x08'
  | 'f' => some '\x0c'
  | 'n' => some '\n'
  | 'r' => some '\r'
  | 't' => some '\t'
  | _ => none

def isHighSurrogate (unit : Nat) : Bool := 0xD800 ≤ unit && unit < 0xDC00

def isLowSurrogate (unit : Nat) : Bool := 0xDC00 ≤ unit && unit < 0xE000

def paired (high low : Nat) : Char :=
  Char.ofNat (0x10000 + (high - 0xD800) * 0x400 + (low - 0xDC00))

/-- Read a string behind its opening quote. The characters so far are in `done`, the last
one first, and `high` is the first half of a pair that has just been named; `whole` tells
whether no other half has been. -/
def stringFrom? (done : List Char) (whole : Bool) (high : Option Nat) :
    List Char → Option (Option String × List Char)
  | '"' :: rest =>
    some (if whole && high.isNone then some (String.ofList done.reverse) else none, rest)
  | '\\' :: 'u' :: a :: b :: c :: d :: rest =>
    match unit? a b c d with
    | none => none
    | some unit =>
      if isHighSurrogate unit then stringFrom? done (whole && high.isNone) (some unit) rest
      else if isLowSurrogate unit then
        match high with
        | some high => stringFrom? (paired high unit :: done) whole none rest
        | none => stringFrom? done false none rest
      else stringFrom? (Char.ofNat unit :: done) (whole && high.isNone) none rest
  | '\\' :: c :: rest =>
    match shortEscape? c with
    | none => none
    | some c => stringFrom? (c :: done) (whole && high.isNone) none rest
  | c :: rest =>
    if c.toNat < 0x20 then none
    else stringFrom? (c :: done) (whole && high.isNone) none rest
  | [] => none

/-- A character without a meaning of its own is a part of the string. -/
theorem stringFrom?_plain {done : List Char} {whole : Bool} {high : Option Nat} {c : Char}
    (visible : 0x20 ≤ c.toNat) (noQuote : c ≠ '"') (noBackslash : c ≠ '\\') (rest : List Char) :
    stringFrom? done whole high (c :: rest) =
      stringFrom? (c :: done) (whole && high.isNone) none rest := by
  rw [stringFrom?]
  · exact if_neg (Nat.not_lt.mpr visible)
  · exact noQuote
  · exact fun _ _ _ _ _ same _ => noBackslash same
  · exact fun _ _ same _ => noBackslash same

/-- Read a string behind its opening quote. -/
def string? (input : List Char) : Option (Option String × List Char) :=
  stringFrom? [] true none input

/-- The fraction a text starts with, if any; its point needs a digit after it. -/
def fraction? (text : List Char) : Option (List Char × List Char) :=
  match text with
  | '.' :: rest =>
    let digits := rest.takeWhile Char.isDigit
    if digits.isEmpty then none else some ('.' :: digits, rest.dropWhile Char.isDigit)
  | _ => some ([], text)

/-- The sign a text starts with, if any. -/
def sign (text : List Char) : List Char × List Char :=
  match text with
  | '+' :: rest => (['+'], rest)
  | '-' :: rest => (['-'], rest)
  | _ => ([], text)

/-- The exponent a text starts with, if any; its letter needs a digit after it. -/
def exponent? (text : List Char) : Option (List Char × List Char) :=
  match text with
  | e :: rest =>
    if e = 'e' ∨ e = 'E' then
      let (sign, rest) := sign rest
      let digits := rest.takeWhile Char.isDigit
      if digits.isEmpty then none
      else some (e :: sign ++ digits, rest.dropWhile Char.isDigit)
    else some ([], text)
  | [] => some ([], text)

/-- Whether digits are a whole number without leading zeros. -/
def isWhole (digits : List Char) : Bool :=
  match digits with
  | [] => false
  | ['0'] => true
  | first :: _ => first ≠ '0'

def number? (text : List Char) : Option (Document × List Char) := do
  let (minus, rest) :=
    match text with
    | '-' :: rest => (['-'], rest)
    | _ => ([], text)
  let whole := rest.takeWhile Char.isDigit
  if !isWhole whole then none
  else
    let (fraction, rest) ← fraction? (rest.dropWhile Char.isDigit)
    let (exponent, rest) ← exponent? rest
    let value : Nat := Text.number 10 whole
    if fraction.isEmpty && exponent.isEmpty && (minus.isEmpty || value ≠ 0) then
      return (.integer (if minus.isEmpty then value else -value), rest)
    else return (.number (String.ofList (minus ++ whole ++ fraction ++ exponent)), rest)

/-- What follows `word` in a text that starts with it. -/
def after? : (word text : List Char) → Option (List Char)
  | [], text => some text
  | w :: word, c :: text => if w = c then after? word text else none
  | _ :: _, [] => none

/-- Read a document that is neither a list nor a record. -/
def atom? (text : List Char) : Option (Document × List Char) :=
  match text with
  | '"' :: rest => (string? rest).map fun (value, rest) => (.text value, rest)
  | 'n' :: rest => (after? ['u', 'l', 'l'] rest).map (.null, ·)
  | 't' :: rest => (after? ['r', 'u', 'e'] rest).map (.bool true, ·)
  | 'f' :: rest => (after? ['a', 'l', 's', 'e'] rest).map (.bool false, ·)
  | _ => number? text

mutual

/-- Read a document from its first character on. Every call takes a character before the
next one but one, so `fuel` need not be more than twice their number. -/
def value? : (fuel : Nat) → List Char → Option (Document × List Char)
  | 0, _ => none
  | fuel + 1, text =>
    match text with
    | '[' :: rest =>
      match skipBlanks rest with
      | ']' :: rest => some (.list [], rest)
      | rest => items? fuel [] rest
    | '\x7b' :: rest =>
      match skipBlanks rest with
      | '\x7d' :: rest => some (.record [], rest)
      | rest => members? fuel [] rest
    | _ => atom? text

/-- Read the items of a list up to its end. Those so far are in `done`, the last one
first. -/
def items? : (fuel : Nat) → List Document → List Char → Option (Document × List Char)
  | 0, _, _ => none
  | fuel + 1, done, text =>
    match value? fuel text with
    | none => none
    | some (item, rest) =>
      match skipBlanks rest with
      | ',' :: rest => items? fuel (item :: done) (skipBlanks rest)
      | ']' :: rest => some (.list (item :: done).reverse, rest)
      | _ => none

/-- Read the members of a record up to its end. Those so far are in `done`, the last one
first. -/
def members? : (fuel : Nat) → List (Option String × Document) → List Char →
    Option (Document × List Char)
  | 0, _, _ => none
  | fuel + 1, done, text =>
    match text with
    | '"' :: rest =>
      match string? rest with
      | none => none
      | some (key, rest) =>
        match skipBlanks rest with
        | ':' :: rest =>
          match value? fuel (skipBlanks rest) with
          | none => none
          | some (value, rest) =>
            match skipBlanks rest with
            | ',' :: rest => members? fuel ((key, value) :: done) (skipBlanks rest)
            | '\x7d' :: rest => some (.record ((key, value) :: done).reverse, rest)
            | _ => none
        | _ => none
    | _ => none

end

def parse? (text : String) : Option Document :=
  let text := text.toList
  match value? (2 * text.length + 2) (skipBlanks text) with
  | some (document, rest) => if (skipBlanks rest).isEmpty then some document else none
  | none => none

end Json

end ResourcePack
