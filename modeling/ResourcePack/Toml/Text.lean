import ResourcePack.Text.Digits

/-!
# Texts of TOML

Text stands between quotes: double ones, inside which a backslash starts an escape, or
single ones, inside which nothing does. Three quotes enclose text of several lines; a line
break right after them is no part of it, and up to two quotes may come before the three
that end it. Control characters other than a tab have to be escaped.
-/

namespace ResourcePack

namespace Toml

def isPlain (c : Char) : Bool :=
  c = '\t' || (0x20 ≤ c.toNat && c.toNat ≠ 0x7F)

def isBlank (c : Char) : Bool := c = ' ' || c = '\t'

def skipBlanks (input : List Char) : List Char := input.dropWhile isBlank

def newline? : List Char → Option (List Char)
  | '\n' :: rest => some rest
  | '\r' :: '\n' :: rest => some rest
  | _ => none

/-- The character numbered by the next `count` hexadecimal digits. -/
def numbered? (count : Nat) (input : List Char) : Option Char := do
  let digits := input.take count
  let code ← digits.foldlM (fun code c => (Text.hexValue? c).map (code * 16 + ·)) 0
  if digits.length = count ∧ code.isValidChar then some (Char.ofNat code) else none

/-- What a letter after a backslash stands for. -/
def shortEscape? (c : Char) : Option Char :=
  match c with
  | 'b' => some '\x08'
  | 'f' => some '\x0c'
  | 'n' => some '\n'
  | 'r' => some '\r'
  | 't' => some '\t'
  | '"' => some '"'
  | '\\' => some '\\'
  | _ => none

/-- The character of an escape behind its backslash, and how many characters it takes. -/
def escape? (input : List Char) : Option (Char × Nat) :=
  match input with
  | 'u' :: rest => (numbered? 4 rest).map (·, 5)
  | 'U' :: rest => (numbered? 8 rest).map (·, 9)
  | c :: _ => (shortEscape? c).map (·, 1)
  | [] => none

def quotes (quote : Char) (input : List Char) : Nat :=
  (input.takeWhile (· = quote)).length

/-- Leave out blanks and line breaks; `count` bounds their number. -/
def skipLines : (count : Nat) → List Char → List Char
  | 0, input => input
  | count + 1, input =>
    match newline? input with
    | some rest => skipLines count rest
    | none =>
      match input with
      | c :: rest => if isBlank c then skipLines count rest else input
      | [] => []

/-- Read text on one line behind its opening quote. The characters so far are in `done`,
the last one first, and `fuel` bounds the number of those to come. -/
def lineText? (quote : Char) :
    (fuel : Nat) → List Char → List Char → Option (String × List Char)
  | 0, _, _ => none
  | fuel + 1, done, input =>
    match input with
    | [] => none
    | c :: rest =>
      if c = quote then some (String.ofList done.reverse, rest)
      else if c = '\\' ∧ quote = '"' then
        match escape? rest with
        | some (c, length) => lineText? quote fuel (c :: done) (rest.drop length)
        | none => none
      else if isPlain c then lineText? quote fuel (c :: done) rest
      else none

/-- Read text of several lines behind its opening quotes and the line break after them.
A backslash at the end of a line leaves out everything up to the next character that is
neither blank nor a line break. -/
def blockText? (quote : Char) :
    (fuel : Nat) → List Char → List Char → Option (String × List Char)
  | 0, _, _ => none
  | fuel + 1, done, input =>
    match input with
    | [] => none
    | c :: rest =>
      if c = quote then
        let count := quotes quote input
        if 3 ≤ count then
          if count ≤ 5 then
            some (String.ofList (List.replicate (count - 3) quote ++ done).reverse,
              input.drop count)
          else none
        else blockText? quote fuel (c :: done) rest
      else
        match newline? input with
        | some rest => blockText? quote fuel ('\n' :: done) rest
        | none =>
          if c = '\\' ∧ quote = '"' then
            match newline? (skipBlanks rest) with
            | some rest => blockText? quote fuel done (skipLines fuel rest)
            | none =>
              match escape? rest with
              | some (c, length) => blockText? quote fuel (c :: done) (rest.drop length)
              | none => none
          else if isPlain c then blockText? quote fuel (c :: done) rest
          else none

/-- Read text from its first quote on. The text has fewer than `fuel` characters. -/
def text? (fuel : Nat) (input : List Char) : Option (String × List Char) :=
  match input with
  | quote :: rest =>
    match rest with
    | q₂ :: q₃ :: block =>
      if q₂ = quote ∧ q₃ = quote then blockText? quote fuel [] ((newline? block).getD block)
      else lineText? quote fuel [] rest
    | _ => lineText? quote fuel [] rest
  | [] => none

end Toml

end ResourcePack
