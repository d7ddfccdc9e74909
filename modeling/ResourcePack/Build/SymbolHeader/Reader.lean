import ResourcePack.Build.SymbolHeader
import ResourcePack.Text.Digits

/-!
# Reading a header of symbols

`read?` reads a header as a C compiler does: it joins the lines that a backslash continues,
tells literals from other text, leaves out the comments, looks for the enumeration and splits
what is in it at commas. This is what a header means, whatever it looks like. A text with a
comment or a literal that does not end means nothing. Trigraphs and marks between digits, which
only some versions of C have, are left aside.
-/

namespace ResourcePack

namespace SymbolHeader

/-- Join every line that ends in a backslash with the next one. -/
def spliced : List Char → List Char
  | [] => []
  | '\\' :: '\n' :: rest => spliced rest
  | c :: rest => c :: spliced rest

/-- A part of a C text that is not to be taken apart. -/
inductive Piece where
  /-- A character outside of literals. -/
  | mark (c : Char)
  /-- A string or a character constant, without its quotes. -/
  | literal (quote : Char) (body : List Char)
  deriving DecidableEq, Repr

namespace Piece

def text : Piece → List Char
  | mark c => [c]
  | literal quote body => quote :: body ++ [quote]

end Piece

/-- A text without literals. -/
def marks (text : List Char) : List Piece := text.map .mark

/-- What the characters of a C text belong to. -/
inductive Region where
  | code
  /-- A comment that ends at an asterisk with a slash behind it. -/
  | block
  /-- A comment that ends with its line. -/
  | line
  /-- A literal, of which this much has been read. -/
  | literal (quote : Char) (body : List Char)
  deriving DecidableEq, Repr

def isQuote (c : Char) : Bool := c = '"' || c = '\x27'

/-- The text with a blank for every comment, from a place in a region on. -/
def withoutComments : Region → List Char → Option (List Piece)
  | .code, [] => some []
  | .code, '/' :: '*' :: rest => (withoutComments .block rest).map (.mark ' ' :: ·)
  | .code, '/' :: '/' :: rest => (withoutComments .line rest).map (.mark ' ' :: ·)
  | .code, c :: rest =>
    if isQuote c then withoutComments (.literal c []) rest
    else (withoutComments .code rest).map (.mark c :: ·)
  | .block, [] => none
  | .block, '*' :: '/' :: rest => withoutComments .code rest
  | .block, _ :: rest => withoutComments .block rest
  | .line, [] => some []
  | .line, '\n' :: rest => (withoutComments .code rest).map (.mark '\n' :: ·)
  | .line, _ :: rest => withoutComments .line rest
  | .literal _ _, [] => none
  | .literal quote body, '\\' :: c :: rest =>
    if c = '\n' then none else withoutComments (.literal quote (body ++ ['\\', c])) rest
  | .literal quote body, c :: rest =>
    if c = quote then (withoutComments .code rest).map (.literal quote body :: ·)
    else if c = '\n' then none
    else withoutComments (.literal quote (body ++ [c])) rest

/-- A character that starts neither a literal nor a comment stands for itself. -/
theorem withoutComments_mark {c : Char} {rest : List Char} (plain : isQuote c = false)
    (meet : c = '/' → ∀ d ∈ rest.head?, d ∉ ['/', '*']) :
    withoutComments .code (c :: rest) = (withoutComments .code rest).map (.mark c :: ·) := by
  rw [withoutComments, if_neg (by simp [plain])]
  · rintro rest' rfl rfl
    exact absurd (meet rfl '*' rfl) (by simp)
  · rintro rest' rfl rfl
    exact absurd (meet rfl '/' rfl) (by simp)

section

variable {α : Type} [DecidableEq α]

/-- The text before the first place where `mark` stands. -/
def before? (mark : List α) : List α → Option (List α)
  | [] => if mark.isEmpty then some [] else none
  | c :: rest =>
    if mark.isPrefixOf (c :: rest) then some [] else (before? mark rest).map (c :: ·)

/-- The text after the first place where `mark` stands. -/
def after? (mark text : List α) : Option (List α) :=
  (before? mark text).map fun before => text.drop (before.length + mark.length)

end

/-- The characters that C takes for blanks. -/
def isBlank (c : Char) : Bool :=
  c = ' ' || c = '\n' || c = '\t' || c = '\r' || c = '\x0b' || c = '\x0c'

def Piece.isBlank : Piece → Bool
  | mark c => SymbolHeader.isBlank c
  | literal _ _ => false

def trim (text : List Piece) : List Piece :=
  ((text.dropWhile Piece.isBlank).reverse.dropWhile Piece.isBlank).reverse

/-- The name and the value of an enumerator. -/
def enumerator? (text : List Piece) : Option (String × Nat) :=
  match text.dropWhile (· ≠ .mark '=') with
  | [] => none
  | _ :: value =>
    let digits := (trim value).flatMap Piece.text
    if !digits.isEmpty && digits.all Char.isDigit then
      some (String.ofList ((trim (text.takeWhile (· ≠ .mark '='))).flatMap Piece.text),
        Text.number 10 digits)
    else none

/-- The names and values that a header declares. -/
def read? (text : String) : Option (List (String × Nat)) := do
  let code ← withoutComments .code (spliced text.toList)
  let enumerators ← before? (marks closing.toList) (← after? (marks opening.toList) code)
  ((enumerators.splitOn (.mark ',')).filter (!·.all Piece.isBlank)).mapM enumerator?

example :
    read? "/* , */ typedef enum resource_id \x7b A = 1, // B = 2,\\\n C,\n\x7d resource_id;" =
      some [("A", 1)] := by decide

example : read? "typedef enum resource_id \x7b \"/*\" = 1, \x7d resource_id;" =
    some [("\"/*\"", 1)] := by decide

end SymbolHeader

end ResourcePack
