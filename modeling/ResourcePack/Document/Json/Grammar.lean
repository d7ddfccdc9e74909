import ResourcePack.Document.Json

/-!
# The grammar of JSON

`Json.Spelled` says which texts spell a document, whatever way they are read. A string is a
sequence of UTF-16 units, which characters and escapes spell in turn. It is text if these
are the units of some text, as they need not be: an escape may name half of a surrogate
pair.
-/

namespace ResourcePack

namespace Json

def Blanks (text : List Char) : Prop :=
  ∀ c ∈ text, isBlank c = true

/-- A mark with blanks around it. -/
inductive Mark (mark : Char) : List Char → Prop where
  | mk {before behind : List Char} : Blanks before → Blanks behind →
      Mark mark (before ++ mark :: behind)

/-! ## Strings -/

/-- The UTF-16 units of a character. -/
def units (c : Char) : List Nat :=
  if c.toNat < 0x10000 then [c.toNat]
  else [0xD800 + (c.toNat - 0x10000) / 0x400, 0xDC00 + (c.toNat - 0x10000) % 0x400]

/-- A spelling of UTF-16 units between quotes. -/
inductive Inside : List Nat → List Char → Prop where
  | nil : Inside [] []
  | plain {c : Char} {codes : List Nat} {text : List Char} :
      0x20 ≤ c.toNat → c ≠ '"' → c ≠ '\\' → Inside codes text →
      Inside (units c ++ codes) (c :: text)
  | short {letter c : Char} {codes : List Nat} {text : List Char} :
      shortEscape? letter = some c → Inside codes text →
      Inside (units c ++ codes) ('\\' :: letter :: text)
  | unit {a b c d : Char} {code : Nat} {codes : List Nat} {text : List Char} :
      unit? a b c d = some code → Inside codes text →
      Inside (code :: codes) ('\\' :: 'u' :: a :: b :: c :: d :: text)

/-- A string in quotes, and the text that it is, if any. -/
inductive Quoted : Option String → List Char → Prop where
  | text {value : String} {inside : List Char} :
      Inside (value.toList.flatMap units) inside →
      Quoted (some value) ('"' :: inside ++ ['"'])
  | noText {codes : List Nat} {inside : List Char} :
      Inside codes inside → (∀ value : String, codes ≠ value.toList.flatMap units) →
      Quoted none ('"' :: inside ++ ['"'])

/-! ## Numbers -/

structure Digits (text : List Char) : Prop where
  ne_nil : text ≠ []
  all : ∀ c ∈ text, c.isDigit = true

/-- A whole number; only zero itself starts with a zero. -/
structure Whole (text : List Char) : Prop extends Digits text where
  zero : text.head? = some '0' → text = ['0']

inductive Fraction : List Char → Prop where
  | none : Fraction []
  | some {digits : List Char} : Digits digits → Fraction ('.' :: digits)

inductive Exponent : List Char → Prop where
  | none : Exponent []
  | some {e : Char} {sign digits : List Char} : e = 'e' ∨ e = 'E' →
      sign = [] ∨ sign = ['+'] ∨ sign = ['-'] → Digits digits →
      Exponent (e :: sign ++ digits)

/-- A number. It is an integer if it is written without fraction and exponent, unless it is
zero with a minus. -/
inductive Number : Document → List Char → Prop where
  | nat {whole : List Char} : Whole whole → Number (.integer (Text.number 10 whole)) whole
  | negative {whole : List Char} : Whole whole → Text.number 10 whole ≠ 0 →
      Number (.integer (-Text.number 10 whole)) ('-' :: whole)
  | other {minus whole fraction exponent : List Char} :
      minus = [] ∨ minus = ['-'] → Whole whole → Fraction fraction → Exponent exponent →
      fraction ≠ [] ∨ exponent ≠ [] ∨ (minus ≠ [] ∧ Text.number 10 whole = 0) →
      Number (.number (String.ofList (minus ++ whole ++ fraction ++ exponent)))
        (minus ++ whole ++ fraction ++ exponent)

/-! ## Documents -/

/-- What a part of a text may be: a document, or the items or members between brackets, of
which there is one at least. -/
inductive Part where
  | value (document : Document)
  | items (items : List Document)
  | members (members : List (Option String × Document))

/-- A spelling of a part, without blanks around it. -/
inductive Spells : Part → List Char → Prop where
  | null : Spells (.value .null) ['n', 'u', 'l', 'l']
  | isTrue : Spells (.value (.bool true)) ['t', 'r', 'u', 'e']
  | isFalse : Spells (.value (.bool false)) ['f', 'a', 'l', 's', 'e']
  | number {document : Document} {text : List Char} :
      Number document text → Spells (.value document) text
  | text {value : Option String} {text : List Char} :
      Quoted value text → Spells (.value (.text value)) text
  | noItems {blanks : List Char} :
      Blanks blanks → Spells (.value (.list [])) ('[' :: blanks ++ [']'])
  | list {items : List Document} {before text behind : List Char} :
      Blanks before → Spells (.items items) text → Blanks behind →
      Spells (.value (.list items)) ('[' :: before ++ text ++ behind ++ [']'])
  | noMembers {blanks : List Char} :
      Blanks blanks → Spells (.value (.record [])) ('\x7b' :: blanks ++ ['\x7d'])
  | record {members : List (Option String × Document)} {before text behind : List Char} :
      Blanks before → Spells (.members members) text → Blanks behind →
      Spells (.value (.record members)) ('\x7b' :: before ++ text ++ behind ++ ['\x7d'])
  | item {item : Document} {text : List Char} :
      Spells (.value item) text → Spells (.items [item]) text
  | items {item : Document} {items : List Document} {text comma others : List Char} :
      Spells (.value item) text → Mark ',' comma → Spells (.items items) others →
      Spells (.items (item :: items)) (text ++ comma ++ others)
  | member {key : Option String} {value : Document} {name colon text : List Char} :
      Quoted key name → Mark ':' colon → Spells (.value value) text →
      Spells (.members [(key, value)]) (name ++ colon ++ text)
  | members {key : Option String} {value : Document}
      {members : List (Option String × Document)} {name colon text comma others : List Char} :
      Quoted key name → Mark ':' colon → Spells (.value value) text → Mark ',' comma →
      Spells (.members members) others →
      Spells (.members ((key, value) :: members)) (name ++ colon ++ text ++ comma ++ others)

/-- A text that consists of a document with blanks around it. -/
def Spelled (document : Document) (text : String) : Prop :=
  ∃ before body behind, Blanks before ∧ Spells (.value document) body ∧ Blanks behind ∧
    text.toList = before ++ body ++ behind

end Json

end ResourcePack
