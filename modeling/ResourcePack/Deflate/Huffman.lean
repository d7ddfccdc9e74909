import ResourcePack.Deflate.Bits

/-!
# Canonical codes

A canonical code is given by the width of each symbol's code word: words of one width
are consecutive numbers in the order of their symbols, and a longer word is greater than
any shorter one it is compared with bit by bit. Words are read from their most
significant bit.
-/

namespace ResourcePack

namespace Deflate

/-- A canonical code: the widths of the words of all symbols, how many words there are of
each width from 1 on, and the symbols in the order of their words. -/
structure Huffman where
  widths : Array Nat
  counts : List Nat
  symbols : Array Nat
  deriving DecidableEq, Repr

namespace Huffman

def maxWidth : Nat := 15

/-- The symbols whose words have this width. -/
def symbolsOf (widths : List Nat) (width : Nat) : List Nat :=
  (widths.zipIdx.filter (·.1 = width)).map Prod.snd

/-- The code with these widths; a width of 0 means that the symbol has no word. -/
def ofWidths (widths : List Nat) : Huffman where
  widths := widths.toArray
  counts := (List.range maxWidth).map fun n => widths.count (n + 1)
  symbols := ((List.range maxWidth).flatMap fun n => symbolsOf widths (n + 1)).toArray

def widthOf (code : Huffman) (symbol : Nat) : Nat := code.widths.getD symbol 0

/-- The part of all infinite bit sequences that starts with a word, in units of
`2⁻¹⁵`. -/
def coverage (code : Huffman) : Nat :=
  code.counts.foldl (fun covered count => 2 * covered + count) 0

/-- Whether every infinite bit sequence starts with exactly one word. -/
def isComplete (code : Huffman) : Bool :=
  code.coverage = 1 <<< maxWidth

/-- The symbol of the next word. Of the words of the current width, `first` is the least,
and `before` symbols have shorter ones; `word` holds the bits read so far. -/
def symbolFrom (symbols : Array Nat) (counts : List Nat) (word first before : Nat)
    (bits : Bits) : Option (Nat × Bits) :=
  match counts with
  | [] => none
  | count :: counts => do
    let (bit, bits) ← bits.next?
    let word := 2 * word + bit.toNat
    if word < first + count then
      return (← symbols[before + (word - first)]?, bits)
    else symbolFrom symbols counts word (2 * (first + count)) (before + count) bits

/-- The symbol of the next word. -/
def symbol? (code : Huffman) (bits : Bits) : Option (Nat × Bits) :=
  symbolFrom code.symbols code.counts 0 0 0 bits

/-- The symbol of the next word, or why there is none: if there are bits for the widest
word, more of them make no difference. -/
def symbol (code : Huffman) (bits : Bits) : Except Fault (Nat × Bits) :=
  match code.symbol? bits with
  | some found => .ok found
  | none => .error (if bits.has maxWidth then .malformed else .unfinished)

end Huffman

end Deflate

end ResourcePack
