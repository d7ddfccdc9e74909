import ResourcePack.Bytes

/-!
# The firmware's checksum

The CRC unit of the target microcontroller takes one 32-bit word at a time: polynomial
`0x04C11DB7`, register preset to all ones, most significant bit first, no reflection and
no final complement. Bytes reach it in little-endian words. When the bytes do not fill
the last word, the one to three bytes left over are loaded most significant first, so
that `a, b, c` is fed as `0x00aabbcc`.

`ofBytes` is the checksum of a byte string and `extend` goes on from an earlier value.
`Stream` takes the bytes in pieces of any length and keeps at most three of them waiting.
-/

namespace ResourcePack

namespace Checksum

/-- The coefficients of the generator below `x^32`. -/
def polynomial : UInt32 := 0x04C11DB7

def reset : UInt32 := 0xFFFFFFFF

/-- Multiply the register by `x`: the bit shifted out brings in the polynomial. -/
def shift (register : UInt32) : UInt32 :=
  if register &&& 0x80000000 = 0 then register <<< 1
  else register <<< 1 ^^^ polynomial

/-- Feed one word: all of its 32 bits are shifted through the register. -/
def feed (register word : UInt32) : UInt32 :=
  Nat.repeat shift 32 (register ^^^ word)

/-- The word that stands for a last piece of fewer than four bytes: the bytes as one
big-endian number. -/
def tailWord (tail : Bytes) : UInt32 :=
  tail.foldl (fun word byte => word <<< 8 ||| byte.toUInt32) 0

/-- Feed the last piece, unless there is none. -/
def finish (register : UInt32) (tail : Bytes) : UInt32 :=
  if tail.isEmpty then register else feed register (tailWord tail)

/-- The checksum of `data` continued from the register value `seed`. -/
def extend (seed : UInt32) : Bytes → UInt32
  | a :: b :: c :: d :: rest => extend (feed seed (Word.ofLittleEndian a b c d)) rest
  | tail => finish seed tail

def ofBytes (data : Bytes) : UInt32 :=
  extend reset data

@[simp] theorem extend_nil (seed : UInt32) : extend seed [] = seed := rfl

@[simp] theorem extend_word (seed : UInt32) (a b c d : UInt8) (rest : Bytes) :
    extend seed (a :: b :: c :: d :: rest) =
      extend (feed seed (Word.ofLittleEndian a b c d)) rest := rfl

/-- A checksum in progress: the register after the whole words so far, and the bytes
that do not fill a word yet. -/
structure Stream where
  register : UInt32
  pending : Bytes
  pending_lt : pending.length < 4 := by decide

namespace Stream

/-- A stream that has taken nothing, continuing from `seed`. -/
def start (seed : UInt32) : Stream where
  register := seed
  pending := []

/-- Feed every whole word of `data` and keep what is left. -/
def absorb (register : UInt32) : Bytes → Stream
  | a :: b :: c :: d :: rest => absorb (feed register (Word.ofLittleEndian a b c d)) rest
  | [a, b, c] => ⟨register, [a, b, c], Nat.lt_succ_self 3⟩
  | [a, b] => ⟨register, [a, b], Nat.le_succ 3⟩
  | [a] => ⟨register, [a], Nat.le_add_left 2 2⟩
  | [] => ⟨register, [], Nat.succ_pos 3⟩

/-- Take more bytes. Those that are waiting are filled up to a word first; where that
fails, all of them go on waiting. -/
def update (stream : Stream) (data : Bytes) : Stream :=
  if stream.pending.isEmpty then absorb stream.register data
  else
    let missing := 4 - stream.pending.length
    let filled := stream.pending ++ data.take missing
    if short : filled.length < 4 then { stream with pending := filled, pending_lt := short }
    else absorb (extend stream.register filled) (data.drop missing)

/-- Take what successive reads give. The first one that gives nothing is the end. -/
def drain (stream : Stream) : List Bytes → Stream
  | [] => stream
  | piece :: rest => if piece.isEmpty then stream else (stream.update piece).drain rest

/-- The checksum of all bytes taken so far. Asking for it changes nothing. -/
def value (stream : Stream) : UInt32 :=
  finish stream.register stream.pending

@[simp] theorem value_start (seed : UInt32) : (start seed).value = seed := rfl

theorem value_absorb (register : UInt32) (data : Bytes) :
    (absorb register data).value = extend register data := by
  fun_induction absorb register data <;> simp_all [value, extend]

end Stream

end Checksum

end ResourcePack
