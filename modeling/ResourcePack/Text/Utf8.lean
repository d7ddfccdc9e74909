import ResourcePack.Bytes

/-!
# UTF-8

`encode` writes a string as bytes. `decode?` reads bytes back and refuses whatever no
string encodes to: stray continuation bytes, overlong forms, surrogates and numbers past
`0x10FFFF`.
-/

namespace ResourcePack

namespace Utf8

def encode (text : String) : Bytes :=
  text.toList.flatMap String.utf8EncodeChar

/-- The six bits a continuation byte carries. -/
def tailBits? (byte : UInt8) : Option UInt32 :=
  if byte &&& 0xC0 = 0x80 then some (byte &&& 0x3F).toUInt32 else none

/-- The character numbered `code`, if its shortest form is as long as the one read. -/
def char? (least code : UInt32) : Option Char :=
  if h : code.isValidChar then
    if least ≤ code then some ⟨code, h⟩ else none
  else none

def char2? (a b : UInt8) : Option Char := do
  char? 0x80 ((a &&& 0x1F).toUInt32 <<< 6 ||| (← tailBits? b))

def char3? (a b c : UInt8) : Option Char := do
  char? 0x800 ((a &&& 0x0F).toUInt32 <<< 12 ||| (← tailBits? b) <<< 6 ||| (← tailBits? c))

def char4? (a b c d : UInt8) : Option Char := do
  char? 0x10000 ((a &&& 0x07).toUInt32 <<< 18 ||| (← tailBits? b) <<< 12
    ||| (← tailBits? c) <<< 6 ||| (← tailBits? d))

/-- Read characters until the bytes end; `done` holds those read so far, the last one
first. -/
def decodeFrom (done : List Char) : Bytes → Option (List Char)
  | [] => some done.reverse
  | a :: rest =>
    if a &&& 0x80 = 0 then decodeFrom (Char.ofUInt8 a :: done) rest
    else if a &&& 0xE0 = 0xC0 then
      match rest with
      | b :: rest =>
        match char2? a b with
        | some c => decodeFrom (c :: done) rest
        | none => none
      | _ => none
    else if a &&& 0xF0 = 0xE0 then
      match rest with
      | b :: c :: rest =>
        match char3? a b c with
        | some c => decodeFrom (c :: done) rest
        | none => none
      | _ => none
    else if a &&& 0xF8 = 0xF0 then
      match rest with
      | b :: c :: d :: rest =>
        match char4? a b c d with
        | some c => decodeFrom (c :: done) rest
        | none => none
      | _ => none
    else none

/-- The string that `data` encodes, if there is one. -/
def decode? (data : Bytes) : Option String :=
  (decodeFrom [] data).map String.ofList

example : decode? (encode "aé€😀") = some "aé€😀" := by decide

example : decode? [0xC0, 0x80] = none ∧ decode? [0xED, 0xA0, 0x80] = none := by decide

end Utf8

end ResourcePack
