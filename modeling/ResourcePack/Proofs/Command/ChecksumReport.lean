import Mathlib.Data.Nat.Digits.Defs
import ResourcePack.Command.Run
import ResourcePack.Proofs.Document.Json.Printing
import ResourcePack.Proofs.Text.Digits

/-!
# Reports of a checksum

A checksum is reported in decimal and as eight hexadecimal digits, either on a line in front
of the name of the file or in a JSON document with members for the three.
-/

namespace ResourcePack

namespace Command

/-- The hexadecimal digits of a checksum, all eight of them. -/
structure IsHex (checksum : UInt32) (digits : List Char) : Prop where
  length : digits.length = 8
  capital : ∀ c ∈ digits, c ∈ "0123456789ABCDEF".toList
  number : Text.number 16 digits = checksum.toNat

/-- Whether a text reports the checksum of a file, on a line or as a JSON document. -/
def Reports (file : Path) (checksum : UInt32) (json : Bool) (text : String) : Prop :=
  ∃ digits, IsHex checksum digits ∧
    match json with
    | false => text = s!"{checksum.toNat} (0x{String.ofList digits}) {file.text}\n"
    | true => Json.parse? text = some (.object [("crc", .nat checksum.toNat),
        ("file", .str file.text), ("hex", .str ("0x" ++ String.ofList digits))])

theorem hex_eq (checksum : UInt32) :
    ∃ digits, IsHex checksum digits ∧ hex checksum = "0x" ++ String.ofList digits := by
  have few : ((Nat.toDigits 16 checksum.toNat).map Char.toUpper).length ≤ 8 := by
    rw [List.length_map]
    exact Nat.toDigits_length 16 checksum.toNat 8 (by decide) checksum.toNat_lt
  have capital : ∀ d < 16, (Nat.digitChar d).toUpper ∈ "0123456789ABCDEF".toList := by decide
  refine ⟨_, ⟨?_, ?_, ?_⟩, rfl⟩
  · rw [List.length_append, List.length_replicate]
    omega
  · intro c mem
    obtain zero | mem := List.mem_append.mp mem
    · rw [(List.mem_replicate.mp zero).2]
      decide
    · obtain ⟨digit, written, rfl⟩ := List.mem_map.mp mem
      obtain ⟨d, small, rfl⟩ := Text.exists_digitChar_of_mem_toDigits written
      exact capital d small
  · rw [Text.number_append_zeros, Text.number_toUpper_toDigits]

theorem reports_crcText (json : Bool) (file : Path) (checksum : UInt32) :
    Reports file checksum json (crcText json file checksum) := by
  obtain ⟨digits, isHex, written⟩ := hex_eq checksum
  refine ⟨digits, isHex, ?_⟩
  cases json with
  | false =>
      have opening : " (0x" = " (" ++ "0x" := rfl
      have decimal : toString checksum = toString checksum.toNat := rfl
      simp only [crcText, written, opening, decimal, String.append_assoc, Bool.false_eq_true,
        if_false]
      rfl
  | true =>
      refine Json.parse?_eq_some_iff.mpr ?_
      rw [← written]
      refine (Document.Plain.spelled_pretty ?_).append_newline
      refine Document.plain_object_iff.mpr ?_
      simp only [List.forall_mem_cons]
      exact ⟨.integer _, .text _, .text _, by simp⟩

end Command

end ResourcePack
