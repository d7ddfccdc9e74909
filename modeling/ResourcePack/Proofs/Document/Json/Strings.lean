import ResourcePack.Document.Json.Grammar
import ResourcePack.Proofs.Text.Digits

/-!
# Strings in JSON

What is read between quotes is the text whose UTF-16 units are spelled there. `text?` finds
it by putting the halves of surrogate pairs together; while a string is read, the half that
came last is kept for this.
-/

namespace ResourcePack

namespace Json

/-! ## UTF-16 -/

/-- The characters whose units are given, if there are any. -/
def text? : List Nat → Option (List Char)
  | [] => some []
  | code :: codes =>
    if isHighSurrogate code then
      match codes with
      | low :: codes =>
        if isLowSurrogate low then (text? codes).map (paired code low :: ·) else none
      | [] => none
    else if isLowSurrogate code then none
    else (text? codes).map (Char.ofNat code :: ·)

theorem isHighSurrogate_iff {code : Nat} :
    isHighSurrogate code = true ↔ 0xD800 ≤ code ∧ code < 0xDC00 := by
  simp [isHighSurrogate]

theorem isLowSurrogate_iff {code : Nat} :
    isLowSurrogate code = true ↔ 0xDC00 ≤ code ∧ code < 0xE000 := by
  simp [isLowSurrogate]

theorem toNat_ofNat {code : Nat} (valid : code.isValidChar) : (Char.ofNat code).toNat = code := by
  rw [Char.ofNat, dif_pos valid]
  rfl

theorem units_ofNat {code : Nat} (small : code < 0x10000) (high : isHighSurrogate code = false)
    (low : isLowSurrogate code = false) : units (Char.ofNat code) = [code] := by
  have valid : code.isValidChar := by
    rw [Bool.eq_false_iff, ne_eq, isHighSurrogate_iff] at high
    rw [Bool.eq_false_iff, ne_eq, isLowSurrogate_iff] at low
    rw [Nat.isValidChar]
    omega
  rw [units, toNat_ofNat valid, if_pos small]

theorem units_paired {high low : Nat} (isHigh : isHighSurrogate high = true)
    (isLow : isLowSurrogate low = true) : units (paired high low) = [high, low] := by
  rw [isHighSurrogate_iff] at isHigh
  rw [isLowSurrogate_iff] at isLow
  have valid : (0x10000 + (high - 0xD800) * 0x400 + (low - 0xDC00)).isValidChar := by
    rw [Nat.isValidChar]
    omega
  rw [units, paired, toNat_ofNat valid, if_neg (by omega)]
  have first : 0xD800 + (0x10000 + (high - 0xD800) * 0x400 + (low - 0xDC00) - 0x10000) / 0x400 =
      high := by omega
  have second : 0xDC00 + (0x10000 + (high - 0xD800) * 0x400 + (low - 0xDC00) - 0x10000) % 0x400 =
      low := by omega
  rw [first, second]

/-- A character has one unit that is no half of a pair, or the two halves of one. -/
theorem units_cases (c : Char) :
    (∃ code, units c = [code] ∧ isHighSurrogate code = false ∧ isLowSurrogate code = false ∧
      Char.ofNat code = c) ∨
    ∃ high low, units c = [high, low] ∧ isHighSurrogate high = true ∧
      isLowSurrogate low = true ∧ paired high low = c := by
  have valid : c.toNat.isValidChar := c.valid
  rw [Nat.isValidChar] at valid
  by_cases small : c.toNat < 0x10000
  · refine .inl ⟨c.toNat, if_pos small, ?_, ?_, c.ofNat_toNat⟩
    · rw [Bool.eq_false_iff, ne_eq, isHighSurrogate_iff]
      omega
    · rw [Bool.eq_false_iff, ne_eq, isLowSurrogate_iff]
      omega
  · refine .inr ⟨_, _, if_neg small, ?_, ?_, ?_⟩
    · rw [isHighSurrogate_iff]
      omega
    · rw [isLowSurrogate_iff]
      omega
    · have same : 0x10000 + (0xD800 + (c.toNat - 0x10000) / 0x400 - 0xD800) * 0x400 +
          (0xDC00 + (c.toNat - 0x10000) % 0x400 - 0xDC00) = c.toNat := by omega
      rw [paired, same, Char.ofNat_toNat]

/-- The second half of a pair is no text without the first. -/
theorem text?_low_cons {low : Nat} (isLow : isLowSurrogate low = true) (codes : List Nat) :
    text? (low :: codes) = none := by
  have notHigh : isHighSurrogate low = false := by
    rw [isLowSurrogate_iff] at isLow
    rw [Bool.eq_false_iff, ne_eq, isHighSurrogate_iff]
    omega
  rw [text?.eq_def]
  simp [notHigh, isLow]

theorem text?_units_append (c : Char) (codes : List Nat) :
    text? (units c ++ codes) = (text? codes).map (c :: ·) := by
  obtain ⟨code, only, high, low, same⟩ | ⟨high, low, both, isHigh, isLow, same⟩ := units_cases c
  · rw [only, List.singleton_append, text?.eq_def]
    simp [high, low, same]
  · rw [both, List.cons_append, List.singleton_append, text?]
    simp [isHigh, isLow, same]

theorem not_isLowSurrogate {code : Nat} (isHigh : isHighSurrogate code = true) :
    isLowSurrogate code = false := by
  rw [isHighSurrogate_iff] at isHigh
  rw [Bool.eq_false_iff, ne_eq, isLowSurrogate_iff]
  omega

/-- A pair that is not completed is no text. -/
theorem text?_high_units_append {high : Nat} (isHigh : isHighSurrogate high = true) (c : Char)
    (codes : List Nat) : text? (high :: (units c ++ codes)) = none := by
  obtain ⟨code, only, -, low, -⟩ | ⟨next, low, both, isNext, -⟩ := units_cases c
  · rw [only, List.singleton_append, text?]
    simp [isHigh, low]
  · rw [both, List.cons_append, text?]
    simp [isHigh, not_isLowSurrogate isNext]

theorem text?_flatMap_units (text : List Char) : text? (text.flatMap units) = some text := by
  induction text with
  | nil => rfl
  | cons c text ih => rw [List.flatMap_cons, text?_units_append, ih, Option.map_some]

theorem eq_flatMap_units_of_text? {codes : List Nat} (small : ∀ code ∈ codes, code < 0x10000)
    {text : List Char} (found : text? codes = some text) : codes = text.flatMap units := by
  fun_induction text? codes generalizing text with
  | case1 =>
      cases found
      rfl
  | case2 high isHigh low codes isLow ih =>
      obtain ⟨rest, later, rfl⟩ := Option.map_eq_some_iff.mp found
      rw [List.flatMap_cons, units_paired isHigh isLow, List.cons_append, List.singleton_append,
        ← ih (fun code mem => small code (by simp [mem])) later]
  | case3 | case4 | case5 => cases found
  | case6 code codes high low ih =>
      obtain ⟨rest, later, rfl⟩ := Option.map_eq_some_iff.mp found
      rw [List.flatMap_cons, units_ofNat (small code (by simp)) (by simpa using high)
        (by simpa using low), List.singleton_append,
        ← ih (fun code mem => small code (by simp [mem])) later]

/-! ## Between quotes -/

theorem lt_of_unit? {a b c d : Char} {code : Nat} (read : unit? a b c d = some code) :
    code < 0x10000 := by
  simp only [unit?, Option.bind_eq_bind, Option.bind_eq_some_iff, Option.pure_def,
    Option.some_inj] at read
  obtain ⟨first, readA, second, readB, third, readC, fourth, readD, rfl⟩ := read
  have ltA := Text.hexValue?_lt readA
  have ltB := Text.hexValue?_lt readB
  have ltC := Text.hexValue?_lt readC
  have ltD := Text.hexValue?_lt readD
  omega

theorem lt_of_units {c : Char} : ∀ code ∈ units c, code < 0x10000 := by
  have valid : c.toNat.isValidChar := c.valid
  rw [Nat.isValidChar] at valid
  intro code mem
  rw [units] at mem
  split at mem
  · rw [List.mem_singleton] at mem
    omega
  · simp only [List.mem_cons, List.not_mem_nil, or_false] at mem
    omega

theorem Inside.small {codes : List Nat} {inside : List Char} (spelled : Inside codes inside) :
    ∀ code ∈ codes, code < 0x10000 := by
  induction spelled with
  | nil => simp
  | plain _ _ _ _ ih | short _ _ ih =>
      intro code mem
      exact (List.mem_append.mp mem).elim (lt_of_units code) (ih code)
  | unit read _ ih => exact List.forall_mem_cons.mpr ⟨lt_of_unit? read, ih⟩

/-- The text that units stand for, with what was read before them: some characters, the
last one first, and perhaps half of a pair. -/
def finish (done : List Char) (whole : Bool) (high : Option Nat) (codes : List Nat) :
    Option String :=
  if whole then (text? (high.toList ++ codes)).map fun text => String.ofList (done.reverse ++ text)
  else none

variable {done : List Char} {whole : Bool} {high : Option Nat} {codes : List Nat}

theorem finish_nil (isHigh : ∀ code ∈ high, isHighSurrogate code = true) :
    finish done whole high [] =
      if whole && high.isNone then some (String.ofList done.reverse) else none := by
  cases high with
  | none => simp [finish, text?]
  | some high => simp [finish, text?, isHigh high rfl]

/-- A character goes to the others, and there is no text if half of a pair comes before. -/
theorem finish_units_append (isHigh : ∀ code ∈ high, isHighSurrogate code = true) (c : Char) :
    finish done whole high (units c ++ codes) =
      finish (c :: done) (whole && high.isNone) none codes := by
  cases high with
  | none =>
      simp only [finish, Option.toList_none, List.nil_append, text?_units_append, Option.map_map]
      cases whole <;> simp [Function.comp_def]
  | some high =>
      simp only [finish, Option.toList_some, List.singleton_append,
        text?_high_units_append (isHigh high rfl)]
      simp

theorem finish_high {code : Nat} (isHigh : ∀ code ∈ high, isHighSurrogate code = true)
    (codeHigh : isHighSurrogate code = true) :
    finish done whole high (code :: codes) =
      finish done (whole && high.isNone) (some code) codes := by
  cases high with
  | none => simp [finish]
  | some high =>
      have notLow : isLowSurrogate code = false := not_isLowSurrogate codeHigh
      simp [finish, text?, isHigh high rfl, notLow]

theorem finish_low {code : Nat} (isHigh : ∀ code ∈ high, isHighSurrogate code = true)
    (low : isLowSurrogate code = true) :
    finish done whole high (code :: codes) =
      match high with
      | some high => finish (paired high code :: done) whole none codes
      | none => finish done false none codes := by
  cases high with
  | none => simp [finish, text?_low_cons low]
  | some high =>
      simp only [finish, Option.toList_some, List.singleton_append, text?, isHigh high rfl, low]
      cases whole <;> simp [Function.comp_def]

/-! ## Reading -/

theorem stringFrom?_short {letter c : Char} (short : shortEscape? letter = some c)
    (rest : List Char) :
    stringFrom? done whole high ('\\' :: letter :: rest) =
      stringFrom? (c :: done) (whole && high.isNone) none rest := by
  rw [stringFrom?]
  · simp [short]
  · rintro a b c d rest rfl -
    cases short

/-- What is spelled between quotes is read up to the closing one. -/
theorem stringFrom?_append {inside : List Char} (spelled : Inside codes inside)
    (isHigh : ∀ code ∈ high, isHighSurrogate code = true) (rest : List Char) :
    stringFrom? done whole high (inside ++ '"' :: rest) =
      some (finish done whole high codes, rest) := by
  -- The half that is kept stands in front of the units that are still to come.
  induction spelled generalizing done whole high with
  | nil => rw [List.nil_append, stringFrom?, finish_nil isHigh]
  | plain visible noQuote noBackslash _ ih =>
      rw [List.cons_append, stringFrom?_plain visible noQuote noBackslash, ih (by simp),
        finish_units_append isHigh]
  | short short _ ih =>
      rw [List.cons_append, List.cons_append, stringFrom?_short short, ih (by simp),
        finish_units_append isHigh]
  | @unit _ _ _ _ code _ _ read spelled ih =>
      simp only [List.cons_append, stringFrom?, read]
      split
      · next codeHigh => rw [ih (by simpa using codeHigh), finish_high isHigh codeHigh]
      · next codeHigh =>
        split
        · next codeLow =>
          rw [finish_low isHigh codeLow]
          cases high with
          | none => exact ih (by simp)
          | some high => exact ih (by simp)
        · next codeLow =>
          have only := units_ofNat (lt_of_unit? read) (by simpa using codeHigh)
            (by simpa using codeLow)
          rw [ih (by simp), ← finish_units_append isHigh, only, List.singleton_append]

/-- What is read has a spelling of units before the closing quote. -/
theorem inside_of_stringFrom? {input rest : List Char} {value : Option String}
    (read : stringFrom? done whole high input = some (value, rest)) :
    ∃ codes inside, Inside codes inside ∧ input = inside ++ '"' :: rest := by
  fun_induction stringFrom? done whole high input
  case case1 =>
    cases read
    exact ⟨[], [], .nil, rfl⟩
  case case2 | case7 | case9 | case11 => cases read
  case case3 unit _ ih | case4 unit _ _ _ ih | case5 unit _ _ ih | case6 unit _ _ ih =>
    obtain ⟨codes, inside, spelled, rfl⟩ := ih read
    exact ⟨_, _, .unit unit spelled, rfl⟩
  case case8 short ih =>
    obtain ⟨codes, inside, spelled, rfl⟩ := ih read
    exact ⟨_, _, .short short spelled, rfl⟩
  case case10 c tail noQuote _ notShort visible ih =>
    obtain ⟨codes, inside, spelled, rfl⟩ := ih read
    -- A backslash has a character behind it, the closing quote if no other.
    have noBackslash : c ≠ '\\' := by
      rintro rfl
      cases inside with
      | nil => exact notShort _ _ rfl rfl
      | cons _ _ => exact notShort _ _ rfl rfl
    exact ⟨_, _, .plain (Nat.not_lt.mp visible) (by simpa using noQuote) noBackslash spelled, rfl⟩

theorem finish_start (codes : List Nat) :
    finish [] true none codes = (text? codes).map String.ofList := by
  simp [finish]

/-- A string is read up to its end. -/
theorem string?_of_quoted {value : Option String} {text : List Char} (quoted : Quoted value text)
    (rest : List Char) :
    ∃ inside, text = '"' :: inside ∧ string? (inside ++ rest) = some (value, rest) := by
  cases quoted with
  | @text value inside spelled =>
      refine ⟨inside ++ ['"'], rfl, ?_⟩
      rw [string?, List.append_assoc, List.singleton_append,
        stringFrom?_append spelled (by simp), finish_start, text?_flatMap_units]
      simp
  | @noText codes inside spelled other =>
      refine ⟨inside ++ ['"'], rfl, ?_⟩
      have none : text? codes = none := by
        refine Option.eq_none_iff_forall_ne_some.mpr fun text found => ?_
        refine other (String.ofList text) ?_
        rw [String.toList_ofList]
        exact eq_flatMap_units_of_text? spelled.small found
      rw [string?, List.append_assoc, List.singleton_append,
        stringFrom?_append spelled (by simp), finish_start, none, Option.map_none]

/-- What is read is a string. -/
theorem quoted_of_string? {input rest : List Char} {value : Option String}
    (read : string? input = some (value, rest)) :
    ∃ inside, Quoted value ('"' :: inside) ∧ input = inside ++ rest := by
  obtain ⟨codes, inside, spelled, rfl⟩ := inside_of_stringFrom? read
  rw [string?, stringFrom?_append spelled (by simp), finish_start] at read
  refine ⟨inside ++ ['"'], ?_, by simp⟩
  cases found : text? codes with
  | none =>
      simp only [found, Option.map_none, Option.some_inj, Prod.mk.injEq, and_true] at read
      subst read
      refine .noText spelled fun value same => ?_
      rw [same, text?_flatMap_units] at found
      cases found
  | some text =>
      simp only [found, Option.map_some, Option.some_inj, Prod.mk.injEq, and_true] at read
      subst read
      rw [eq_flatMap_units_of_text? spelled.small found] at spelled
      exact .text (by rwa [String.toList_ofList])

end Json

end ResourcePack
