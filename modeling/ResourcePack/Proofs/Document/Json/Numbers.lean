import Mathlib.Data.List.TakeWhile
import ResourcePack.Document.Json.Grammar

/-!
# Numbers in JSON

A number is read as far as it goes: it ends before the first character that cannot belong
to it. Its parts are read one after the other, and each of them is spelled where it was
read.
-/

namespace ResourcePack

namespace Json

/-- Whether no number goes on with a text. -/
def Ends (text : List Char) : Prop :=
  ∀ c ∈ text.head?, c.isDigit = false ∧ c ≠ '.' ∧ c ≠ 'e' ∧ c ≠ 'E'

theorem span_digits {digits rest : List Char} (all : ∀ c ∈ digits, c.isDigit = true)
    (stop : ∀ c ∈ rest.head?, c.isDigit = false) :
    (digits ++ rest).takeWhile Char.isDigit = digits ∧
      (digits ++ rest).dropWhile Char.isDigit = rest := by
  rw [List.takeWhile_append_of_pos all, List.dropWhile_append_of_pos all]
  cases rest with
  | nil => simp
  | cons c rest => simp [stop c rfl]

/-- The digits a text starts with. -/
theorem digits_takeWhile {text : List Char} (some : text.takeWhile Char.isDigit ≠ []) :
    Digits (text.takeWhile Char.isDigit) :=
  ⟨some, fun _ mem => List.mem_takeWhile_imp mem⟩

/-! ## Parts -/

theorem fraction?_append {fraction rest : List Char} (part : Fraction fraction)
    (stop : ∀ c ∈ rest.head?, c.isDigit = false ∧ c ≠ '.') :
    fraction? (fraction ++ rest) = some (fraction, rest) := by
  cases part with
  | none =>
      rw [List.nil_append, fraction?]
      rintro rest' rfl
      exact (stop '.' rfl).2 rfl
  | some digits =>
      obtain ⟨taken, left⟩ := span_digits digits.all fun c mem => (stop c mem).1
      rw [List.cons_append, fraction?]
      simp [taken, left, digits.ne_nil]

theorem fraction_of_fraction? {text fraction rest : List Char}
    (read : fraction? text = some (fraction, rest)) :
    Fraction fraction ∧ text = fraction ++ rest := by
  unfold fraction? at read
  split at read
  · next rest' =>
      simp only at read
      split at read
      · cases read
      · next some =>
          cases read
          exact ⟨.some (digits_takeWhile (by simpa using some)),
            by rw [List.cons_append, List.takeWhile_append_dropWhile]⟩
  · cases read
    exact ⟨.none, rfl⟩

theorem sign_append {mark digits : List Char}
    (isSign : mark = [] ∨ mark = ['+'] ∨ mark = ['-']) (isDigits : Digits digits)
    (rest : List Char) : sign (mark ++ digits ++ rest) = (mark, digits ++ rest) := by
  obtain rfl | rfl | rfl := isSign
  · cases digits with
    | nil => exact absurd rfl isDigits.ne_nil
    | cons c digits =>
        have digit := isDigits.all c (by simp)
        rw [List.nil_append, List.cons_append, sign]
        · rintro _ same
          cases same
          cases digit
        · rintro _ same
          cases same
          cases digit
  · rfl
  · rfl

theorem exponent?_append {exponent rest : List Char} (part : Exponent exponent)
    (stop : Ends rest) : exponent? (exponent ++ rest) = some (exponent, rest) := by
  cases part with
  | none =>
      cases rest with
      | nil => rfl
      | cons c rest =>
          obtain ⟨-, -, lower, upper⟩ := stop c rfl
          simp [exponent?, lower, upper]
  | @some e mark digits letter isSign isDigits =>
      obtain ⟨taken, left⟩ := span_digits isDigits.all fun c mem => (stop c mem).1
      have parts := sign_append isSign isDigits rest
      rw [List.cons_append, List.cons_append, exponent?, if_pos letter, parts]
      simp [taken, left, isDigits.ne_nil]

theorem sign_spec (text : List Char) :
    ((sign text).1 = [] ∨ (sign text).1 = ['+'] ∨ (sign text).1 = ['-']) ∧
      text = (sign text).1 ++ (sign text).2 := by
  unfold sign
  split <;> simp

theorem exponent_of_exponent? {text exponent rest : List Char}
    (read : exponent? text = some (exponent, rest)) :
    Exponent exponent ∧ text = exponent ++ rest := by
  unfold exponent? at read
  split at read
  · next e tail =>
      split at read
      · next letter =>
          obtain ⟨isSign, whole⟩ := sign_spec tail
          simp only at read
          split at read
          · cases read
          · next some =>
              cases read
              refine ⟨.some letter isSign (digits_takeWhile (by simpa using some)), ?_⟩
              rw [List.cons_append, List.cons_append, List.append_assoc,
                List.takeWhile_append_dropWhile, ← whole]
      · cases read
        exact ⟨.none, rfl⟩
  · cases read
    exact ⟨.none, rfl⟩

theorem Exponent.head {exponent rest : List Char} (part : Exponent exponent) (stop : Ends rest) :
    ∀ c ∈ (exponent ++ rest).head?, c.isDigit = false ∧ c ≠ '.' := by
  cases part with
  | none => exact fun c mem => ⟨(stop c mem).1, (stop c mem).2.1⟩
  | some letter _ _ =>
      intro c mem
      cases mem
      obtain rfl | rfl := letter <;> decide

theorem Fraction.head {fraction rest : List Char} (part : Fraction fraction)
    (stop : ∀ c ∈ rest.head?, c.isDigit = false ∧ c ≠ '.') :
    ∀ c ∈ (fraction ++ rest).head?, c.isDigit = false := by
  cases part with
  | none => exact fun c mem => (stop c mem).1
  | some _ =>
      intro c mem
      cases mem
      decide

theorem isWhole_iff {digits : List Char} (all : ∀ c ∈ digits, c.isDigit = true) :
    isWhole digits = true ↔ Whole digits := by
  unfold isWhole
  split
  · exact iff_of_false (by simp) fun whole => whole.ne_nil rfl
  · exact iff_of_true rfl ⟨⟨by simp, all⟩, fun _ => rfl⟩
  · next first rest notZero =>
      constructor
      · intro first
        exact ⟨⟨by simp, all⟩, fun zero => absurd (by simpa using zero) (of_decide_eq_true first)⟩
      · intro whole
        refine decide_eq_true ?_
        rintro rfl
        cases whole.zero rfl
        exact notZero rfl rfl

/-! ## Numbers -/

/-- The document that a number is. -/
def numeral (minus whole fraction exponent : List Char) : Document :=
  if fraction = [] ∧ exponent = [] ∧ (minus = [] ∨ Text.number 10 whole ≠ 0) then
    .integer (if minus = [] then Text.number 10 whole else -Text.number 10 whole)
  else .number (String.ofList (minus ++ whole ++ fraction ++ exponent))

/-- A number is made of its parts. -/
theorem number_iff {document : Document} {text : List Char} :
    Number document text ↔
      ∃ minus whole fraction exponent, (minus = [] ∨ minus = ['-']) ∧ Whole whole ∧
        Fraction fraction ∧ Exponent exponent ∧ text = minus ++ whole ++ fraction ++ exponent ∧
        document = numeral minus whole fraction exponent := by
  constructor
  · intro number
    cases number with
    | nat isWhole =>
        exact ⟨[], _, [], [], .inl rfl, isWhole, .none, .none, by simp, by simp [numeral]⟩
    | negative isWhole nonzero =>
        exact ⟨['-'], _, [], [], .inr rfl, isWhole, .none, .none, by simp,
          by simp [numeral, nonzero]⟩
    | other isMinus isWhole isFraction isExponent other =>
        refine ⟨_, _, _, _, isMinus, isWhole, isFraction, isExponent, rfl, ?_⟩
        rw [numeral, if_neg]
        rw [not_and_or, not_and_or, not_or, not_not]
        exact other
  · rintro ⟨minus, whole, fraction, exponent, isMinus, isWhole, isFraction, isExponent, rfl, rfl⟩
    unfold numeral
    split
    · next integer =>
        obtain ⟨rfl, rfl, nonzero⟩ := integer
        obtain rfl | rfl := isMinus
        · simpa using Number.nat isWhole
        · simpa using Number.negative isWhole (by simpa using nonzero)
    · next other =>
        rw [not_and_or, not_and_or, not_or, not_not] at other
        exact .other isMinus isWhole isFraction isExponent other

/-- The minus a text starts with, if any, and what is behind it. -/
def splitMinus (text : List Char) : List Char × List Char :=
  match text with
  | '-' :: rest => (['-'], rest)
  | _ => ([], text)

theorem number?_eq (text : List Char) :
    number? text =
      (if !isWhole ((splitMinus text).2.takeWhile Char.isDigit) then none
      else do
        let (fraction, rest) ← fraction? ((splitMinus text).2.dropWhile Char.isDigit)
        let (exponent, rest) ← exponent? rest
        some (numeral (splitMinus text).1 ((splitMinus text).2.takeWhile Char.isDigit) fraction
          exponent, rest)) := by
  have last : ∀ (minus whole fraction exponent rest : List Char),
      (if fraction.isEmpty && exponent.isEmpty && (minus.isEmpty || Text.number 10 whole ≠ 0) then
        return (.integer (if minus.isEmpty then Text.number 10 whole else -Text.number 10 whole),
          rest)
      else return (.number (String.ofList (minus ++ whole ++ fraction ++ exponent)), rest) :
        Option (Document × List Char)) =
      some (numeral minus whole fraction exponent, rest) := by
    intro minus whole fraction exponent rest
    simp only [numeral, List.isEmpty_iff, Bool.and_eq_true, Bool.or_eq_true, decide_eq_true_eq,
      and_assoc]
    split <;> rfl
  unfold splitMinus
  split
  · simp only [number?, last]
  · simp only [number?, last]

theorem splitMinus_append {minus whole : List Char} (isMinus : minus = [] ∨ minus = ['-'])
    (isWhole : Whole whole) (rest : List Char) :
    splitMinus (minus ++ whole ++ rest) = (minus, whole ++ rest) := by
  obtain rfl | rfl := isMinus
  · cases whole with
    | nil => exact absurd rfl isWhole.ne_nil
    | cons c whole =>
        rw [List.nil_append, List.cons_append, splitMinus]
        rintro _ same
        cases same
        cases isWhole.all '-' (by simp)
  · rfl

theorem splitMinus_spec (text : List Char) :
    ((splitMinus text).1 = [] ∨ (splitMinus text).1 = ['-']) ∧
      text = (splitMinus text).1 ++ (splitMinus text).2 := by
  unfold splitMinus
  split <;> simp

/-- A number is read up to its end. -/
theorem number?_of_number {document : Document} {text rest : List Char}
    (number : Number document text) (stop : Ends rest) :
    number? (text ++ rest) = some (document, rest) := by
  obtain ⟨minus, whole, fraction, exponent, isMinus, isWhole, isFraction, isExponent, rfl, rfl⟩ :=
    number_iff.mp number
  have parts : minus ++ whole ++ fraction ++ exponent ++ rest =
      minus ++ whole ++ (fraction ++ (exponent ++ rest)) := by simp
  obtain ⟨taken, left⟩ := span_digits isWhole.all (isFraction.head (isExponent.head stop))
  rw [number?_eq, parts, splitMinus_append isMinus isWhole, taken, left,
    (isWhole_iff isWhole.all).mpr isWhole, fraction?_append isFraction (isExponent.head stop)]
  simp [exponent?_append isExponent stop]

/-- What is read is a number. -/
theorem number_of_number? {document : Document} {text rest : List Char}
    (read : number? text = some (document, rest)) :
    ∃ used, Number document used ∧ text = used ++ rest := by
  rw [number?_eq] at read
  split at read
  · cases read
  · next isWhole' =>
      obtain ⟨⟨fraction, rest'⟩, readFraction, read⟩ := Option.bind_eq_some_iff.mp read
      obtain ⟨⟨exponent, rest''⟩, readExponent, read⟩ := Option.bind_eq_some_iff.mp read
      cases read
      obtain ⟨isFraction, behind⟩ := fraction_of_fraction? readFraction
      obtain ⟨isExponent, rfl⟩ := exponent_of_exponent? readExponent
      obtain ⟨isMinus, parts⟩ := splitMinus_spec text
      refine ⟨_, number_iff.mpr ⟨_, _, _, _, isMinus, (isWhole_iff ?_).mp (by simpa using isWhole'),
        isFraction, isExponent, rfl, rfl⟩, ?_⟩
      · exact fun _ mem => List.mem_takeWhile_imp mem
      · rw [List.append_assoc, List.append_assoc, ← behind, List.append_assoc,
          List.takeWhile_append_dropWhile, ← parts]

end Json

end ResourcePack
