import ResourcePack.Document.Printer
import ResourcePack.Proofs.Document.Json.Reading

/-!
# What is written as JSON

A document without dates is spelled when it is written, on one line or on several, so that
it is read back as it is. Lists and records are written alike in both ways: with something
in front of every item, a comma between them, and blanks that do not matter.
-/

namespace ResourcePack

namespace Json

/-! ## Strings -/

theorem unit?_hexDigit : ∀ code < 0x20,
    unit? '0' '0' (Document.hexDigit (code / 16)) (Document.hexDigit (code % 16)) = some code := by
  decide

/-- A character is spelled as it is written in quotes. -/
theorem Inside.escape {codes : List Nat} {text : List Char} (c : Char)
    (inside : Inside codes text) : Inside (units c ++ codes) (Document.escape c ++ text) := by
  unfold Document.escape
  split
  case h_8 noQuote noBackslash _ _ _ _ _ =>
    split
    · next control =>
        have only : units c = [c.toNat] := if_pos (by omega)
        rw [only]
        exact .unit (unit?_hexDigit c.toNat control) inside
    · next visible => exact .plain (Nat.not_lt.mp visible) noQuote noBackslash inside
  all_goals exact .short rfl inside

theorem quoted_quote (value : Option String) : Quoted value (Document.quote value).toList := by
  cases value with
  | some value =>
      have inside : ∀ text : List Char,
          Inside (text.flatMap units) (text.flatMap Document.escape) := by
        intro text
        induction text with
        | nil => exact .nil
        | cons c text ih => exact ih.escape c
      have shape : (Document.quote (some value)).toList =
          '"' :: value.toList.flatMap Document.escape ++ ['"'] := by
        simp [Document.quote]
      rw [shape]
      exact .text (inside value.toList)
  | none =>
      have half : Inside [0xD800] ['\\', 'u', 'd', '8', '0', '0'] := .unit (by decide) .nil
      refine .noText half fun value same => ?_
      have text := text?_flatMap_units value.toList
      rw [← same] at text
      exact absurd text (by simp [text?, isHighSurrogate])

/-! ## Numbers -/

theorem whole_toDigits (n : Nat) : Whole (Nat.toDigits 10 n) := by
  have digits : Digits (Nat.toDigits 10 n) :=
    ⟨Nat.toDigits_ne_nil, fun c mem => Nat.isDigit_of_mem_toDigits (by decide) (by decide) mem⟩
  refine ⟨digits, fun zero => ?_⟩
  rw [Text.eq_zero_of_head?_toDigits zero]
  rfl

theorem number_toString (n : Int) : Number (.integer n) (toString n).toList := by
  cases n with
  | ofNat n =>
      have shape : (toString (Int.ofNat n)).toList = Nat.toDigits 10 n := String.toList_ofList
      have number := Number.nat (whole_toDigits n)
      rw [Text.number_toDigits] at number
      rw [shape]
      exact number
  | negSucc n =>
      have shape : (toString (Int.negSucc n)).toList = '-' :: Nat.toDigits 10 (n + 1) := by
        simp [Int.toString_eq_repr, Int.repr, Nat.repr]
      have number := Number.negative (whole_toDigits (n + 1))
        (by rw [Text.number_toDigits]; omega)
      rw [Text.number_toDigits] at number
      rw [shape]
      exact number

/-! ## Lists and records -/

theorem noBlanks : Blanks [] := by
  simp [Blanks]

/-- The end of the last line counts as a blank. -/
theorem Spelled.append_newline {document : Document} {text : String}
    (spelled : Spelled document text) : Spelled document (text ++ "\n") := by
  obtain ⟨before, body, behind, only, spells, only', parts⟩ := spelled
  refine ⟨before, body, behind ++ ['\n'], only, spells, ?_, ?_⟩
  · rintro c mem
    obtain mem | mem := List.mem_append.mp mem
    · exact only' c mem
    · rw [List.mem_singleton.mp mem]
      rfl
  · simp [parts]

theorem Mark.bare (mark : Char) : Mark mark [mark] :=
  .mk noBlanks noBlanks

section Brackets

variable (lead colon : String) (write : Document → String)

/-- Items are spelled when they are written with blanks in front and commas between them. -/
theorem spells_items (join : List Document → String)
    (one : ∀ item, join [item] = lead ++ write item)
    (more : ∀ item next rest,
      join (item :: next :: rest) = lead ++ write item ++ "," ++ join (next :: rest))
    (blank : Blanks lead.toList) {items : List Document} (some : items ≠ [])
    (each : ∀ item ∈ items, Spells (.value item) (write item).toList) :
    ∃ text, (join items).toList = lead.toList ++ text ∧ Spells (.items items) text := by
  induction items with
  | nil => exact absurd rfl some
  | cons item rest ih =>
      have spells := each item (by simp)
      cases rest with
      | nil => exact ⟨_, by rw [one, String.toList_append], .item spells⟩
      | cons next rest =>
          obtain ⟨others, same, spells'⟩ := ih (by simp) fun item mem => each item (by simp [mem])
          have comma : Mark ',' ([] ++ ',' :: lead.toList) := .mk noBlanks blank
          refine ⟨_, ?_, .items spells comma spells'⟩
          simp [more, same]

/-- Members are spelled when they are written with blanks in front and commas between them. -/
theorem spells_members (join : List (Option String × Document) → String)
    (one : ∀ key value, join [(key, value)] = lead ++ Document.quote key ++ colon ++ write value)
    (more : ∀ key value next rest, join ((key, value) :: next :: rest) =
      lead ++ Document.quote key ++ colon ++ write value ++ "," ++ join (next :: rest))
    (blank : Blanks lead.toList) (mark : Mark ':' colon.toList)
    {members : List (Option String × Document)} (some : members ≠ [])
    (each : ∀ member ∈ members, Spells (.value member.2) (write member.2).toList) :
    ∃ text, (join members).toList = lead.toList ++ text ∧ Spells (.members members) text := by
  induction members with
  | nil => exact absurd rfl some
  | cons member rest ih =>
      obtain ⟨key, value⟩ := member
      have spells := each (key, value) (by simp)
      have quoted := quoted_quote key
      cases rest with
      | nil => exact ⟨_, by simp [one], .member quoted mark spells⟩
      | cons next rest =>
          obtain ⟨others, same, spells'⟩ :=
            ih (by simp) fun member mem => each member (by simp [mem])
          have comma : Mark ',' ([] ++ ',' :: lead.toList) := .mk noBlanks blank
          refine ⟨_, ?_, .members quoted mark spells comma spells'⟩
          simp [more, same]

end Brackets

end Json

namespace Document

open Json

/-- A document that JSON can write down as it is. -/
inductive Plain : Document → Prop where
  | null : Plain .null
  | bool (value : Bool) : Plain (.bool value)
  | integer (value : Int) : Plain (.integer value)
  | number {spelling : String} : Number (.number spelling) spelling.toList →
      Plain (.number spelling)
  | text (value : Option String) : Plain (.text value)
  | list {items : List Document} : (∀ item ∈ items, Plain item) → Plain (.list items)
  | record {members : List (Option String × Document)} :
      (∀ member ∈ members, Plain member.2) → Plain (.record members)

theorem plain_list_iff {items : List Document} :
    (list items).Plain ↔ ∀ item ∈ items, item.Plain := by
  constructor
  · intro plain
    cases plain with
    | list each => exact each
  · exact .list

theorem plain_object_iff {members : List (String × Document)} :
    (object members).Plain ↔ ∀ member ∈ members, member.2.Plain := by
  constructor
  · intro plain member mem
    cases plain with
    | record each => exact each _ (List.mem_map_of_mem mem)
  · intro each
    refine .record fun member mem => ?_
    obtain ⟨member, there, rfl⟩ := List.mem_map.mp mem
    exact each member there

theorem Plain.spells_compact {document : Document} (plain : document.Plain) :
    Spells (.value document) document.compact.toList := by
  induction plain with
  | null => exact .null
  | bool value =>
      cases value with
      | false => exact .isFalse
      | true => exact .isTrue
  | integer value => exact .number (number_toString value)
  | number number => exact .number number
  | text value => exact .text (quoted_quote value)
  | @list items _ ih =>
      by_cases none : items = []
      · subst none
        exact .noItems noBlanks
      · obtain ⟨text, same, spells⟩ := spells_items "" compact compactItems
          (by simp [compactItems]) (by simp [compactItems]) noBlanks none ih
        have shape : (compact (.list items)).toList = '[' :: [] ++ text ++ [] ++ [']'] := by
          simp [compact, same]
        rw [shape]
        exact .list noBlanks spells noBlanks
  | @record members _ ih =>
      by_cases none : members = []
      · subst none
        exact .noMembers noBlanks
      · obtain ⟨text, same, spells⟩ := spells_members "" ":" compact compactMembers
          (by simp [compactMembers]) (by simp [compactMembers]) noBlanks (.bare ':') none ih
        have shape : (compact (.record members)).toList =
            '\x7b' :: [] ++ text ++ [] ++ ['\x7d'] := by
          simp [compact, same]
        rw [shape]
        exact .record noBlanks spells noBlanks

theorem blanks_newline (level : Nat) : Blanks (newline level).toList := by
  intro c mem
  rw [newline, String.toList_ofList, List.mem_cons, List.mem_replicate] at mem
  obtain rfl | ⟨-, rfl⟩ := mem <;> decide

theorem prettyAt_list {items : List Document} (some : items ≠ []) (level : Nat) :
    prettyAt level (.list items) =
      "[" ++ prettyItems (level + 1) items ++ newline level ++ "]" := by
  rw [prettyAt]
  exact some

theorem prettyAt_record {members : List (Option String × Document)} (some : members ≠ [])
    (level : Nat) :
    prettyAt level (.record members) =
      "\x7b" ++ prettyMembers (level + 1) members ++ newline level ++ "\x7d" := by
  rw [prettyAt]
  exact some

theorem Plain.spells_prettyAt {document : Document} (plain : document.Plain) (level : Nat) :
    Spells (.value document) (document.prettyAt level).toList := by
  induction plain generalizing level with
  | null =>
      rw [prettyAt]
      exact .null
  | bool value =>
      rw [prettyAt]
      cases value with
      | false => exact .isFalse
      | true => exact .isTrue
  | integer value =>
      rw [prettyAt]
      exact .number (number_toString value)
  | number number =>
      rw [prettyAt]
      exact .number number
  | text value =>
      rw [prettyAt]
      exact .text (quoted_quote value)
  | @list items _ ih =>
      by_cases none : items = []
      · subst none
        rw [prettyAt]
        exact .noItems noBlanks
      · obtain ⟨text, same, spells⟩ := spells_items (newline (level + 1)) (prettyAt (level + 1))
          (prettyItems (level + 1)) (by simp [prettyItems]) (by simp [prettyItems])
          (blanks_newline _) none fun item mem => ih item mem _
        have shape : (prettyAt level (.list items)).toList =
            '[' :: (newline (level + 1)).toList ++ text ++ (newline level).toList ++ [']'] := by
          rw [prettyAt_list none]
          simp [same]
        rw [shape]
        exact .list (blanks_newline _) spells (blanks_newline _)
  | @record members _ ih =>
      by_cases none : members = []
      · subst none
        rw [prettyAt]
        exact .noMembers noBlanks
      · have colon : Mark ':' ([] ++ ':' :: [' ']) := .mk noBlanks (by simp [Blanks, isBlank])
        obtain ⟨text, same, spells⟩ := spells_members (newline (level + 1)) ": "
          (prettyAt (level + 1)) (prettyMembers (level + 1)) (by simp [prettyMembers])
          (by simp [prettyMembers]) (blanks_newline _) colon none fun member mem => ih member mem _
        have shape : (prettyAt level (.record members)).toList =
            '\x7b' :: (newline (level + 1)).toList ++ text ++ (newline level).toList ++
              ['\x7d'] := by
          rw [prettyAt_record none]
          simp [same]
        rw [shape]
        exact .record (blanks_newline _) spells (blanks_newline _)

/-- A document on one line is spelled there. -/
theorem Plain.spelled_compact {document : Document} (plain : document.Plain) :
    Spelled document document.compact :=
  ⟨[], _, [], noBlanks, plain.spells_compact, noBlanks, by simp⟩

/-- A document on several lines is spelled there. -/
theorem Plain.spelled_pretty {document : Document} (plain : document.Plain) :
    Spelled document document.pretty :=
  ⟨[], _, [], noBlanks, plain.spells_prettyAt 0, noBlanks, by simp [pretty]⟩

end Document

end ResourcePack
