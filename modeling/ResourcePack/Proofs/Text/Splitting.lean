import Mathlib.Data.List.DropRight

/-!
# Pieces of a text

A text is split at separators into pieces of it that have no separator in them. Blanks at
the ends of a piece do not count, and a piece without any is what is left of it with some
more.
-/

namespace ResourcePack

namespace Text

variable {α : Type}

/-- The pieces stand in the text, the first one at its start, and separators stand only
between them. -/
theorem splitOnP_eq_cons (p : α → Bool) (text : List α) :
    ∃ first rest, text.splitOnP p = first :: rest ∧
      (first <+: text ∧ ∀ c ∈ first, p c = false) ∧
      ∀ piece ∈ rest, piece <:+: text ∧ ∀ c ∈ piece, p c = false := by
  induction text with
  | nil => exact ⟨[], [], by simp, by simp, by simp⟩
  | cons c text ih =>
      obtain ⟨first, rest, split, ⟨start, free⟩, others⟩ := ih
      have later : ∀ piece ∈ rest, piece <:+: c :: text ∧ ∀ c ∈ piece, p c = false :=
        fun piece mem => ⟨(others piece mem).1.trans (List.suffix_cons c text).isInfix,
          (others piece mem).2⟩
      cases separator : p c with
      | true =>
          refine ⟨[], first :: rest, ?_, by simp, ?_⟩
          · rw [List.splitOnP_cons_eq_if_modifyHead, if_pos separator, split]
          · rintro piece (_ | ⟨_, mem⟩)
            · exact ⟨start.isInfix.trans (List.suffix_cons c text).isInfix, free⟩
            · exact later piece mem
      | false =>
          refine ⟨c :: first, rest, ?_, ⟨(List.prefix_cons_inj c).mpr start, ?_⟩, later⟩
          · simp [List.splitOnP_cons_eq_if_modifyHead, separator, split]
          · rintro d (_ | ⟨_, mem⟩)
            · exact separator
            · exact free d mem

theorem infix_of_mem_splitOnP {p : α → Bool} {text piece : List α}
    (mem : piece ∈ text.splitOnP p) : piece <:+: text := by
  obtain ⟨first, rest, split, ⟨start, -⟩, others⟩ := splitOnP_eq_cons p text
  rw [split] at mem
  obtain rfl | mem := List.mem_cons.mp mem
  · exact start.isInfix
  · exact (others piece mem).1

theorem free_of_mem_splitOnP {p : α → Bool} {text piece : List α}
    (mem : piece ∈ text.splitOnP p) : ∀ c ∈ piece, p c = false := by
  obtain ⟨first, rest, split, ⟨-, free⟩, others⟩ := splitOnP_eq_cons p text
  rw [split] at mem
  obtain rfl | mem := List.mem_cons.mp mem
  · exact free
  · exact (others piece mem).2

/-! ## Ends -/

/-- The text without the blanks at its ends. -/
def stripped (blank : α → Bool) (text : List α) : List α :=
  ((text.dropWhile blank).reverse.dropWhile blank).reverse

/-- Whether neither end of a text is a blank. -/
structure Tight (blank : α → Bool) (text : List α) : Prop where
  head : ∀ c ∈ text.head?, blank c = false
  last : ∀ c ∈ text.getLast?, blank c = false

theorem Tight.mono {blank blank' : α → Bool} {text : List α} (tight : Tight blank text)
    (fewer : ∀ c, blank' c = true → blank c = true) : Tight blank' text := by
  have other : ∀ c, blank c = false → blank' c = false := by
    intro c visible
    rw [Bool.eq_false_iff] at visible ⊢
    exact fun is => visible (fewer c is)
  exact ⟨fun c mem => other c (tight.head c mem), fun c mem => other c (tight.last c mem)⟩

variable {blank : α → Bool}

theorem stripped_infix (text : List α) : stripped blank text <:+: text :=
  (List.rdropWhile_prefix blank (text.dropWhile blank)).isInfix.trans
    (List.dropWhile_suffix blank).isInfix

theorem head_dropWhile {text : List α} : ∀ c ∈ (text.dropWhile blank).head?, blank c = false := by
  intro c mem
  have visible := List.head?_dropWhile_not blank text
  rwa [Option.mem_def.mp mem] at visible

theorem dropWhile_eq_self {text : List α} (head : ∀ c ∈ text.head?, blank c = false) :
    text.dropWhile blank = text := by
  cases text with
  | nil => rfl
  | cons c text => simp [head c rfl]

theorem tight_stripped (text : List α) : Tight blank (stripped blank text) := by
  constructor
  · intro c mem
    obtain ⟨rest, whole⟩ := List.rdropWhile_prefix blank (text.dropWhile blank)
    refine head_dropWhile c (?_ : c ∈ (text.dropWhile blank).head?)
    rw [← whole, List.head?_append, Option.mem_def]
    exact Option.or_eq_some_iff.mpr (.inl mem)
  · intro c mem
    rw [stripped, List.getLast?_reverse] at mem
    exact head_dropWhile c mem

/-- Blanks around a text are left out, and nothing else. -/
theorem stripped_append {lead text tail : List α} (tight : Tight blank text) (some : text ≠ [])
    (before : ∀ c ∈ lead, blank c = true) (behind : ∀ c ∈ tail, blank c = true) :
    stripped blank (lead ++ text ++ tail) = text := by
  have front : (lead ++ text ++ tail).dropWhile blank = text ++ tail := by
    rw [List.append_assoc, List.dropWhile_append_of_pos before]
    apply dropWhile_eq_self
    rw [List.head?_append_of_ne_nil _ some]
    exact tight.head
  have back : (text ++ tail).reverse.dropWhile blank = text.reverse := by
    rw [List.reverse_append, List.dropWhile_append_of_pos (by simpa using behind)]
    apply dropWhile_eq_self
    rw [List.head?_reverse]
    exact tight.last
  rw [stripped, front, back, List.reverse_reverse]

end Text

end ResourcePack
