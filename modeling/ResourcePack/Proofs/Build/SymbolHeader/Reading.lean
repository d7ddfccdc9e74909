import Mathlib.Data.List.Chain
import ResourcePack.Build.SymbolHeader.Reader
import ResourcePack.Proofs.Outcome
import ResourcePack.Proofs.Text.Digits
import ResourcePack.Proofs.Text.Splitting
import ResourcePack.Text.Blank

/-!
# What reading a header gives

A text in which no comment starts and every literal ends is read as it is, piece by piece, and
a comment ends at the first place where it can. No name that is read has a comma, an equals
sign, the start of a comment or the end of the enumeration outside its literals, because the
header is cut there.
-/

namespace ResourcePack

namespace SymbolHeader

/-- Whether nowhere in a text one of `seconds` stands right behind `first`. -/
def Apart {α : Type} (first : α) (seconds text : List α) : Prop :=
  text.IsChain fun a b => a = first → b ∉ seconds

instance {α : Type} [DecidableEq α] (first : α) (seconds text : List α) :
    Decidable (Apart first seconds text) :=
  inferInstanceAs (Decidable (List.IsChain _ _))

/-- Whether no comment starts in a text. -/
abbrev StartsNoComment (text : List Piece) : Prop := Apart (.mark '/') [.mark '/', .mark '*'] text

/-- Whether no comment ends in a text. -/
abbrev EndsNoComment (text : List Char) : Prop := Apart '*' ['/'] text

/-- Whether no line of a text is continued on the next one. -/
abbrev ContinuesNoLine (text : List Char) : Prop := Apart '\\' ['\n'] text

namespace Apart

variable {α : Type} {first : α} {seconds text others : List α}

theorem of_part (apart : Apart first seconds text) (part : others <:+: text) :
    Apart first seconds others :=
  List.IsChain.infix apart part

theorem of_not_mem (absent : first ∉ text) : Apart first seconds text := by
  induction text with
  | nil => exact .nil
  | cons c text ih =>
      obtain ⟨here, later⟩ := List.ne_and_not_mem_of_not_mem_cons absent
      exact List.isChain_cons.mpr ⟨fun _ _ same => absurd same.symm here, ih later⟩

/-- Two texts may be joined if it is harmless where they meet. -/
theorem append (apart : Apart first seconds text) (apart' : Apart first seconds others)
    (meet : text.getLast? = some first → ∀ c ∈ others.head?, c ∉ seconds) :
    Apart first seconds (text ++ others) := by
  refine List.isChain_append.mpr ⟨apart, apart', ?_⟩
  rintro a ends b next rfl
  exact meet ends b next

/-- A text without `first` may stand before any other. -/
theorem append_of_not_mem (absent : first ∉ text) (apart : Apart first seconds others) :
    Apart first seconds (text ++ others) :=
  (of_not_mem absent).append apart fun ends => absurd (List.mem_of_getLast? ends) absent

end Apart

/-! ## Lines -/

theorem spliced_cons {c : Char} {rest : List Char} (stays : c = '\\' → rest.head? ≠ some '\n') :
    spliced (c :: rest) = c :: spliced rest := by
  rw [spliced]
  rintro rest' rfl rfl
  exact stays rfl rfl

/-- Texts are joined line by line if no line is continued where they meet. -/
theorem spliced_append {text rest : List Char}
    (meet : text.getLast? = some '\\' → rest.head? ≠ some '\n') :
    spliced (text ++ rest) = spliced text ++ spliced rest := by
  fun_induction spliced text with
  | case1 => rfl
  | case2 text ih =>
      rw [List.cons_append, List.cons_append, spliced]
      apply ih
      intro ends
      exact meet (by simp [List.getLast?_cons, ends])
  | case3 c text alone ih =>
      have stays : c = '\\' → (text ++ rest).head? ≠ some '\n' := by
        rintro rfl
        cases text with
        | nil => exact meet rfl
        | cons d text =>
            rintro ⟨rfl⟩
            exact alone text rfl rfl
      rw [List.cons_append, spliced_cons stays, List.cons_append, ih]
      intro ends
      exact meet (by simp [List.getLast?_cons, ends])

/-- A text stays as it is if no line of it is continued. -/
theorem spliced_eq_self {text : List Char} (whole : ContinuesNoLine text) :
    spliced text = text := by
  induction text with
  | nil => rfl
  | cons c text ih =>
      obtain ⟨here, later⟩ := List.isChain_cons.mp whole
      rw [spliced_cons, ih later]
      intro backslash newline
      exact here _ newline backslash (by simp)

/-- A text without backslashes is kept. -/
theorem spliced_append_of_not_mem {text : List Char} (absent : '\\' ∉ text) (rest : List Char) :
    spliced (text ++ rest) = text ++ spliced rest := by
  rw [spliced_append fun ends => absurd (List.mem_of_getLast? ends) absent,
    spliced_eq_self (Apart.of_not_mem absent)]

/-! ## Pieces -/

/-- The inside of a literal: there is no quote and no end of a line in it, unless it is a quote
behind a backslash. -/
inductive Body (quote : Char) : List Char → Prop where
  | nil : Body quote []
  | plain {c : Char} {body : List Char} : c ≠ quote → c ≠ '\\' → c ≠ '\n' → Body quote body →
      Body quote (c :: body)
  | escape {c : Char} {body : List Char} : c ≠ '\n' → Body quote body →
      Body quote ('\\' :: c :: body)

theorem Body.append {quote : Char} {body others : List Char} (first : Body quote body)
    (second : Body quote others) : Body quote (body ++ others) := by
  induction first with
  | nil => exact second
  | plain noQuote noBackslash noNewline _ ih => exact .plain noQuote noBackslash noNewline ih
  | escape noNewline _ ih => exact .escape noNewline ih

/-- A piece that can stand in a text. -/
def Piece.Sound : Piece → Prop
  | mark c => isQuote c = false
  | literal quote body => isQuote quote = true ∧ Body quote body

theorem isQuote_iff {c : Char} : isQuote c = true ↔ c = '"' ∨ c = '\x27' := by
  simp [isQuote]

theorem marks_append (text others : List Char) :
    marks (text ++ others) = marks text ++ marks others :=
  List.map_append

theorem mark_mem_marks {c : Char} {text : List Char} : .mark c ∈ marks text ↔ c ∈ text := by
  simp [marks]

theorem sound_marks {text : List Char} (noQuote : '"' ∉ text ∧ '\x27' ∉ text) :
    ∀ piece ∈ marks text, piece.Sound := by
  intro piece mem
  obtain ⟨c, inside, rfl⟩ := List.mem_map.mp mem
  refine Bool.eq_false_iff.mpr fun quoted => ?_
  obtain rfl | rfl := isQuote_iff.mp quoted
  · exact noQuote.1 inside
  · exact noQuote.2 inside

/-- A region that can be reached. -/
def Region.Sound : Region → Prop
  | literal quote body => isQuote quote = true ∧ Body quote body
  | _ => True

/-- A text that has been read: there is no comment in it. -/
structure IsCode (pieces : List Piece) : Prop where
  sound : ∀ piece ∈ pieces, piece.Sound
  noComment : StartsNoComment pieces

namespace IsCode

variable {pieces others : List Piece}

theorem of_part (code : IsCode pieces) (part : others <:+: pieces) : IsCode others :=
  ⟨fun piece mem => code.sound piece (part.subset mem), code.noComment.of_part part⟩

theorem append (code : IsCode pieces) (code' : IsCode others)
    (meet : pieces.getLast? = some (.mark '/') →
      ∀ piece ∈ others.head?, piece ∉ [Piece.mark '/', .mark '*']) :
    IsCode (pieces ++ others) :=
  ⟨List.forall_mem_append.mpr ⟨code.sound, code'.sound⟩, code.noComment.append code'.noComment meet⟩

/-- Marks other than slashes and quotes are code wherever they stand. -/
theorem of_marks {text : List Char} (noSlash : '/' ∉ text)
    (noQuote : '"' ∉ text ∧ '\x27' ∉ text) : IsCode (marks text) :=
  ⟨sound_marks noQuote, .of_not_mem (mt mark_mem_marks.mp noSlash)⟩

end IsCode

@[simp] theorem flatMap_text_marks (text : List Char) :
    (marks text).flatMap Piece.text = text := by
  simp [marks, List.flatMap_map, Piece.text]

theorem withoutComments_literal {quote : Char} {body : List Char} (inside : Body quote body)
    (isQuote : isQuote quote = true) (before rest : List Char) :
    withoutComments (.literal quote before) (body ++ quote :: rest) =
      (withoutComments .code rest).map (.literal quote (before ++ body) :: ·) := by
  have noBackslash : quote ≠ '\\' := by
    rintro rfl
    exact absurd isQuote (by decide)
  induction inside generalizing before with
  | nil =>
      rw [List.nil_append, withoutComments, if_pos rfl, List.append_nil]
      rintro c rest' rfl
      exact absurd rfl noBackslash
  | plain noQuote plain noNewline _ ih =>
      rw [List.cons_append, withoutComments, if_neg noQuote, if_neg noNewline, ih]
      · simp
      · rintro c rest' rfl
        exact absurd rfl plain
  | escape noNewline _ ih =>
      rw [List.cons_append, List.cons_append, withoutComments, if_neg noNewline, ih]
      simp

/-- One piece is read if no comment starts where it meets what follows. -/
theorem withoutComments_piece {piece : Piece} (sound : piece.Sound) {rest : List Char}
    (meet : piece = .mark '/' → ∀ d ∈ rest.head?, d ∉ ['/', '*']) :
    withoutComments .code (piece.text ++ rest) =
      (withoutComments .code rest).map (piece :: ·) := by
  cases piece with
  | mark c => exact withoutComments_mark sound fun slash => meet (slash ▸ rfl)
  | literal quote body =>
      have noSlash : quote ≠ '/' := by
        rintro rfl
        exact absurd sound.1 (by decide)
      rw [Piece.text, List.append_assoc, List.cons_append, withoutComments, if_pos sound.1]
      · exact withoutComments_literal sound.2 sound.1 [] rest
      · rintro rest' rfl
        exact absurd rfl noSlash
      · rintro rest' rfl
        exact absurd rfl noSlash

theorem head?_flatMap_text {pieces : List Piece} (sound : ∀ piece ∈ pieces, piece.Sound)
    (plain : ∀ piece ∈ pieces.head?, piece ∉ [Piece.mark '/', .mark '*']) :
    ∀ d ∈ (pieces.flatMap Piece.text).head?, d ∉ ['/', '*'] := by
  cases pieces with
  | nil => simp
  | cons piece pieces =>
      have here := plain piece rfl
      cases piece with
      | mark c =>
          rintro d ⟨rfl⟩
          simpa using here
      | literal quote body =>
          rintro d ⟨rfl⟩ slash
          obtain rfl | rfl : quote = '/' ∨ quote = '*' := by simpa using slash
          · exact absurd (sound _ List.mem_cons_self).1 (by decide)
          · exact absurd (sound _ List.mem_cons_self).1 (by decide)

/-- A text that has been read is read again, piece by piece. -/
theorem withoutComments_append {pieces : List Piece} (code : IsCode pieces) (rest : List Char)
    (meet : pieces.getLast? = some (.mark '/') → ∀ d ∈ rest.head?, d ∉ ['/', '*']) :
    withoutComments .code (pieces.flatMap Piece.text ++ rest) =
      (withoutComments .code rest).map (pieces ++ ·) := by
  induction pieces with
  | nil => simp
  | cons piece pieces ih =>
      obtain ⟨here, later⟩ := List.forall_mem_cons.mp code.sound
      obtain ⟨next, noComment⟩ := List.isChain_cons.mp code.noComment
      have onward := ih ⟨later, noComment⟩ fun ends => meet (by simp [List.getLast?_cons, ends])
      have apart : piece = .mark '/' → ∀ d ∈ (pieces.flatMap Piece.text ++ rest).head?,
          d ∉ ['/', '*'] := by
        rintro rfl
        cases pieces with
        | nil => exact meet rfl
        | cons other pieces =>
            have plain := head?_flatMap_text later fun piece mem => next piece mem rfl
            rwa [List.head?_append_of_ne_nil]
            cases other <;> simp [Piece.text]
      rw [List.flatMap_cons, List.append_assoc, withoutComments_piece here apart, onward,
        Option.map_map]
      rfl

/-- A comment ends where it can. -/
theorem withoutComments_block_append {text : List Char} (unended : EndsNoComment text)
    (rest : List Char) :
    withoutComments .block (text ++ '*' :: '/' :: rest) = withoutComments .code rest := by
  induction text with
  | nil => rfl
  | cons c text ih =>
      obtain ⟨here, later⟩ := List.isChain_cons.mp unended
      rw [List.cons_append, withoutComments, ih later]
      rintro rest' rfl same
      cases text with
      | nil => simp at same
      | cons d text =>
          cases same
          exact absurd (here '/' rfl rfl) (by simp)

theorem withoutComments_comment {text : List Char} (unended : EndsNoComment text)
    (rest : List Char) :
    withoutComments .code ('/' :: '*' :: (text ++ '*' :: '/' :: '\n' :: rest)) =
      (withoutComments .code rest).map (marks [' ', '\n'] ++ ·) := by
  rw [withoutComments, withoutComments_block_append unended,
    withoutComments_mark (by decide) (by simp), Option.map_map]
  rfl

theorem exists_literal {quote : Char} {body text : List Char} {pieces : List Piece}
    (read : withoutComments (.literal quote body) text = some pieces) :
    ∃ whole others, pieces = .literal quote whole :: others := by
  generalize inside : Region.literal quote body = region at read
  fun_induction withoutComments region text generalizing body
  case case14 ih | case17 ih =>
    cases inside
    exact ih rfl read
  case case15 =>
    cases inside
    obtain ⟨others, -, rfl⟩ := Option.map_eq_some_iff.mp read
    exact ⟨_, others, rfl⟩
  all_goals cases inside <;> cases read

/-- What is read of a text starts with a slash or an asterisk only if the text does. -/
theorem head?_withoutComments {text : List Char} {pieces : List Piece}
    (read : withoutComments .code text = some pieces) (plain : ∀ d ∈ text.head?, d ∉ ['/', '*']) :
    ∀ piece ∈ pieces.head?, piece ∉ [Piece.mark '/', .mark '*'] := by
  cases text with
  | nil =>
      cases read
      simp
  | cons c text =>
      have notSlash : c ≠ '/' ∧ c ≠ '*' := by simpa using plain c rfl
      rw [withoutComments] at read
      · split at read
        · obtain ⟨whole, others, rfl⟩ := exists_literal read
          simp
        · obtain ⟨others, -, rfl⟩ := Option.map_eq_some_iff.mp read
          simpa using notSlash
      · rintro rest rfl
        exact absurd rfl notSlash.1
      · rintro rest rfl
        exact absurd rfl notSlash.1

theorem IsCode.cons {piece : Piece} {pieces : List Piece} (here : piece.Sound)
    (code : IsCode pieces)
    (meet : piece = .mark '/' → ∀ next ∈ pieces.head?, next ∉ [Piece.mark '/', .mark '*']) :
    IsCode (piece :: pieces) :=
  ⟨List.forall_mem_cons.mpr ⟨here, code.sound⟩,
    List.isChain_cons.mpr ⟨fun next mem same => meet same next mem, code.noComment⟩⟩

/-- Whatever is read is code. -/
theorem isCode_of_withoutComments {region : Region} {text : List Char} {pieces : List Piece}
    (read : withoutComments region text = some pieces) (sound : region.Sound) :
    IsCode pieces := by
  fun_induction withoutComments region text generalizing pieces
  case case1 | case9 =>
    cases read
    exact ⟨by simp, .nil⟩
  case case2 ih | case3 ih | case10 ih =>
    obtain ⟨others, onward, rfl⟩ := Option.map_eq_some_iff.mp read
    exact .cons rfl (ih onward trivial) (by simp)
  case case4 quoted ih => exact ih read ⟨quoted, .nil⟩
  case case5 c rest noBlock noLine plain ih =>
    obtain ⟨others, onward, rfl⟩ := Option.map_eq_some_iff.mp read
    refine .cons (by simpa [Piece.Sound] using plain) (ih onward trivial) ?_
    rintro ⟨rfl⟩
    apply head?_withoutComments onward
    intro d next mark
    obtain ⟨rest, rfl⟩ := List.head?_eq_some_iff.mp next
    obtain rfl | rfl : d = '/' ∨ d = '*' := by simpa using mark
    · exact noLine rest rfl rfl
    · exact noBlock rest rfl rfl
  case case7 ih | case8 ih | case11 ih => exact ih read trivial
  case case14 quote body c rest inLine ih =>
    exact ih read ⟨sound.1, sound.2.append (.escape inLine .nil)⟩
  case case15 body quote rest alone ih =>
    obtain ⟨others, onward, rfl⟩ := Option.map_eq_some_iff.mp read
    exact .cons sound (ih onward trivial) (by simp)
  case case17 quote body c rest alone noQuote inLine ih =>
    -- A backslash with nothing behind it ends no literal.
    have noBackslash : c ≠ '\\' := by
      rintro rfl
      cases rest with
      | nil => cases read
      | cons d rest => exact alone d rest rfl rfl
    exact ih read ⟨sound.1, sound.2.append (.plain noQuote noBackslash inLine .nil)⟩
  all_goals cases read

/-! ## Marks -/

section

variable {α : Type} [DecidableEq α] {mark text rest before after : List α}

/-- What stands before a mark has no such mark in it. -/
theorem of_before? (some : mark ≠ []) (found : before? mark text = .some before) :
    before <+: text ∧ ¬ mark <:+: before := by
  induction text generalizing before with
  | nil => simp [before?, some] at found
  | cons c text ih =>
      rw [before?] at found
      split at found
      · cases found
        simpa using some
      · rename_i notHere
        obtain ⟨later, stood, rfl⟩ := Option.map_eq_some_iff.mp found
        obtain ⟨start, absent⟩ := ih stood
        have start' : c :: later <+: c :: text := (List.prefix_cons_inj c).mpr start
        refine ⟨start', fun inside => ?_⟩
        obtain here | inside := List.infix_cons_iff.mp inside
        · exact notHere (List.isPrefixOf_iff_prefix.mpr (here.trans start'))
        · exact absent inside

theorem before?_append_self (mark rest : List α) : before? mark (mark ++ rest) = some [] := by
  cases mark with
  | nil => cases rest <;> simp [before?]
  | cons c mark => simp [before?]

/-- A text in which no mark begins is passed over. -/
theorem before?_append (absent : ∀ tail, tail <:+ text → tail ≠ [] → ¬ mark <+: tail ++ rest) :
    before? mark (text ++ rest) = (before? mark rest).map (text ++ ·) := by
  induction text with
  | nil => simp
  | cons c text ih =>
      have here := absent (c :: text) (List.suffix_refl _) (by simp)
      have later := ih fun tail part => absent tail (part.trans (List.suffix_cons c text))
      rw [List.cons_append] at here
      rw [List.cons_append, before?, later, if_neg (mt List.isPrefixOf_iff_prefix.mp here)]
      cases before? mark rest <;> rfl

/-- A mark does not begin where its first character does not stand. -/
theorem before?_append_of_not_mem {c : α} (absent : c ∉ text) (rest : List α) :
    before? (c :: mark) (text ++ rest) = (before? (c :: mark) rest).map (text ++ ·) := by
  apply before?_append
  intro tail part some here
  cases tail with
  | nil => exact some rfl
  | cons d tail =>
      obtain ⟨rfl, -⟩ := List.cons_prefix_cons.mp here
      exact absent (part.subset (by simp))

theorem after?_append_of_not_mem {c : α} (absent : c ∉ text) (rest : List α) :
    after? (c :: mark) (text ++ (c :: mark) ++ rest) = some rest := by
  rw [after?, List.append_assoc, before?_append_of_not_mem absent, before?_append_self]
  simp

theorem after?_suffix (found : after? mark text = some after) : after <:+ text := by
  obtain ⟨before, -, rfl⟩ := Option.map_eq_some_iff.mp found
  exact List.drop_suffix _ _

end

theorem before?_closing_append {text : List Piece} (absent : .mark '\x7d' ∉ text)
    (rest : List Piece) :
    before? (marks closing.toList) (text ++ rest) =
      (before? (marks closing.toList) rest).map (text ++ ·) := by
  have mark : marks closing.toList = .mark '\x7d' :: marks " resource_id;".toList := by
    simp [marks, closing]
  rw [mark]
  exact before?_append_of_not_mem absent rest

/-! ## Enumerators -/

/-- The pieces of an enumeration that are not blank. -/
def enumerators (text : List Piece) : List (List Piece) :=
  (text.splitOn (.mark ',')).filter (!·.all Piece.isBlank)

/-- A comma ends the enumerator before it. -/
theorem enumerators_append (text rest : List Piece) :
    enumerators (text ++ .mark ',' :: rest) = enumerators text ++ enumerators rest := by
  simp only [enumerators, List.splitOn_append_cons_self, List.filter_append]

theorem enumerators_blank {text : List Piece} (blank : ∀ c ∈ text, c.isBlank = true) :
    enumerators text = [] := by
  have noComma : .mark ',' ∉ text := fun mem => absurd (blank _ mem) (by decide)
  rw [enumerators, List.splitOn_eq_singleton noComma]
  simpa using blank

/-- What a name is read as by itself. -/
def pieces (name : String) : List Piece := (withoutComments .code name.toList).getD []

/-- What is true of every name that is read. -/
structure IsEnumerator (name : String) : Prop where
  /-- No comment starts in the name, and every literal in it ends there. -/
  whole : (pieces name).flatMap Piece.text = name.toList
  noComma : .mark ',' ∉ pieces name
  noEquals : .mark '=' ∉ pieces name
  noClosing : ¬ marks closing.toList <:+: pieces name

theorem pieces_of_isCode {text : List Piece} (code : IsCode text) :
    pieces (String.ofList (text.flatMap Piece.text)) = text := by
  have read := withoutComments_append code [] (by simp)
  rw [List.append_nil] at read
  rw [pieces, String.toList_ofList, read]
  simp [withoutComments]

theorem isCode_pieces (name : String) : IsCode (pieces name) := by
  unfold pieces
  cases read : withoutComments .code name.toList with
  | none => exact ⟨by simp, .nil⟩
  | some text => exact isCode_of_withoutComments read trivial

theorem marks_infix_marks {text others : List Char} :
    marks others <:+: marks text ↔ others <:+: text := by
  constructor
  · rintro ⟨before, behind, whole⟩
    have letters := congrArg (List.flatMap Piece.text) whole
    simp only [List.flatMap_append, flatMap_text_marks] at letters
    exact ⟨_, _, letters⟩
  · exact fun part => part.map Piece.mark

theorem startsNoComment_marks {text : List Char} :
    StartsNoComment (marks text) ↔ Apart '/' ['/', '*'] text := by
  simp [Apart, marks, List.isChain_map]

/-- Where no quote stands, there is no literal. -/
theorem eq_marks {text : List Piece} (sound : ∀ piece ∈ text, piece.Sound)
    (noQuote : '"' ∉ text.flatMap Piece.text ∧ '\x27' ∉ text.flatMap Piece.text) :
    text = marks (text.flatMap Piece.text) := by
  induction text with
  | nil => rfl
  | cons piece text ih =>
      simp only [List.flatMap_cons, List.mem_append, not_or] at noQuote
      have later := ih (fun other mem => sound other (by simp [mem]))
        ⟨noQuote.1.2, noQuote.2.2⟩
      cases piece with
      | mark c => rw [List.flatMap_cons, Piece.text, List.singleton_append, marks, List.map_cons,
          ← marks, ← later]
      | literal quote body =>
          obtain rfl | rfl := isQuote_iff.mp (sound _ List.mem_cons_self).1
          · exact absurd List.mem_cons_self noQuote.1.1
          · exact absurd List.mem_cons_self noQuote.2.1

/-- In a name without quotes every character stands for itself. -/
theorem isEnumerator_iff {name : String}
    (noQuote : '"' ∉ name.toList ∧ '\x27' ∉ name.toList) :
    IsEnumerator name ↔
      Apart '/' ['/', '*'] name.toList ∧ ',' ∉ name.toList ∧ '=' ∉ name.toList ∧
        ¬ closing.toList <:+: name.toList := by
  constructor
  · rintro ⟨whole, noComma, noEquals, noClosing⟩
    have code := isCode_pieces name
    have same := eq_marks code.sound (whole ▸ noQuote)
    rw [whole] at same
    have noComment := code.noComment
    rw [same] at noComma noEquals noClosing noComment
    exact ⟨startsNoComment_marks.mp noComment, mt mark_mem_marks.mpr noComma,
      mt mark_mem_marks.mpr noEquals, mt marks_infix_marks.mpr noClosing⟩
  · rintro ⟨noComment, noComma, noEquals, noClosing⟩
    have same :=
      pieces_of_isCode ⟨sound_marks noQuote, startsNoComment_marks.mpr noComment⟩
    rw [flatMap_text_marks, String.ofList_toList] at same
    constructor <;> rw [same]
    · exact flatMap_text_marks _
    · exact mt mark_mem_marks.mp noComma
    · exact mt mark_mem_marks.mp noEquals
    · exact mt marks_infix_marks.mp noClosing

/-- A literal is not blank, whatever stands in it. -/
theorem tight_of_text {text : List Piece} (tight : Text.Tight isBlank (text.flatMap Piece.text)) :
    Text.Tight Piece.isBlank text := by
  constructor
  · rintro (c | ⟨quote, body⟩) mem
    · obtain ⟨rest, rfl⟩ := List.head?_eq_some_iff.mp mem
      exact tight.head c rfl
    · rfl
  · rintro (c | ⟨quote, body⟩) mem
    · obtain ⟨before, rfl⟩ := List.getLast?_eq_some_iff.mp mem
      exact tight.last c (by simp [Piece.text])
    · rfl

/-- A name is a part of its enumerator, before the equals sign. -/
theorem name_of_enumerator? {text : List Piece} {pair : String × Nat}
    (read : enumerator? text = some pair) :
    ∃ name, pair.1 = String.ofList (name.flatMap Piece.text) ∧ name <:+: text ∧
      .mark '=' ∉ name := by
  have part : trim (text.takeWhile (· ≠ .mark '=')) <:+: text.takeWhile (· ≠ .mark '=') :=
    Text.stripped_infix _
  have free : .mark '=' ∉ text.takeWhile (· ≠ .mark '=') := fun mem => by
    simpa using List.mem_takeWhile_imp mem
  unfold enumerator? at read
  split at read
  · cases read
  · simp only at read
    split at read
    · cases read
      exact ⟨_, rfl, part.trans (List.takeWhile_prefix _).isInfix,
        fun mem => free (part.subset mem)⟩
    · cases read

theorem isBlank_iff {c : Char} :
    isBlank c = true ↔
      c = ' ' ∨ c = '\n' ∨ c = '\t' ∨ c = '\r' ∨ c = '\x0b' ∨ c = '\x0c' := by
  simp [isBlank, or_assoc]

theorem not_isBlank_of_isDigit {c : Char} (digit : c.isDigit = true) : isBlank c = false := by
  rw [Bool.eq_false_iff]
  intro blank
  obtain rfl | rfl | rfl | rfl | rfl | rfl := isBlank_iff.mp blank <;>
    exact absurd digit (by decide)

/-- What C takes for a blank is one everywhere. -/
theorem isBlank_text {c : Char} (blank : isBlank c = true) : Text.isBlank c = true := by
  obtain rfl | rfl | rfl | rfl | rfl | rfl := isBlank_iff.mp blank <;> decide

theorem enumerator?_append {text value : List Piece} {digits : List Char}
    (noEquals : .mark '=' ∉ text) (written : trim value = marks digits) (nonempty : digits ≠ [])
    (isDigits : ∀ c ∈ digits, c.isDigit = true) :
    enumerator? (text ++ .mark '=' :: value) =
      some (String.ofList ((trim text).flatMap Piece.text), Text.number 10 digits) := by
  have before : ∀ c ∈ text, decide (c ≠ .mark '=') = true := by
    intro c mem
    exact decide_eq_true fun same => noEquals (same ▸ mem)
  rw [enumerator?, List.dropWhile_append_of_pos before, List.takeWhile_append_of_pos before]
  simpa [written, nonempty] using isDigits

/-- An enumerator is a name and a number, whatever blanks stand before it. -/
theorem enumerator?_eq {lead name : List Piece} (n : Nat) (blank : ∀ c ∈ lead, c.isBlank = true)
    (nonempty : name ≠ []) (tight : Text.Tight Piece.isBlank name) (noEquals : .mark '=' ∉ name) :
    enumerator? (lead ++ name ++ marks " = ".toList ++ marks (Nat.toDigits 10 n)) =
      some (String.ofList (name.flatMap Piece.text), n) := by
  have digits : ∀ c ∈ Nat.toDigits 10 n, c.isDigit = true :=
    fun c mem => Nat.isDigit_of_mem_toDigits (by decide) (by decide) mem
  have visible : ∀ c ∈ marks (Nat.toDigits 10 n), c.isBlank = false := by
    intro c mem
    obtain ⟨d, inside, rfl⟩ := List.mem_map.mp mem
    exact not_isBlank_of_isDigit (digits d inside)
  have tight' : Text.Tight Piece.isBlank (marks (Nat.toDigits 10 n)) :=
    ⟨fun c mem => visible c (List.mem_of_mem_head? mem),
      fun c mem => visible c (List.mem_of_mem_getLast? mem)⟩
  have value : trim (marks [' '] ++ marks (Nat.toDigits 10 n) ++ []) =
      marks (Nat.toDigits 10 n) :=
    Text.stripped_append tight' (by simp [marks, Nat.toDigits_ne_nil]) (by decide) (by simp)
  have named : trim (lead ++ name ++ marks [' ']) = name :=
    Text.stripped_append tight nonempty blank (by decide)
  have before : .mark '=' ∉ lead ++ name ++ marks [' '] := by
    simp only [List.mem_append, not_or]
    exact ⟨⟨fun mem => absurd (blank _ mem) (by decide), noEquals⟩, by decide⟩
  have split : lead ++ name ++ marks " = ".toList ++ marks (Nat.toDigits 10 n) =
      (lead ++ name ++ marks [' ']) ++ .mark '=' ::
        (marks [' '] ++ marks (Nat.toDigits 10 n) ++ []) := by
    simp [marks]
  rw [split, enumerator?_append before value Nat.toDigits_ne_nil digits, named,
    Text.number_toDigits]

/-- Whatever is read, the header was not cut within a name. -/
theorem isEnumerator_of_read? {text : String} {pairs : List (String × Nat)}
    (read : read? text = some pairs) : ∀ pair ∈ pairs, IsEnumerator pair.1 := by
  obtain ⟨code, lexed, read⟩ := Option.bind_eq_some_iff.mp read
  obtain ⟨after, opened, read⟩ := Option.bind_eq_some_iff.mp read
  obtain ⟨inside, closed, read⟩ := Option.bind_eq_some_iff.mp read
  obtain ⟨start, noClosing⟩ := of_before? (by decide) closed
  have within : inside <:+: code := start.isInfix.trans (after?_suffix opened).isInfix
  intro pair mem
  obtain ⟨piece, found, read⟩ := Outcome.exists_item (Outcome.mapM_eq_some_iff.mp read) pair mem
  obtain ⟨piece_mem, -⟩ := List.mem_filter.mp found
  rw [List.splitOn_eq_splitOnP] at piece_mem
  obtain ⟨name, named, part, noEquals⟩ := name_of_enumerator? read
  have part' := part.trans (Text.infix_of_mem_splitOnP piece_mem)
  have isCode : IsCode name :=
    (isCode_of_withoutComments lexed trivial).of_part (part'.trans within)
  have same := pieces_of_isCode isCode
  rw [← named] at same
  rw [← same] at part part' noEquals
  exact {
    whole := by rw [same, named, String.toList_ofList]
    noComma := fun mem => by simpa using Text.free_of_mem_splitOnP piece_mem _ (part.subset mem)
    noEquals := noEquals
    noClosing := fun mark => noClosing (mark.trans part') }

end SymbolHeader

end ResourcePack
