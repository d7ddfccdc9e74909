import Mathlib.Data.List.Infix
import ResourcePack.Proofs.Build.Dependencies
import ResourcePack.Proofs.Build.Loading
import ResourcePack.Proofs.Build.SymbolHeader.Reading

/-!
# What C reads in the header of a collection

The lines of a header are read as the names and indices of the resources, if they are the lines
that were meant, the comments in them end where they are meant to and the names can be read at
all. Loading a manifest takes the blanks off the names, but lets every other character through,
in names and in paths. So the header of a collection is read back, as far as no name continues
its line and no path ends its comment, exactly if every name can be read.
-/

namespace ResourcePack

namespace SymbolHeader

/-- A resource whose line says what it is meant to say. -/
structure Harmless (resource : Resolved) : Prop extends IsEnumerator resource.name where
  nonempty : resource.name ≠ ""
  tight : Text.Tight isBlank resource.name.toList
  oneLine : ContinuesNoLine resource.name.toList
  commentEnds : EndsNoComment (spliced resource.provenance.toList)

/-- The part of a line before the comma. -/
def enumerator (resource : Resolved) : List Piece :=
  marks "    ".toList ++ pieces resource.name ++ marks " = ".toList ++
    marks (Nat.toDigits 10 resource.index)

/-- The text of the comment on a line. -/
def comment (resource : Resolved) : List Char :=
  " (from ".toList ++ spliced resource.provenance.toList ++ ") ".toList

/-- Nothing of a line but its path is changed where lines are joined. -/
theorem spliced_line_append {resource : Resolved} (harmless : Harmless resource)
    (rest : List Char) :
    spliced ((line resource).toList ++ rest) =
      (enumerator resource ++ marks ", ".toList).flatMap Piece.text ++
        '/' :: '*' :: (comment resource ++ '*' :: '/' :: '\n' :: spliced rest) := by
  have parts : (line resource).toList ++ rest =
      "    ".toList ++ (resource.name.toList ++
        ((" = ".toList ++ Nat.toDigits 10 resource.index ++ ", /* (from ".toList) ++
          (resource.provenance.toList ++ (") */\n".toList ++ rest)))) := by
    unfold line
    simp only [toString, String.toList_append, Nat.toList_repr, List.append_assoc]
  have value : '\\' ∉ " = ".toList ++ Nat.toDigits 10 resource.index ++ ", /* (from ".toList := by
    simp [Text.not_mem_toDigits]
  have opens : ", /* (from ".toList = ", ".toList ++ '/' :: '*' :: " (from ".toList := by simp
  have closes : ") */\n".toList = ") ".toList ++ '*' :: '/' :: ['\n'] := by simp
  rw [parts, spliced_append_of_not_mem (by simp), spliced_append fun _ => by simp,
    spliced_eq_self harmless.oneLine, spliced_append_of_not_mem value,
    spliced_append fun _ => by simp, spliced_append_of_not_mem (by simp)]
  unfold enumerator comment
  simp only [List.flatMap_append, flatMap_text_marks]
  rw [harmless.whole, opens, closes]
  simp only [List.append_assoc, List.cons_append, List.nil_append]

/-! ## Without the comments -/

/-- A line without its comment. -/
def bareLine (resource : Resolved) : List Piece := enumerator resource ++ marks ",  \n".toList

theorem isCode_enumerator (resource : Resolved) :
    IsCode (enumerator resource ++ marks ", ".toList) := by
  have value : IsCode (marks (" = ".toList ++ Nat.toDigits 10 resource.index ++ ", ".toList)) := by
    apply IsCode.of_marks
    · simp [Text.not_mem_toDigits]
    · simp [Text.not_mem_toDigits]
  have named : IsCode (pieces resource.name ++
      marks (" = ".toList ++ Nat.toDigits 10 resource.index ++ ", ".toList)) :=
    (isCode_pieces _).append value fun _ => by simp [marks]
  have indent : IsCode (marks "    ".toList) := .of_marks (by simp) (by simp)
  have whole := indent.append named (by simp [marks])
  simpa only [enumerator, marks, List.map_append, List.append_assoc] using whole

theorem endsNoComment_comment {resource : Resolved} (harmless : Harmless resource) :
    EndsNoComment (comment resource) := by
  have start : EndsNoComment (" (from ".toList ++ spliced resource.provenance.toList) :=
    Apart.append_of_not_mem (by simp) harmless.commentEnds
  exact start.append (Apart.of_not_mem (by simp)) fun _ => by simp

/-- On every line the comment is left out, and nothing else. -/
theorem withoutComments_line {resource : Resolved} (harmless : Harmless resource)
    (rest : List Char) :
    withoutComments .code (spliced ((line resource).toList ++ rest)) =
      (withoutComments .code (spliced rest)).map (bareLine resource ++ ·) := by
  have bare : marks ",  \n".toList = marks ", ".toList ++ marks [' ', '\n'] := by
    simp [marks]
  have last : (enumerator resource ++ marks ", ".toList).getLast? ≠ some (.mark '/') := by
    simp [marks]
  rw [spliced_line_append harmless,
    withoutComments_append (isCode_enumerator resource) _ fun ends => absurd ends last,
    withoutComments_comment (endsNoComment_comment harmless), Option.map_map, bareLine, bare]
  simp only [Function.comp_def, List.append_assoc]

theorem withoutComments_lines {resources : List Resolved}
    (harmless : ∀ resource ∈ resources, Harmless resource) (rest : List Char) :
    withoutComments .code (spliced (resources.flatMap (fun r => (line r).toList) ++ rest)) =
      (withoutComments .code (spliced rest)).map (resources.flatMap bareLine ++ ·) := by
  induction resources with
  | nil => simp
  | cons resource resources ih =>
      have here := harmless resource (by simp)
      have later := ih fun r mem => harmless r (by simp [mem])
      simp only [List.flatMap_cons, List.append_assoc, withoutComments_line here, later,
        Option.map_map, Function.comp_def]

/-- What stands behind the comments before the enumeration. -/
def directive : String := "\n#pragma once\n\n"

/-- What is left of the text before the enumeration. -/
def bareProlog : List Piece := marks [' ', '\n'] ++ marks [' ', '\n'] ++ marks directive.toList

theorem withoutComments_directive (rest : List Char) :
    withoutComments .code ((directive ++ opening ++ "\n").toList ++ rest) =
      (withoutComments .code rest).map
        (marks directive.toList ++ marks opening.toList ++ [.mark '\n'] ++ ·) := by
  have plain : IsCode (marks (directive ++ opening ++ "\n").toList) := by
    apply IsCode.of_marks
    · simp [directive, opening]
    · simp [directive, opening]
  have last : (marks (directive ++ opening ++ "\n").toList).getLast? ≠ some (.mark '/') := by
    simp [marks]
  have read := withoutComments_append plain rest fun slash => absurd slash last
  have newline : marks "\n".toList = [.mark '\n'] := by simp [marks]
  rw [flatMap_text_marks] at read
  rw [read, String.toList_append, String.toList_append, marks_append, marks_append, newline]

theorem withoutComments_prologue (rest : List Char) :
    withoutComments .code (spliced (prologue.toList ++ rest)) =
      (withoutComments .code (spliced rest)).map
        (bareProlog ++ marks opening.toList ++ [.mark '\n'] ++ ·) := by
  have parts : prologue =
      "/*" ++ " THIS FILE IS AUTOMATICALLY GENERATED BY pbpack. " ++ "*/\n" ++
      "/*" ++ " IF YOU MODIFY IT, YOUR CHANGES WILL BE LOST ON THE NEXT BUILD. " ++ "*/\n" ++
      (directive ++ opening ++ "\n") := by decide +kernel
  have noBackslash : '\\' ∉ prologue.toList := by decide +kernel
  have starts : "/*".toList = ['/', '*'] := by simp
  have ends : "*/\n".toList = ['*', '/', '\n'] := by simp
  have first : EndsNoComment " THIS FILE IS AUTOMATICALLY GENERATED BY pbpack. ".toList :=
    Apart.of_not_mem (by simp)
  have second :
      EndsNoComment " IF YOU MODIFY IT, YOUR CHANGES WILL BE LOST ON THE NEXT BUILD. ".toList :=
    Apart.of_not_mem (by simp)
  have code := withoutComments_directive (spliced rest)
  rw [spliced_append_of_not_mem noBackslash, parts, String.toList_append]
  generalize (directive ++ opening ++ "\n").toList = behind at code ⊢
  simp only [String.toList_append, starts, ends, List.append_assoc, List.cons_append,
    List.nil_append]
  rw [withoutComments_comment first, withoutComments_comment second, code, Option.map_map,
    Option.map_map]
  simp only [Function.comp_def, bareProlog, List.append_assoc, List.singleton_append]

theorem withoutComments_epilogue :
    withoutComments .code (spliced epilogue.toList) =
      some (marks closing.toList ++ [.mark '\n']) := by
  simp [spliced, epilogue, closing, withoutComments, marks, isQuote]

/-! ## The enumeration -/

/-- The end of the enumeration does not begin within a name and end behind it. -/
theorem not_closing_across {name tail more : List Piece}
    (noClosing : ¬ marks closing.toList <:+: name) (part : tail <:+ name) :
    ¬ marks closing.toList <+: tail ++ .mark ' ' :: .mark '=' :: more := by
  intro across
  obtain shorter | longer := Nat.le_total (marks closing.toList).length tail.length
  · have within := List.prefix_of_prefix_length_le across (List.prefix_append _ _) shorter
    exact noClosing (within.isInfix.trans part.isInfix)
  · obtain ⟨others, whole⟩ :=
      List.prefix_of_prefix_length_le (List.prefix_append _ _) across longer
    rw [← whole, List.prefix_append_right_inj] at across
    have start := List.IsPrefix.take across 2
    have mem : others ∈ (marks closing.toList).tails :=
      (List.mem_tails _ _).mpr ⟨tail, whole⟩
    have never : ∀ others ∈ (marks closing.toList).tails,
        others.take 2 <+: marks [' ', '='] → others = [] := by
      simp [marks, closing]
    cases never others mem start
    -- Nothing of the mark is left, so all of it stands within the name.
    rw [List.append_nil] at whole
    exact noClosing (whole ▸ part.isInfix)

/-- The enumeration does not end on a line. -/
theorem before?_line {resource : Resolved} (harmless : Harmless resource) (rest : List Piece) :
    before? (marks closing.toList) (bareLine resource ++ rest) =
      (before? (marks closing.toList) rest).map (bareLine resource ++ ·) := by
  have name (more : List Piece) : before? (marks closing.toList)
      (pieces resource.name ++ .mark ' ' :: .mark '=' :: more) =
        (before? (marks closing.toList) (.mark ' ' :: .mark '=' :: more)).map
          (pieces resource.name ++ ·) :=
    before?_append fun _ part _ => not_closing_across harmless.noClosing part
  have indent : .mark '\x7d' ∉ marks "    ".toList := by decide
  have value : .mark '\x7d' ∉
      marks (' ' :: '=' :: ' ' :: (Nat.toDigits 10 resource.index ++ ",  \n".toList)) := by
    simp [mark_mem_marks, Text.not_mem_toDigits]
  have split (more : List Piece) : bareLine resource ++ more =
      marks "    ".toList ++ (pieces resource.name ++
        (marks (' ' :: '=' :: ' ' :: (Nat.toDigits 10 resource.index ++ ",  \n".toList)) ++
          more)) := by
    have equals : " = ".toList = [' ', '=', ' '] := by simp
    simp only [bareLine, enumerator, equals, marks, List.map_append, List.map_cons,
      List.append_assoc, List.cons_append, List.map_nil, List.nil_append]
  have skipValue := before?_closing_append value rest
  simp only [split]
  rw [before?_closing_append indent]
  simp only [marks, List.map_cons, List.cons_append] at name skipValue ⊢
  rw [name, skipValue]
  simp only [Option.map_map, Function.comp_def]

theorem before?_lines {resources : List Resolved}
    (harmless : ∀ resource ∈ resources, Harmless resource) (rest : List Piece) :
    before? (marks closing.toList) (resources.flatMap bareLine ++ rest) =
      (before? (marks closing.toList) rest).map (resources.flatMap bareLine ++ ·) := by
  induction resources with
  | nil => simp
  | cons resource resources ih =>
      have here := before?_line (harmless resource (by simp))
      have later := ih fun r mem => harmless r (by simp [mem])
      simp only [List.flatMap_cons, here, later, Option.map_map, Function.comp_def,
        List.append_assoc]

theorem enumerators_line {lead : List Piece} (blank : ∀ c ∈ lead, c.isBlank = true)
    {resource : Resolved} (harmless : Harmless resource) :
    enumerators (lead ++ enumerator resource) = [lead ++ enumerator resource] := by
  have noComma : .mark ',' ∉ lead ++ enumerator resource := by
    have before : .mark ',' ∉ lead := fun mem => absurd (blank _ mem) (by decide)
    simp [enumerator, before, harmless.noComma, mark_mem_marks, Text.not_mem_toDigits]
  have visible : (!(lead ++ enumerator resource).all Piece.isBlank) = true := by
    have equals : .mark '=' ∈ lead ++ enumerator resource := by
      simp [enumerator, mark_mem_marks]
    rw [Bool.not_eq_true', List.all_eq_false]
    exact ⟨.mark '=', equals, by decide⟩
  rw [enumerators, List.splitOn_eq_singleton noComma]
  simp only [List.filter_cons, visible, if_true, List.filter_nil]

theorem enumerator?_line {lead : List Piece} (blank : ∀ c ∈ lead, c.isBlank = true)
    {resource : Resolved} (harmless : Harmless resource) :
    enumerator? (lead ++ enumerator resource) = some (resource.name, resource.index) := by
  have blank' : ∀ c ∈ lead ++ marks "    ".toList, c.isBlank = true := by
    rw [List.forall_mem_append]
    exact ⟨blank, by decide⟩
  have nonempty : pieces resource.name ≠ [] := by
    intro none
    have empty := harmless.whole
    rw [none] at empty
    exact harmless.nonempty (String.toList_eq_nil_iff.mp empty.symm)
  have tight : Text.Tight Piece.isBlank (pieces resource.name) :=
    tight_of_text (harmless.whole ▸ harmless.tight)
  have read := enumerator?_eq resource.index blank' nonempty tight harmless.noEquals
  rw [harmless.whole, String.ofList_toList] at read
  simpa only [enumerator, List.append_assoc] using read

/-- Each line gives its name and index; the blanks behind its comma count with the next. -/
theorem mapM_enumerator?_lines {resources : List Resolved}
    (harmless : ∀ resource ∈ resources, Harmless resource) {lead : List Piece}
    (blank : ∀ c ∈ lead, c.isBlank = true) :
    (enumerators (lead ++ resources.flatMap bareLine)).mapM enumerator? =
      some (resources.map fun resource => (resource.name, resource.index)) := by
  induction resources generalizing lead with
  | nil => simp [enumerators_blank blank]
  | cons resource resources ih =>
      have here := harmless resource (by simp)
      have later := ih (fun r mem => harmless r (by simp [mem]))
        (show ∀ c ∈ marks "  \n".toList, c.isBlank = true by decide)
      have comma : marks ",  \n".toList = .mark ',' :: marks "  \n".toList := by simp [marks]
      have split : lead ++ (resource :: resources).flatMap bareLine =
          (lead ++ enumerator resource) ++
            .mark ',' :: (marks "  \n".toList ++ resources.flatMap bareLine) := by
        simp only [List.flatMap_cons, bareLine, comma, List.append_assoc, List.cons_append]
      rw [split, enumerators_append, enumerators_line blank here, List.mapM_append, later,
        List.mapM_cons, enumerator?_line blank here]
      simp

/-- The lines of a header are all that its reading goes by. -/
theorem read?_render_eq (resources : List Resolved) :
    read? (render resources) =
      (withoutComments .code (spliced
        (resources.flatMap (fun r => (line r).toList) ++ epilogue.toList))).bind fun code =>
          (before? (marks closing.toList) (.mark '\n' :: code)).bind
            fun inside => (enumerators inside).mapM enumerator? := by
  have text : (render resources).toList = prologue.toList ++
      (resources.flatMap (fun r => (line r).toList) ++ epilogue.toList) := by
    simp only [render, String.toList_append, String.toList_join, List.flatMap_map,
      List.append_assoc]
  have opened (rest : List Piece) :
      after? (marks opening.toList) (bareProlog ++ marks opening.toList ++ rest) = some rest := by
    have mark : marks opening.toList =
        .mark 't' :: marks "ypedef enum resource_id \x7b".toList := by
      simp [marks, opening]
    have absent : .mark 't' ∉ bareProlog := by simp [bareProlog, directive, marks]
    rw [mark]
    exact after?_append_of_not_mem absent rest
  have read : read? (render resources) =
      (withoutComments .code (spliced (render resources).toList)).bind fun code =>
        (after? (marks opening.toList) code).bind
          fun after => (before? (marks closing.toList) after).bind
            fun inside => (enumerators inside).mapM enumerator? := rfl
  rw [read, text, withoutComments_prologue, Option.bind_map]
  simp only [Function.comp_def, List.append_assoc _ [_] _, opened, Option.bind_some,
    List.singleton_append]

/-- A header of harmless lines is read as what it lists. -/
theorem read?_render {resources : List Resolved}
    (harmless : ∀ resource ∈ resources, Harmless resource) :
    read? (render resources) =
      some (resources.map fun resource => (resource.name, resource.index)) := by
  have closed : before? (marks closing.toList)
      (.mark '\n' :: (resources.flatMap bareLine ++ (marks closing.toList ++ [.mark '\n']))) =
        some (.mark '\n' :: resources.flatMap bareLine) := by
    have newline := before?_closing_append (show .mark '\x7d' ∉ [Piece.mark '\n'] by decide)
      (resources.flatMap bareLine ++ (marks closing.toList ++ [.mark '\n']))
    rw [before?_lines harmless, before?_append_self] at newline
    simpa only [List.cons_append, List.nil_append, Option.map_some, List.append_nil] using newline
  rw [read?_render_eq, withoutComments_lines harmless, withoutComments_epilogue, Option.map_some,
    Option.bind_some, closed]
  exact mapM_enumerator?_lines harmless (show ∀ c ∈ [Piece.mark '\n'], c.isBlank = true by decide)

/-! ## The header of a collection -/

theorem not_mem_index {c : Char} (noSign : c ≠ '-') (noDigit : c.isDigit = false)
    (index : Int32) : c ∉ (toString index).toList := by
  have text : toString index = toString index.toInt := rfl
  rw [text]
  cases index.toInt with
  | ofNat n =>
      have digits : (toString (Int.ofNat n)).toList = Nat.toDigits 10 n := Nat.toList_repr
      rw [digits]
      exact Text.not_mem_toDigits noDigit n
  | negSucc n =>
      have digits : (toString (Int.negSucc n)).toList = "-".toList ++ Nat.toDigits 10 (n + 1) := by
        rw [← Nat.toList_repr, ← String.toList_append]
        rfl
      rw [digits, List.mem_append, not_or]
      exact ⟨by simpa using noSign, Text.not_mem_toDigits noDigit (n + 1)⟩

theorem endsNoComment_append {text path : List Char} (noBackslash : '\\' ∉ text)
    (noStar : '*' ∉ text) (ends : EndsNoComment (spliced path)) :
    EndsNoComment (spliced (text ++ path)) := by
  rw [spliced_append_of_not_mem noBackslash]
  exact Apart.append_of_not_mem noStar ends

/-- What is written before a path ends no comment. -/
theorem endsNoComment_provenance {source : Source}
    (path : EndsNoComment (spliced source.path.text.toList)) :
    EndsNoComment (spliced source.provenance.toList) := by
  cases source with
  | file file => exact path
  | extract pack index =>
      have text : (Source.extract pack index).provenance =
          "resource ID " ++ toString index ++ " from pack " ++ pack.text := rfl
      rw [text, String.toList_append]
      apply endsNoComment_append _ _ path
      · simp [not_mem_index]
      · simp [not_mem_index]
  | image picture options =>
      have text : (Source.image picture options).provenance =
          "imported image " ++ picture.text := rfl
      rw [text, String.toList_append]
      exact endsNoComment_append (by simp) (by simp) path

end SymbolHeader

namespace Collection

variable {codec : Codec} {fs done : FileSystem}

theorem map_mapIdx {α β γ : Type} (f : β → γ) (g : Nat → α → β) (items : List α) :
    (items.mapIdx g).map f = items.mapIdx fun i item => f (g i item) := by
  simp only [List.mapIdx_eq_zipIdx_map, List.map_map]
  rfl

/-- A header says nothing about the bytes of the resources. -/
theorem render_resources {collection : Collection} {resources : List Resolved}
    (ran : fs.run (collection.resolve codec) = (.ok resources, done)) :
    SymbolHeader.render resources =
      SymbolHeader.render (collection.entries.mapIdx fun i entry => resolved i entry []) := by
  obtain ⟨-, -, lines⟩ := run_resolveFrom_eq_ok ran
  have lines' : (collection.entries.mapIdx fun i entry => resolved i entry []).map
      SymbolHeader.line = collection.entries.mapIdx symbolLine := map_mapIdx _ _ _
  simp only [Nat.zero_add] at lines
  unfold SymbolHeader.render
  rw [lines, lines']

theorem harmless_resolved {entry : Entry} (position : Nat)
    (reads : SymbolHeader.IsEnumerator entry.name) (name : Manifest.IsName entry.name)
    (oneLine : SymbolHeader.ContinuesNoLine entry.name.toList)
    (path : SymbolHeader.EndsNoComment (SymbolHeader.spliced entry.source.path.text.toList)) :
    SymbolHeader.Harmless (resolved position entry []) where
  toIsEnumerator := reads
  nonempty := name.nonempty
  tight := name.tight.mono fun _ blank => SymbolHeader.isBlank_text blank
  oneLine := oneLine
  commentEnds := SymbolHeader.endsNoComment_provenance path

/-- As far as no name continues its line and no path ends the comment it stands in, the header
of a collection is read as the names of its entries, numbered in order, exactly if every name
can be read. -/
theorem header_reads_back_iff {origin : FileSystem} {manifest root : Path}
    {collection : Collection} {resources : List Resolved}
    (loaded : (origin.run (load manifest root)).1 = .ok collection)
    (resolves : (fs.run (collection.resolve codec)).1 = .ok resources)
    (oneLine : ∀ entry ∈ collection.entries, SymbolHeader.ContinuesNoLine entry.name.toList)
    (unended : ∀ entry ∈ collection.entries,
      SymbolHeader.EndsNoComment (SymbolHeader.spliced entry.source.path.text.toList)) :
    SymbolHeader.read? (SymbolHeader.render resources) =
        some (collection.entries.mapIdx fun i entry => (entry.name, i + 1)) ↔
      ∀ entry ∈ collection.entries, SymbolHeader.IsEnumerator entry.name := by
  obtain ⟨done, ran⟩ := Files.exists_of_outcome resolves
  rw [render_resources ran]
  constructor
  · intro read entry mem
    obtain ⟨i, inside, rfl⟩ := List.mem_iff_getElem.mp mem
    refine SymbolHeader.isEnumerator_of_read? read (_, i + 1) ?_
    exact List.mem_mapIdx.mpr ⟨i, inside, rfl⟩
  · intro readable
    have names := isName_of_ofOutcome loaded
    rw [SymbolHeader.read?_render, map_mapIdx]
    · rfl
    · intro resource mem
      obtain ⟨i, inside, rfl⟩ := List.mem_mapIdx.mp mem
      have entry := List.getElem_mem inside
      exact harmless_resolved i (readable _ entry) (names _ entry) (oneLine _ entry)
        (unended _ entry)

/-- A manifest of one file, with a name and a path to be chosen. -/
def oneFileText (name path : String) : String :=
  "\x7b\"palette\":\"pebble64\",\"resources\":[\x7b\"name\":\"" ++ name ++
    "\",\"input\":\x7b\"type\":\"file\",\"file\":\"" ++ path ++ "\"\x7d\x7d]\x7d"

def oneFile (name path : String) : FileSystem where
  nodes := [
    (["m"], .file (Utf8.encode (oneFileText name path))),
    (["a"], .file [7]), (["b*"], .directory), (["b*", "c"], .file [7])]
  current := []

/-- The collection of such a manifest. -/
def ofOneFile (name path : String) : Collection :=
  ⟨⟨"m"⟩, .pebble64, [⟨name, .file ⟨path⟩⟩]⟩

theorem load_oneFile (name path : String) :
    ((oneFile name path).run (load ⟨"m"⟩ ⟨""⟩)).1 =
      ((Manifest.parse ⟨"m"⟩ (oneFileText name path)).mapError .manifest).bind
        (ofManifest · ⟨"m"⟩ ⟨""⟩) :=
  ofOutcome_encode _ _ _

theorem resolve_ofOneFile {name path : String} {content : Bytes}
    (there : fs.read ⟨path⟩ = .ok content) :
    fs.run (resolve codec (ofOneFile name path)) =
      (.ok [resolved 0 ⟨name, .file ⟨path⟩⟩ content], fs) := by
  have entry : fs.run (resolveEntry codec 0 ⟨name, .file ⟨path⟩⟩) =
      (.ok (resolved 0 ⟨name, .file ⟨path⟩⟩ content), fs) := by
    rw [FileSystem.run_eq_runOn, runOn_resolveEntry FileSystem.observes]
    simp only [Source.path, there]
    rfl
  refine FileSystem.run_bind_eq_ok.mpr ⟨_, fs, entry, ?_⟩
  exact FileSystem.run_bind_eq_ok.mpr ⟨[], fs, rfl, rfl⟩

theorem oneFile_header_reads_back :
    ((oneFile "A" "a").run (load ⟨"m"⟩ ⟨""⟩)).1 = .ok (ofOneFile "A" "a") ∧
      ((oneFile "A" "a").run (resolve .png (ofOneFile "A" "a"))).1 =
        .ok [resolved 0 ⟨"A", .file ⟨"a"⟩⟩ [7]] ∧
      SymbolHeader.read? (SymbolHeader.render [resolved 0 ⟨"A", .file ⟨"a"⟩⟩ [7]]) =
        some [("A", 1)] := by
  have loaded : ((oneFile "A" "a").run (load ⟨"m"⟩ ⟨""⟩)).1 = .ok (ofOneFile "A" "a") := by
    rw [load_oneFile]
    decide +kernel
  have there : (oneFile "A" "a").read ⟨"a"⟩ = .ok [7] := by decide
  have resolves : ((oneFile "A" "a").run (resolve .png (ofOneFile "A" "a"))).1 =
      .ok [resolved 0 ⟨"A", .file ⟨"a"⟩⟩ [7]] := congrArg Prod.fst (resolve_ofOneFile there)
  refine ⟨loaded, resolves, (header_reads_back_iff loaded resolves ?_ ?_).mpr ?_⟩
  · rintro entry (_ | ⟨_, _ | _⟩)
    decide
  · rintro entry (_ | ⟨_, _ | _⟩)
    decide
  · rintro entry (_ | ⟨_, _ | _⟩)
    exact (SymbolHeader.isEnumerator_iff (by decide)).mpr (by decide)

/-- The manifest of one file loads, its collection resolves, and its header is not read as it
is meant. -/
structure Misread (name path : String) : Prop where
  loads : ((oneFile name path).run (load ⟨"m"⟩ ⟨""⟩)).1 = .ok (ofOneFile name path)
  resolves : ((oneFile name path).run (resolve .png (ofOneFile name path))).1 =
    .ok [resolved 0 ⟨name, .file ⟨path⟩⟩ [7]]
  misread : SymbolHeader.read? (SymbolHeader.render [resolved 0 ⟨name, .file ⟨path⟩⟩ [7]]) ≠
    some ((ofOneFile name path).entries.mapIdx fun i entry => (entry.name, i + 1))

/-- A comma in a name and the end of a comment in a path both spoil the header. -/
theorem comma_or_comment_end_spoils_header : Misread "A,B" "a" ∧ Misread "A" "b*/c" := by
  have loads : ((oneFile "A,B" "a").run (load ⟨"m"⟩ ⟨""⟩)).1 = .ok (ofOneFile "A,B" "a") ∧
      ((oneFile "A" "b*/c").run (load ⟨"m"⟩ ⟨""⟩)).1 = .ok (ofOneFile "A" "b*/c") := by
    rw [load_oneFile, load_oneFile]
    decide +kernel
  have there : (oneFile "A,B" "a").read ⟨"a"⟩ = .ok [7] ∧
      (oneFile "A" "b*/c").read ⟨"b*/c"⟩ = .ok [7] := by
    decide
  have misread :
      SymbolHeader.read? (SymbolHeader.render [resolved 0 ⟨"A,B", .file ⟨"a"⟩⟩ [7]]) ≠
          some [("A,B", 1)] ∧
        SymbolHeader.read? (SymbolHeader.render [resolved 0 ⟨"A", .file ⟨"b*/c"⟩⟩ [7]]) ≠
          some [("A", 1)] := by
    simp only [SymbolHeader.read?_render_eq]
    decide +kernel
  exact ⟨⟨loads.1, congrArg Prod.fst (resolve_ofOneFile there.1), misread.1⟩,
    ⟨loads.2, congrArg Prod.fst (resolve_ofOneFile there.2), misread.2⟩⟩

end Collection

end ResourcePack
