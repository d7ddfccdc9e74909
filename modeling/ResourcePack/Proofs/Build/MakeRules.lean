import Mathlib.Data.List.TakeWhile
import ResourcePack.Build.MakeRules.Reader
import ResourcePack.Proofs.Outcome
import ResourcePack.Proofs.Text.Splitting

/-!
# What make reads in the rules of a build

A rule that make reads consists of words, and a word has no blank, no end of a line and no
start of a comment in it, and a target no colon either. Paths are written as they are. So
the rules of a build are read back exactly if every path in them is such a word.
-/

namespace ResourcePack

namespace MakeRules

/-- A character that ends a word, or the line it stands on. -/
def endsWord (c : Char) : Bool := isBlank c || c = '\n' || c = '#'

/-- A text that can stand among the prerequisites of a rule. -/
structure IsPrerequisite (text : String) : Prop where
  nonempty : text ≠ ""
  unbroken : ∀ c ∈ text.toList, endsWord c = false

/-- A text that can stand among the targets of a rule. -/
structure IsTarget (text : String) : Prop extends IsPrerequisite text where
  noColon : ':' ∉ text.toList

instance (text : String) : Decidable (IsPrerequisite text) :=
  decidable_of_iff (text ≠ "" ∧ text.toList.any endsWord = false)
    ⟨fun ⟨nonempty, unbroken⟩ => ⟨nonempty, by simpa using unbroken⟩,
      fun ⟨nonempty, unbroken⟩ => ⟨nonempty, by simpa using unbroken⟩⟩

instance (text : String) : Decidable (IsTarget text) :=
  decidable_of_iff (IsPrerequisite text ∧ ':' ∉ text.toList)
    ⟨fun ⟨word, noColon⟩ => ⟨word, noColon⟩, fun ⟨word, noColon⟩ => ⟨word, noColon⟩⟩

/-- A text within one line, without a comment. -/
def Plain (text : List Char) : Prop := ∀ c ∈ text, c ≠ '\n' ∧ c ≠ '#'

/-- What is true of every rule that is read. -/
structure Rule.Sound (rule : Rule) : Prop where
  targets : ∀ text ∈ rule.targets, IsTarget text
  prerequisites : ∀ text ∈ rule.prerequisites, IsPrerequisite text

theorem not_endsWord {c : Char} (inside : endsWord c = false) :
    isBlank c = false ∧ c ≠ '\n' ∧ c ≠ '#' := by
  simpa [endsWord, and_assoc] using inside

namespace IsPrerequisite

variable {text : String}

theorem not_blank (word : IsPrerequisite text) : ∀ c ∈ text.toList, isBlank c = false :=
  fun c mem => (not_endsWord (word.unbroken c mem)).1

theorem plain (word : IsPrerequisite text) : Plain text.toList :=
  fun c mem => (not_endsWord (word.unbroken c mem)).2

end IsPrerequisite

/-! ## Words -/

theorem of_mem_words {text : List Char} {word : String} (mem : word ∈ words text) :
    word ≠ "" ∧ ∀ c ∈ word.toList, c ∈ text ∧ isBlank c = false := by
  obtain ⟨piece, found, rfl⟩ := List.mem_map.mp mem
  obtain ⟨found, nonempty⟩ := List.mem_filter.mp found
  refine ⟨?_, ?_⟩
  · simpa using nonempty
  · intro c inside
    rw [String.toList_ofList] at inside
    exact ⟨(Text.infix_of_mem_splitOnP found).subset inside,
      Text.free_of_mem_splitOnP found c inside⟩

/-- A blank ends the word before it. -/
theorem words_append (text rest : List Char) :
    words (text ++ ' ' :: rest) = words text ++ words rest := by
  simp [words, List.splitOnP_append_cons text rest (show isBlank ' ' = true by decide)]

theorem words_nil : words [] = [] := rfl

theorem words_cons (text : List Char) : words (' ' :: text) = words text :=
  words_append [] text

theorem words_toList {text : String} (word : IsPrerequisite text) :
    words text.toList = [text] := by
  simp [words, List.splitOnP_eq_singleton word.not_blank, word.nonempty]

/-- Words with a blank behind each are told apart. -/
theorem words_flatMap {texts : List String} (sound : ∀ text ∈ texts, IsPrerequisite text) :
    words (texts.flatMap fun text => text.toList ++ [' ']) = texts := by
  induction texts with
  | nil => rfl
  | cons text texts ih =>
      have here := words_toList (sound text (by simp))
      have later := ih fun text mem => sound text (by simp [mem])
      simp [words_append, here, later]

/-! ## Rules -/

theorem ofLine?_append {targets : List Char} (free : ':' ∉ targets) (rest : List Char) :
    ofLine? (targets ++ ':' :: rest) = some ⟨words targets, words rest⟩ := by
  have inside : ∀ c ∈ targets, (decide (c ≠ ':')) = true :=
    fun c mem => decide_eq_true fun same => free (same ▸ mem)
  unfold ofLine?
  rw [List.dropWhile_append_of_pos inside, List.takeWhile_append_of_pos inside]
  simp

/-- A rule consists of words of its line, and its targets stand before the first colon. -/
theorem sound_of_ofLine? {line : List Char} {rule : Rule}
    (plain : Plain line) (read : ofLine? line = some rule) :
    rule.Sound := by
  have word : ∀ {text : String} {part : List Char}, part ⊆ line → text ∈ words part →
      IsPrerequisite text := by
    intro text part within mem
    obtain ⟨nonempty, inside⟩ := of_mem_words mem
    refine ⟨nonempty, fun c found => ?_⟩
    simp [endsWord, (inside c found).2, plain c (within (inside c found).1)]
  unfold ofLine? at read
  split at read
  · cases read
  · rename_i colon rest dropped
    cases read
    have after : rest ⊆ line := fun c mem =>
      (List.dropWhile_suffix _).subset (dropped ▸ List.mem_cons_of_mem colon mem)
    refine ⟨fun text mem => ⟨word (List.takeWhile_prefix _).subset mem, fun found => ?_⟩,
      fun text mem => word after mem⟩
    simpa using List.mem_takeWhile_imp ((of_mem_words mem).2 _ found).1

/-! ## Lines -/

/-- The lines that hold a rule, without their comments. -/
def statements (text : List Char) : List (List Char) :=
  ((text.splitOn '\n').map (·.takeWhile (· ≠ '#'))).filter (!·.all isBlank)

theorem read?_eq_mapM (text : String) : read? text = (statements text.toList).mapM ofLine? :=
  rfl

theorem plain_of_mem_statements {text line : List Char} (mem : line ∈ statements text) :
    Plain line := by
  obtain ⟨listed, -⟩ := List.mem_filter.mp mem
  obtain ⟨piece, found, rfl⟩ := List.mem_map.mp listed
  rw [List.splitOn_eq_splitOnP] at found
  intro c inside
  have whole := (List.takeWhile_prefix _).subset inside
  have noNewline := Text.free_of_mem_splitOnP found c whole
  exact ⟨by simpa using noNewline, by simpa using List.mem_takeWhile_imp inside⟩

/-- Whatever is read, it is made of words. -/
theorem sound_of_read? {text : String} {rules : List Rule} (read : read? text = some rules) :
    ∀ rule ∈ rules, rule.Sound := by
  intro rule mem
  obtain ⟨line, found, ofLine⟩ := Outcome.exists_item (Outcome.mapM_eq_some_iff.mp read) rule mem
  exact sound_of_ofLine? (plain_of_mem_statements found) ofLine

/-- The end of a line ends the rule on it. -/
theorem statements_append (line rest : List Char) :
    statements (line ++ '\n' :: rest) = statements line ++ statements rest := by
  simp only [statements, List.splitOn_append_cons_self, List.map_append, List.filter_append]

theorem statements_nil : statements [] = [] := rfl

theorem statements_cons (rest : List Char) : statements ('\n' :: rest) = statements rest :=
  statements_append [] rest

theorem statements_rule {line : List Char} (plain : Plain line)
    (colon : ':' ∈ line) : statements line = [line] := by
  have oneLine : '\n' ∉ line := fun mem => (plain _ mem).1 rfl
  have noComment : line.takeWhile (· ≠ '#') = line :=
    List.takeWhile_eq_self_iff.mpr fun c mem => decide_eq_true (plain c mem).2
  have visible : (!line.all isBlank) = true := by
    simpa using ⟨_, colon, (by decide : isBlank ':' = false)⟩
  simp only [statements, List.splitOn_eq_singleton oneLine, List.map_singleton, noComment]
  simp [visible]

/-! ## The rules of a build -/

/-- The line with the pack. -/
def packLine (build : MakeRules) : List Char :=
  build.pack.text.toList ++ ':' :: ' ' ::
    (build.prerequisites.map Path.text).flatMap fun text => text.toList ++ [' ']

/-- The line with the header. -/
def headerLine (build : MakeRules) : List Char :=
  build.header.text.toList ++ ':' :: ' ' :: build.pack.text.toList

/-- The line with an input file. -/
def inputLine (path : Path) : List Char := path.text.toList ++ [':']

/-- The comment before the rules. -/
def firstLine : String := "# automatically generated by pbpack"

/-- The comment behind the rules. -/
def lastLine : String := "# end of generated dependencies"

theorem toList_inputRule (path : Path) :
    (inputRule path).toList = inputLine path ++ ['\n', '\n'] := by
  have ending : ":\n\n".toList = [':', '\n', '\n'] := by simp
  simp only [inputRule, inputLine, toString, String.toList_append, ending, List.append_assoc,
    List.cons_append, List.nil_append]

theorem toList_render (build : MakeRules) :
    build.render.toList =
      firstLine.toList ++ '\n' :: '\n' :: (build.packLine ++ '\n' :: '\n' ::
      (build.headerLine ++ '\n' :: '\n' ::
      (build.dependencies.flatMap (fun path => inputLine path ++ ['\n', '\n']) ++
      (lastLine.toList ++ ['\n'])))) := by
  have first : "# automatically generated by pbpack\n\n".toList =
      firstLine.toList ++ ['\n', '\n'] := by simp [firstLine]
  have last : "# end of generated dependencies\n".toList = lastLine.toList ++ ['\n'] := by
    simp [lastLine]
  have between : "\n\n".toList = ['\n', '\n'] := by simp
  have colon : ": ".toList = [':', ' '] := by simp
  have blank : " ".toList = [' '] := by simp
  unfold render
  simp only [packLine, headerLine, toString, String.toList_append, String.toList_join,
    List.flatMap_map, first, last, between, colon, blank, toList_inputRule, List.append_assoc,
    List.cons_append, List.nil_append]

/-- The paths of a build that make takes for words. -/
structure WellNamed (build : MakeRules) : Prop where
  pack : IsTarget build.pack.text
  header : IsTarget build.header.text
  manifest : IsPrerequisite build.manifest.text
  tool : ∀ tool ∈ build.tool, IsPrerequisite tool.text
  dependencies : ∀ path ∈ build.dependencies, IsTarget path.text

instance (build : MakeRules) : Decidable build.WellNamed :=
  decidable_of_iff
    (IsTarget build.pack.text ∧ IsTarget build.header.text ∧ IsPrerequisite build.manifest.text ∧
      (∀ tool ∈ build.tool, IsPrerequisite tool.text) ∧
      ∀ path ∈ build.dependencies, IsTarget path.text)
    ⟨fun ⟨pack, header, manifest, tool, dependencies⟩ =>
      ⟨pack, header, manifest, tool, dependencies⟩,
      fun ⟨pack, header, manifest, tool, dependencies⟩ =>
        ⟨pack, header, manifest, tool, dependencies⟩⟩

theorem mem_prerequisites {build : MakeRules} {text : String} :
    text ∈ build.prerequisites.map Path.text ↔
      text = build.manifest.text ∨ (∃ tool ∈ build.tool, text = tool.text) ∨
        ∃ path ∈ build.dependencies, text = path.text := by
  simp [prerequisites, eq_comm]

namespace WellNamed

variable {build : MakeRules}

theorem prerequisites (named : build.WellNamed) :
    ∀ text ∈ build.prerequisites.map Path.text, IsPrerequisite text := by
  intro text mem
  obtain rfl | ⟨tool, known, rfl⟩ | ⟨path, listed, rfl⟩ := mem_prerequisites.mp mem
  · exact named.manifest
  · exact named.tool tool known
  · exact (named.dependencies path listed).toIsPrerequisite

theorem plain_packLine (named : build.WellNamed) : Plain build.packLine := by
  simp only [Plain, packLine, List.forall_mem_append, List.forall_mem_cons,
    List.forall_mem_flatMap]
  exact ⟨named.pack.plain, by decide, by decide,
    fun text mem => ⟨(named.prerequisites text mem).plain, by simp⟩⟩

theorem plain_headerLine (named : build.WellNamed) : Plain build.headerLine := by
  simp only [Plain, headerLine, List.forall_mem_append, List.forall_mem_cons]
  exact ⟨named.header.plain, by decide, by decide, named.pack.plain⟩

theorem plain_inputLine (named : build.WellNamed) {path : Path}
    (mem : path ∈ build.dependencies) : Plain (inputLine path) := by
  simp only [Plain, inputLine, List.forall_mem_append]
  exact ⟨(named.dependencies path mem).plain, by simp⟩

theorem statements_inputs {paths : List Path} (plain : ∀ path ∈ paths, Plain (inputLine path))
    (rest : List Char) :
    statements (paths.flatMap (fun path => inputLine path ++ ['\n', '\n']) ++ rest) =
      paths.map inputLine ++ statements rest := by
  induction paths with
  | nil => rfl
  | cons path paths ih =>
      have here := statements_rule (plain path (by simp)) (by simp [inputLine])
      have later := ih fun path mem => plain path (by simp [mem])
      simp [statements_append, statements_cons, here, later]

/-- Only the lines with a colon are rules. -/
theorem statements_render (named : build.WellNamed) :
    statements build.render.toList =
      build.packLine :: build.headerLine :: build.dependencies.map inputLine := by
  have first : statements firstLine.toList = [] := by decide
  have last : statements lastLine.toList = [] := by decide
  have pack := statements_rule named.plain_packLine (by simp [packLine])
  have header := statements_rule named.plain_headerLine (by simp [headerLine])
  have plain : ∀ path ∈ build.dependencies, Plain (inputLine path) :=
    fun _ mem => named.plain_inputLine mem
  have inputs := statements_inputs plain
  simp only [toList_render, statements_append, statements_cons, statements_nil, first, last, pack,
    header, inputs, List.nil_append, List.singleton_append, List.append_nil]

/-- Each line is read as the rule it is meant to be. -/
theorem forall₂_ofLine? (named : build.WellNamed) :
    List.Forall₂ (ofLine? · = some ·)
      (build.packLine :: build.headerLine :: build.dependencies.map inputLine) build.rules := by
  refine .cons ?_ (.cons ?_ ?_)
  · rw [packLine, ofLine?_append named.pack.noColon, words_toList named.pack.toIsPrerequisite,
      words_cons, words_flatMap named.prerequisites]
  · rw [headerLine, ofLine?_append named.header.noColon,
      words_toList named.header.toIsPrerequisite, words_cons,
      words_toList named.pack.toIsPrerequisite]
  · rw [List.forall₂_map_left_iff, List.forall₂_map_right_iff, List.forall₂_same]
    intro path mem
    have named := named.dependencies path mem
    rw [inputLine, ofLine?_append named.noColon, words_toList named.toIsPrerequisite, words_nil]

theorem read?_render (named : build.WellNamed) : read? build.render = some build.rules := by
  rw [read?_eq_mapM, named.statements_render]
  exact Outcome.mapM_eq_some_iff.mpr named.forall₂_ofLine?

end WellNamed

/-- The pack is made from every prerequisite. -/
theorem needs_rules {build : MakeRules} {path : Path} (mem : path ∈ build.prerequisites) :
    Needs build.rules build.pack.text path.text :=
  ⟨_, List.mem_cons_self, List.mem_singleton_self _, List.mem_map_of_mem mem⟩

/-- Make reads the rules that are meant exactly if every path is a word to it. -/
theorem reads_back_iff_wellNamed (build : MakeRules) :
    read? build.render = some build.rules ↔ build.WellNamed := by
  constructor
  · intro read
    have sound := sound_of_read? read
    have pack := sound ⟨[build.pack.text], build.prerequisites.map Path.text⟩ (by simp [rules])
    have header := sound ⟨[build.header.text], [build.pack.text]⟩ (by simp [rules])
    have input (path) (mem : path ∈ build.dependencies) : Rule.Sound ⟨[path.text], []⟩ :=
      sound _ (by
        simp only [rules, List.mem_cons, List.mem_map]
        exact .inr (.inr ⟨path, mem, rfl⟩))
    exact {
      pack := pack.targets _ (by simp)
      header := header.targets _ (by simp)
      manifest := pack.prerequisites _ (mem_prerequisites.mpr (.inl rfl))
      tool := fun tool known =>
        pack.prerequisites _ (mem_prerequisites.mpr (.inr (.inl ⟨tool, known, rfl⟩)))
      dependencies := fun path mem => (input path mem).targets _ (by simp) }
  · exact WellNamed.read?_render

/-- A build with a picture whose name is two words. -/
def spacedName : MakeRules where
  pack := ⟨"out.pbpack"⟩
  header := ⟨"out.h"⟩
  manifest := ⟨"res.json"⟩
  tool := none
  dependencies := [⟨"my icon.png"⟩]

/-- Make takes the picture for two files that are not there. -/
theorem spacedName_falls_apart :
    read? spacedName.render =
        some [⟨["out.pbpack"], ["res.json", "my", "icon.png"]⟩, ⟨["out.h"], ["out.pbpack"]⟩,
          ⟨["my", "icon.png"], []⟩] ∧
      read? spacedName.render ≠ some spacedName.rules := by
  decide +kernel

end MakeRules

end ResourcePack
