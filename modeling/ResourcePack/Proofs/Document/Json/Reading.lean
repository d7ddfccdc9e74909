import ResourcePack.Proofs.Document.Json.Numbers
import ResourcePack.Proofs.Document.Json.Strings

/-!
# What is read from a JSON text

Reading finds a document in a text exactly if the text spells it. A spelling is read by
induction on the grammar, with twice as much fuel as it has characters, and what is read
has a spelling, by induction on the fuel.
-/

namespace ResourcePack

namespace Json

/-! ## Blanks -/

theorem skipBlanks_append {blanks : List Char} (only : Blanks blanks) (text : List Char) :
    skipBlanks (blanks ++ text) = skipBlanks text :=
  List.dropWhile_append_of_pos only

theorem skipBlanks_cons {c : Char} (visible : isBlank c = false) (text : List Char) :
    skipBlanks (c :: text) = c :: text := by
  simp [skipBlanks, visible]

theorem skipBlanks_mark {blanks : List Char} (only : Blanks blanks) {mark : Char}
    (visible : isBlank mark = false) (rest : List Char) :
    skipBlanks (blanks ++ mark :: rest) = mark :: rest := by
  rw [skipBlanks_append only, skipBlanks_cons visible]

/-- What is skipped are blanks. -/
theorem skipBlanks_spec (text : List Char) :
    ∃ blanks, Blanks blanks ∧ text = blanks ++ skipBlanks text :=
  ⟨text.takeWhile isBlank, fun _ mem => List.mem_takeWhile_imp mem,
    List.takeWhile_append_dropWhile.symm⟩

/-- No blank belongs to a number. -/
theorem not_number_of_isBlank {c : Char} (blank : isBlank c = true) :
    c.isDigit = false ∧ c ≠ '.' ∧ c ≠ 'e' ∧ c ≠ 'E' := by
  simp only [isBlank, Bool.or_eq_true, decide_eq_true_eq, or_assoc] at blank
  obtain rfl | rfl | rfl | rfl := blank <;> decide

theorem Blanks.ends {blanks : List Char} (only : Blanks blanks) : Ends blanks :=
  fun c mem => not_number_of_isBlank (only c (List.mem_of_mem_head? mem))

/-- A number ends at blanks and at marks. -/
theorem Blanks.ends_append {blanks : List Char} (only : Blanks blanks) {mark : Char}
    (isMark : mark = ',' ∨ mark = ']' ∨ mark = '\x7d') (rest : List Char) :
    Ends (blanks ++ mark :: rest) := by
  intro c mem
  cases blanks with
  | nil =>
      cases mem
      obtain rfl | rfl | rfl := isMark <;> decide
  | cons blank blanks =>
      cases mem
      exact not_number_of_isBlank (only c (by simp))

/-! ## One step of reading -/

variable {fuel : Nat} {document : Document} {text rest : List Char}

theorem value?_atom (noList : ∀ c ∈ text.head?, c ≠ '[' ∧ c ≠ '\x7b') :
    value? (fuel + 1) text = atom? text := by
  rw [value?]
  · rintro _ rfl
    exact (noList '[' rfl).1 rfl
  · rintro _ rfl
    exact (noList '\x7b' rfl).2 rfl

theorem value?_list_eq_some_iff {inside : List Char} :
    value? (fuel + 1) ('[' :: inside) = some (document, rest) ↔
      (skipBlanks inside = ']' :: rest ∧ document = .list []) ∨
      ((∀ others, skipBlanks inside ≠ ']' :: others) ∧
        items? fuel [] (skipBlanks inside) = some (document, rest)) := by
  constructor
  · intro read
    rw [value?] at read
    split at read
    · next others close =>
        cases read
        exact .inl ⟨close, rfl⟩
    · next opened => exact .inr ⟨opened, read⟩
  · rintro (⟨close, rfl⟩ | ⟨opened, read⟩)
    · rw [value?]
      simp only [close]
    · rw [value?]
      split
      · next others close => exact absurd close (opened others)
      · exact read

theorem value?_record_eq_some_iff {inside : List Char} :
    value? (fuel + 1) ('\x7b' :: inside) = some (document, rest) ↔
      (skipBlanks inside = '\x7d' :: rest ∧ document = .record []) ∨
      ((∀ others, skipBlanks inside ≠ '\x7d' :: others) ∧
        members? fuel [] (skipBlanks inside) = some (document, rest)) := by
  constructor
  · intro read
    rw [value?] at read
    split at read
    · next others close =>
        cases read
        exact .inl ⟨close, rfl⟩
    · next opened => exact .inr ⟨opened, read⟩
  · rintro (⟨close, rfl⟩ | ⟨opened, read⟩)
    · rw [value?]
      simp only [close]
    · rw [value?]
      split
      · next others close => exact absurd close (opened others)
      · exact read

theorem items?_eq_some_iff {done : List Document} :
    items? (fuel + 1) done text = some (document, rest) ↔
      ∃ item behind, value? fuel text = some (item, behind) ∧
        ((∃ others, skipBlanks behind = ',' :: others ∧
          items? fuel (item :: done) (skipBlanks others) = some (document, rest)) ∨
        (skipBlanks behind = ']' :: rest ∧ document = .list (done.reverse ++ [item]))) := by
  constructor
  · intro read
    rw [items?] at read
    split at read
    · cases read
    · next item behind found =>
      refine ⟨item, behind, found, ?_⟩
      split at read
      · next others comma => exact .inl ⟨others, comma, read⟩
      · next others close =>
          cases read
          exact .inr ⟨close, by simp⟩
      · cases read
  · rintro ⟨item, behind, found, last⟩
    rw [items?, found]
    obtain ⟨others, comma, read⟩ | ⟨close, rfl⟩ := last
    · simp only [comma, read]
    · simp only [close, List.reverse_cons]

theorem members?_eq_some_iff {done : List (Option String × Document)} :
    members? (fuel + 1) done text = some (document, rest) ↔
      ∃ inside key behind colon value end',
        text = '"' :: inside ∧ string? inside = some (key, behind) ∧
        skipBlanks behind = ':' :: colon ∧
        value? fuel (skipBlanks colon) = some (value, end') ∧
        ((∃ others, skipBlanks end' = ',' :: others ∧
          members? fuel ((key, value) :: done) (skipBlanks others) = some (document, rest)) ∨
        (skipBlanks end' = '\x7d' :: rest ∧
          document = .record (done.reverse ++ [(key, value)]))) := by
  constructor
  · intro read
    rw [members?.eq_def] at read
    simp only at read
    split at read
    · next inside =>
      split at read
      · cases read
      · next key behind named =>
        split at read
        · next colon marked =>
          split at read
          · cases read
          · next value end' valued =>
            refine ⟨inside, key, behind, colon, value, end', rfl, named, marked, valued, ?_⟩
            split at read
            · next others comma => exact .inl ⟨others, comma, read⟩
            · next others close =>
                cases read
                exact .inr ⟨close, by simp⟩
            · cases read
        · cases read
    · cases read
  · rintro ⟨inside, key, behind, colon, value, end', rfl, named, marked, valued, last⟩
    rw [members?, named]
    obtain ⟨others, comma, read⟩ | ⟨close, rfl⟩ := last
    · simp only [marked, valued, comma, read]
    · simp only [marked, valued, close, List.reverse_cons]

theorem after?_eq_some_iff {word text rest : List Char} :
    after? word text = some rest ↔ text = word ++ rest := by
  fun_induction after? word text with
  | case1 => simp
  | case2 word c text ih => simp [ih]
  | case3 w word c text other =>
      exact iff_of_false (by simp) fun same => other (List.cons.inj same).1.symm
  | case4 => simp

/-! ## Every spelling is read -/

theorem Number.first (number : Number document text) :
    ∃ c behind, text = c :: behind ∧ (c = '-' ∨ c.isDigit = true) := by
  obtain ⟨minus, whole, fraction, exponent, isMinus, isWhole, -, -, rfl, -⟩ := number_iff.mp number
  obtain rfl | rfl := isMinus
  · cases whole with
    | nil => exact absurd rfl isWhole.ne_nil
    | cons c whole => exact ⟨c, _, rfl, .inr (isWhole.all c (by simp))⟩
  · exact ⟨'-', _, rfl, .inl rfl⟩

/-- What starts a number starts nothing else. -/
theorem ne_of_number {c d : Char} (first : c = '-' ∨ c.isDigit = true)
    (other : ¬ (d = '-' ∨ d.isDigit = true)) : c ≠ d := by
  rintro rfl
  exact other first

/-- No part starts with a blank or a closing bracket. -/
theorem Spells.first {part : Part} (spells : Spells part text) :
    ∃ c behind, text = c :: behind ∧ isBlank c = false ∧ c ≠ ']' ∧ c ≠ '\x7d' := by
  induction spells with
  | null | isTrue | isFalse => exact ⟨_, _, rfl, by decide⟩
  | noItems | list | noMembers | record => exact ⟨_, _, rfl, by decide⟩
  | number number =>
      obtain ⟨c, behind, rfl, first⟩ := number.first
      refine ⟨c, behind, rfl, ?_, ne_of_number first (by decide),
        ne_of_number first (by decide)⟩
      simp [isBlank, ne_of_number first]
  | text quoted | member quoted | members quoted =>
      obtain ⟨inside, rfl, -⟩ := string?_of_quoted quoted []
      exact ⟨'"', _, rfl, by decide⟩
  | item _ ih => exact ih
  | items _ _ _ ih =>
      obtain ⟨c, behind, rfl, first⟩ := ih
      exact ⟨c, _, rfl, first⟩

/-- Before a part, blanks are skipped and nothing else. -/
theorem Spells.skipBlanks_before {part : Part} (spells : Spells part text) {blanks : List Char}
    (only : Blanks blanks) (rest : List Char) :
    skipBlanks (blanks ++ (text ++ rest)) = text ++ rest := by
  obtain ⟨c, behind, rfl, visible, -⟩ := spells.first
  rw [skipBlanks_append only, List.cons_append, skipBlanks_cons visible]

theorem atom?_of_number (number : Number document text) (stop : Ends rest) :
    atom? (text ++ rest) = some (document, rest) := by
  have read := number?_of_number number stop
  obtain ⟨c, behind, rfl, first⟩ := number.first
  rw [List.cons_append] at read ⊢
  rw [atom?, read]
  all_goals
    rintro _ same
    cases same
    exact absurd first (by decide)

/-- What it means that a spelling is read, wherever it stands: a document if no number goes
on behind it, items and members if they are in brackets. -/
def Reads : Part → List Char → Prop
  | .value document, text => ∀ fuel rest, 2 * text.length ≤ fuel → Ends rest →
      value? fuel (text ++ rest) = some (document, rest)
  | .items items, text => ∀ fuel done blanks rest, 2 * text.length < fuel → Blanks blanks →
      items? fuel done (text ++ (blanks ++ ']' :: rest)) =
        some (.list (done.reverse ++ items), rest)
  | .members members, text => ∀ fuel done blanks rest, 2 * text.length < fuel → Blanks blanks →
      members? fuel done (text ++ (blanks ++ '\x7d' :: rest)) =
        some (.record (done.reverse ++ members), rest)

theorem Reads.of_atom {c : Char} (noList : c ≠ '[') (noRecord : c ≠ '\x7b')
    (read : ∀ rest, Ends rest → atom? (c :: (text ++ rest)) = some (document, rest)) :
    Reads (.value document) (c :: text) := by
  intro fuel rest enough stop
  cases fuel with
  | zero => simp at enough
  | succ fuel =>
      rw [List.cons_append, value?_atom, read rest stop]
      intro _ mem
      cases mem
      exact ⟨noList, noRecord⟩

theorem Reads.number (number : Number document text) : Reads (.value document) text := by
  have read := fun rest (stop : Ends rest) => atom?_of_number number stop
  obtain ⟨c, behind, rfl, first⟩ := number.first
  exact .of_atom (ne_of_number first (by decide)) (ne_of_number first (by decide)) read

theorem Reads.string {value : Option String} (quoted : Quoted value text) :
    Reads (.value (.text value)) text := by
  obtain ⟨inside, rfl, -⟩ := string?_of_quoted quoted []
  refine .of_atom (by decide) (by decide) fun rest _ => ?_
  obtain ⟨_, same, read⟩ := string?_of_quoted quoted rest
  cases same
  rw [atom?, read, Option.map_some]

/-- There is fuel for the opening bracket of a list or a record. -/
theorem exists_succ_of_enough {c : Char} (enough : 2 * (c :: text).length ≤ fuel) :
    ∃ less, fuel = less + 1 := by
  rw [List.length_cons] at enough
  exact Nat.exists_eq_add_one.mpr (by omega)

theorem Reads.noItems {blanks : List Char} (only : Blanks blanks) :
    Reads (.value (.list [])) ('[' :: blanks ++ [']']) := by
  intro fuel rest enough stop
  obtain ⟨fuel, rfl⟩ := exists_succ_of_enough enough
  have shape : '[' :: blanks ++ [']'] ++ rest = '[' :: (blanks ++ ']' :: rest) := by simp
  rw [shape, value?_list_eq_some_iff]
  exact .inl ⟨skipBlanks_mark only (by decide) rest, rfl⟩

theorem Reads.list {items : List Document} {before behind : List Char} (only : Blanks before)
    (spells : Spells (.items items) text) (reads : Reads (.items items) text)
    (only' : Blanks behind) :
    Reads (.value (.list items)) ('[' :: before ++ text ++ behind ++ [']']) := by
  intro fuel rest enough stop
  obtain ⟨fuel, rfl⟩ := exists_succ_of_enough enough
  have shape : '[' :: before ++ text ++ behind ++ [']'] ++ rest =
      '[' :: (before ++ (text ++ (behind ++ ']' :: rest))) := by simp
  rw [shape, value?_list_eq_some_iff, spells.skipBlanks_before only]
  refine .inr ⟨?_, reads fuel [] behind rest ?_ only'⟩
  · obtain ⟨c, _, rfl, -, noClose, -⟩ := spells.first
    intro others same
    exact noClose (List.cons.inj same).1
  · simp only [List.length_append, List.length_cons, List.length_nil] at enough
    omega

theorem Reads.noMembers {blanks : List Char} (only : Blanks blanks) :
    Reads (.value (.record [])) ('\x7b' :: blanks ++ ['\x7d']) := by
  intro fuel rest enough stop
  obtain ⟨fuel, rfl⟩ := exists_succ_of_enough enough
  have shape : '\x7b' :: blanks ++ ['\x7d'] ++ rest = '\x7b' :: (blanks ++ '\x7d' :: rest) := by
    simp
  rw [shape, value?_record_eq_some_iff]
  exact .inl ⟨skipBlanks_mark only (by decide) rest, rfl⟩

theorem Reads.record {members : List (Option String × Document)} {before behind : List Char}
    (only : Blanks before) (spells : Spells (.members members) text)
    (reads : Reads (.members members) text) (only' : Blanks behind) :
    Reads (.value (.record members)) ('\x7b' :: before ++ text ++ behind ++ ['\x7d']) := by
  intro fuel rest enough stop
  obtain ⟨fuel, rfl⟩ := exists_succ_of_enough enough
  have shape : '\x7b' :: before ++ text ++ behind ++ ['\x7d'] ++ rest =
      '\x7b' :: (before ++ (text ++ (behind ++ '\x7d' :: rest))) := by simp
  rw [shape, value?_record_eq_some_iff, spells.skipBlanks_before only]
  refine .inr ⟨?_, reads fuel [] behind rest ?_ only'⟩
  · obtain ⟨c, _, rfl, -, -, noClose⟩ := spells.first
    intro others same
    exact noClose (List.cons.inj same).1
  · simp only [List.length_append, List.length_cons, List.length_nil] at enough
    omega

theorem Reads.item {item : Document} (reads : Reads (.value item) text) :
    Reads (.items [item]) text := by
  intro fuel done blanks rest enough only
  obtain ⟨fuel, rfl⟩ := Nat.exists_eq_add_one.mpr (Nat.zero_lt_of_lt enough)
  exact items?_eq_some_iff.mpr ⟨item, blanks ++ ']' :: rest,
    reads fuel _ (by omega) (only.ends_append (by simp) rest),
    .inr ⟨skipBlanks_mark only (by decide) rest, rfl⟩⟩

theorem Reads.items {item : Document} {items : List Document} {comma others : List Char}
    (reads : Reads (.value item) text) (mark : Mark ',' comma)
    (spells : Spells (.items items) others) (reads' : Reads (.items items) others) :
    Reads (.items (item :: items)) (text ++ comma ++ others) := by
  intro fuel done blanks rest enough only
  obtain ⟨fuel, rfl⟩ := Nat.exists_eq_add_one.mpr (Nat.zero_lt_of_lt enough)
  obtain ⟨only', only''⟩ := mark
  next before behind =>
  simp only [List.length_append, List.length_cons] at enough
  have shape : text ++ (before ++ ',' :: behind) ++ others ++ (blanks ++ ']' :: rest) =
      text ++ (before ++ ',' :: (behind ++ (others ++ (blanks ++ ']' :: rest)))) := by simp
  rw [shape]
  refine items?_eq_some_iff.mpr ⟨item, _, reads fuel _ (by omega) (only'.ends_append (by simp) _),
    .inl ⟨_, skipBlanks_mark only' (by decide) _, ?_⟩⟩
  rw [spells.skipBlanks_before only'', reads' fuel _ blanks rest (by omega) only]
  simp

/-- A member of a record is read with what follows it. -/
theorem members?_of_member {key : Option String} {value : Document} {name colon : List Char}
    {done : List (Option String × Document)} {tail : List Char} (quoted : Quoted key name)
    (mark : Mark ':' colon) (spells : Spells (.value value) text)
    (reads : Reads (.value value) text) (enough : 2 * text.length ≤ fuel) (stop : Ends tail)
    (last : (∃ others, skipBlanks tail = ',' :: others ∧
        members? fuel ((key, value) :: done) (skipBlanks others) = some (document, rest)) ∨
      (skipBlanks tail = '\x7d' :: rest ∧ document = .record (done.reverse ++ [(key, value)]))) :
    members? (fuel + 1) done (name ++ colon ++ text ++ tail) = some (document, rest) := by
  obtain ⟨only, only'⟩ := mark
  next before behind =>
  obtain ⟨inside, rfl, named⟩ :=
    string?_of_quoted quoted (before ++ ':' :: (behind ++ (text ++ tail)))
  have shape : '"' :: inside ++ (before ++ ':' :: behind) ++ text ++ tail =
      '"' :: (inside ++ (before ++ ':' :: (behind ++ (text ++ tail)))) := by simp
  refine members?_eq_some_iff.mpr ⟨_, key, _, behind ++ (text ++ tail), value, tail, shape, named,
    skipBlanks_mark only (by decide) _, ?_, last⟩
  rw [spells.skipBlanks_before only', reads fuel tail enough stop]

theorem Reads.member {key : Option String} {value : Document} {name colon : List Char}
    (quoted : Quoted key name) (mark : Mark ':' colon) (spells : Spells (.value value) text)
    (reads : Reads (.value value) text) :
    Reads (.members [(key, value)]) (name ++ colon ++ text) := by
  intro fuel done blanks rest enough only
  obtain ⟨fuel, rfl⟩ := Nat.exists_eq_add_one.mpr (Nat.zero_lt_of_lt enough)
  simp only [List.length_append] at enough
  exact members?_of_member quoted mark spells reads (by omega) (only.ends_append (by simp) rest)
    (.inr ⟨skipBlanks_mark only (by decide) rest, rfl⟩)

theorem Reads.members {key : Option String} {value : Document}
    {members : List (Option String × Document)} {name colon comma others : List Char}
    (quoted : Quoted key name) (colonMark : Mark ':' colon) (spells : Spells (.value value) text)
    (reads : Reads (.value value) text) (commaMark : Mark ',' comma)
    (spells' : Spells (.members members) others) (reads' : Reads (.members members) others) :
    Reads (.members ((key, value) :: members)) (name ++ colon ++ text ++ comma ++ others) := by
  intro fuel done blanks rest enough only
  obtain ⟨fuel, rfl⟩ := Nat.exists_eq_add_one.mpr (Nat.zero_lt_of_lt enough)
  obtain ⟨only', only''⟩ := commaMark
  next before behind =>
  simp only [List.length_append, List.length_cons] at enough
  have shape : name ++ colon ++ text ++ (before ++ ',' :: behind) ++ others ++
        (blanks ++ '\x7d' :: rest) =
      name ++ colon ++ text ++
        (before ++ ',' :: (behind ++ (others ++ (blanks ++ '\x7d' :: rest)))) := by simp
  rw [shape]
  refine members?_of_member quoted colonMark spells reads (by omega)
    (only'.ends_append (by simp) _) (.inl ⟨_, skipBlanks_mark only' (by decide) _, ?_⟩)
  rw [spells'.skipBlanks_before only'', reads' fuel _ blanks rest (by omega) only]
  simp

/-- Every spelling is read, by induction on its parts. -/
theorem Spells.reads {part : Part} (spells : Spells part text) : Reads part text := by
  induction spells with
  | null => exact .of_atom (by decide) (by decide) fun _ _ => rfl
  | isTrue => exact .of_atom (by decide) (by decide) fun _ _ => rfl
  | isFalse => exact .of_atom (by decide) (by decide) fun _ _ => rfl
  | number number => exact .number number
  | text quoted => exact .string quoted
  | noItems only => exact .noItems only
  | list only spells only' reads => exact .list only spells reads only'
  | noMembers only => exact .noMembers only
  | record only spells only' reads => exact .record only spells reads only'
  | item _ reads => exact reads.item
  | items _ mark spells reads reads' => exact reads.items mark spells reads'
  | member quoted mark spells reads => exact .member quoted mark spells reads
  | members quoted colon spells comma spells' reads reads' =>
      exact .members quoted colon spells reads comma spells' reads'

/-! ## Whatever is read is spelled -/

/-- What is read is spelled in front of what is left. -/
structure Sound (fuel : Nat) : Prop where
  value : ∀ {document text rest}, value? fuel text = some (document, rest) →
    ∃ used, Spells (.value document) used ∧ text = used ++ rest
  items : ∀ {done text document rest}, items? fuel done text = some (document, rest) →
    ∃ items used blanks, Spells (.items items) used ∧ Blanks blanks ∧
      document = .list (done.reverse ++ items) ∧ text = used ++ blanks ++ ']' :: rest
  members : ∀ {done text document rest}, members? fuel done text = some (document, rest) →
    ∃ members used blanks, Spells (.members members) used ∧ Blanks blanks ∧
      document = .record (done.reverse ++ members) ∧ text = used ++ blanks ++ '\x7d' :: rest

theorem spells_of_atom? (read : atom? text = some (document, rest)) :
    ∃ used, Spells (.value document) used ∧ text = used ++ rest := by
  unfold atom? at read
  split at read
  · next inside =>
      obtain ⟨⟨value, rest⟩, string, same⟩ := Option.map_eq_some_iff.mp read
      cases same
      obtain ⟨inside, quoted, rfl⟩ := quoted_of_string? string
      exact ⟨_, .text quoted, rfl⟩
  · next word =>
      obtain ⟨rest, after, same⟩ := Option.map_eq_some_iff.mp read
      cases same
      exact ⟨_, .null, by rw [after?_eq_some_iff.mp after]; rfl⟩
  · next word =>
      obtain ⟨rest, after, same⟩ := Option.map_eq_some_iff.mp read
      cases same
      exact ⟨_, .isTrue, by rw [after?_eq_some_iff.mp after]; rfl⟩
  · next word =>
      obtain ⟨rest, after, same⟩ := Option.map_eq_some_iff.mp read
      cases same
      exact ⟨_, .isFalse, by rw [after?_eq_some_iff.mp after]; rfl⟩
  · obtain ⟨used, number, rfl⟩ := number_of_number? read
    exact ⟨used, .number number, rfl⟩

theorem Sound.value_succ (sound : Sound fuel)
    (read : value? (fuel + 1) text = some (document, rest)) :
    ∃ used, Spells (.value document) used ∧ text = used ++ rest := by
  by_cases list : ∃ inside, text = '[' :: inside
  · obtain ⟨inside, rfl⟩ := list
    obtain ⟨blanks, only, parts⟩ := skipBlanks_spec inside
    obtain ⟨close, rfl⟩ | ⟨-, found⟩ := value?_list_eq_some_iff.mp read
    · rw [close] at parts
      exact ⟨_, .noItems only, by rw [parts]; simp⟩
    · obtain ⟨items, used, behind, spells, only', rfl, same⟩ := sound.items found
      rw [same] at parts
      exact ⟨_, .list only spells only', by rw [parts]; simp⟩
  by_cases record : ∃ inside, text = '\x7b' :: inside
  · obtain ⟨inside, rfl⟩ := record
    obtain ⟨blanks, only, parts⟩ := skipBlanks_spec inside
    obtain ⟨close, rfl⟩ | ⟨-, found⟩ := value?_record_eq_some_iff.mp read
    · rw [close] at parts
      exact ⟨_, .noMembers only, by rw [parts]; simp⟩
    · obtain ⟨members, used, behind, spells, only', rfl, same⟩ := sound.members found
      rw [same] at parts
      exact ⟨_, .record only spells only', by rw [parts]; simp⟩
  · have atom : value? (fuel + 1) text = atom? text := by
      refine value?_atom fun c mem => ?_
      obtain ⟨inside, rfl⟩ := List.head?_eq_some_iff.mp mem
      exact ⟨fun same => list ⟨inside, by rw [same]⟩, fun same => record ⟨inside, by rw [same]⟩⟩
    rw [atom] at read
    exact spells_of_atom? read

theorem Sound.items_succ (sound : Sound fuel) {done : List Document}
    (read : items? (fuel + 1) done text = some (document, rest)) :
    ∃ items used blanks, Spells (.items items) used ∧ Blanks blanks ∧
      document = .list (done.reverse ++ items) ∧ text = used ++ blanks ++ ']' :: rest := by
  obtain ⟨item, behind, found, last⟩ := items?_eq_some_iff.mp read
  obtain ⟨used, spells, rfl⟩ := sound.value found
  obtain ⟨before, only, parts⟩ := skipBlanks_spec behind
  obtain ⟨others, comma, found'⟩ | ⟨close, rfl⟩ := last
  · obtain ⟨behind', only', parts'⟩ := skipBlanks_spec others
    obtain ⟨items, used', blanks, spells', only'', rfl, same⟩ := sound.items found'
    rw [same] at parts'
    rw [comma, parts'] at parts
    exact ⟨_, _, blanks, .items spells (.mk only only') spells', only'', by simp,
      by rw [parts]; simp⟩
  · rw [close] at parts
    exact ⟨_, used, before, .item spells, only, rfl, by rw [parts]; simp⟩

theorem Sound.members_succ (sound : Sound fuel) {done : List (Option String × Document)}
    (read : members? (fuel + 1) done text = some (document, rest)) :
    ∃ members used blanks, Spells (.members members) used ∧ Blanks blanks ∧
      document = .record (done.reverse ++ members) ∧ text = used ++ blanks ++ '\x7d' :: rest := by
  obtain ⟨inside, key, behind, colon, value, end', rfl, named, marked, found, last⟩ :=
    members?_eq_some_iff.mp read
  obtain ⟨inside, quoted, rfl⟩ := quoted_of_string? named
  obtain ⟨before, only, parts⟩ := skipBlanks_spec behind
  obtain ⟨before', only', parts'⟩ := skipBlanks_spec colon
  obtain ⟨used, spells, same⟩ := sound.value found
  obtain ⟨blanks, only'', parts''⟩ := skipBlanks_spec end'
  rw [same] at parts'
  rw [marked, parts'] at parts
  obtain ⟨others, comma, found'⟩ | ⟨close, rfl⟩ := last
  · obtain ⟨behind', only₃, parts₃⟩ := skipBlanks_spec others
    obtain ⟨members, used', blanks', spells', only₄, rfl, same'⟩ := sound.members found'
    rw [same'] at parts₃
    rw [comma, parts₃] at parts''
    rw [parts''] at parts
    exact ⟨_, _, blanks', .members quoted (.mk only only') spells (.mk only'' only₃) spells', only₄,
      by simp, by rw [parts]; simp⟩
  · rw [close] at parts''
    rw [parts''] at parts
    exact ⟨_, _, blanks, .member quoted (.mk only only') spells, only'', rfl,
      by rw [parts]; simp⟩

/-- The readers call each other with less fuel, so that they are sound together. -/
theorem sound (fuel : Nat) : Sound fuel := by
  induction fuel with
  | zero =>
      constructor
      · intro document text rest read
        simp [value?] at read
      · intro done text document rest read
        simp [items?] at read
      · intro done text document rest read
        simp [members?] at read
  | succ fuel ih => exact ⟨ih.value_succ, ih.items_succ, ih.members_succ⟩

/-- Reading finds a document in a text exactly if the text spells it. -/
theorem parse?_eq_some_iff {text : String} :
    parse? text = some document ↔ Spelled document text := by
  constructor
  · intro parsed
    simp only [parse?] at parsed
    split at parsed
    · next found rest read =>
        split at parsed
        · next last =>
            cases parsed
            obtain ⟨before, only, parts⟩ := skipBlanks_spec text.toList
            obtain ⟨behind, only', parts'⟩ := skipBlanks_spec rest
            obtain ⟨used, spells, same⟩ := (sound _).value read
            rw [List.isEmpty_iff.mp last, List.append_nil] at parts'
            refine ⟨before, used, behind, only, spells, only', ?_⟩
            rw [parts, same, parts', List.append_assoc]
        · cases parsed
    · cases parsed
  · rintro ⟨before, body, behind, only, spells, only', parts⟩
    have start : skipBlanks text.toList = body ++ behind := by
      rw [parts, List.append_assoc, spells.skipBlanks_before only]
    have read : value? (2 * text.toList.length + 2) (body ++ behind) = some (document, behind) := by
      refine spells.reads _ _ ?_ only'.ends
      rw [parts, List.length_append, List.length_append]
      omega
    have last : skipBlanks behind = [] := List.dropWhile_eq_nil_iff.mpr only'
    simp only [parse?, start, read, last, List.isEmpty_nil, if_true]

end Json

end ResourcePack
