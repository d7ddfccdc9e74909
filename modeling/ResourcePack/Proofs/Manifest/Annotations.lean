import ResourcePack.Proofs.Manifest.RoundTrip

/-!
# Annotations in a manifest

Tools may put members of their own into the records of a manifest, and may put the members
there in any order. None of this changes the manifest, as long as every key is text.
-/

namespace ResourcePack

namespace Manifest

open Document

/-- A member that stays as it is, or keeps its name and has its value altered. -/
def Altered (alter : String → Document → Document → Prop)
    (member member' : Option String × Document) : Prop :=
  member' = member ∨ ∃ name value value', member = (some name, value) ∧
    member' = (some name, value') ∧ alter name value value'

/-- A record with fields `names` in any order and with members inserted, whose keys are
`allowed` and none of the names. Fields may be altered, also where they are given as a
list. -/
inductive Annotated (allowed : Option String → Prop) (names : List String)
    (alter : String → Document → Document → Prop) : Document → Document → Prop where
  | record {members kept inserted members' : List (Option String × Document)} :
      List.Forall₂ (Altered alter) members kept →
      (∀ member ∈ inserted, allowed member.1 ∧ ∀ name ∈ names, member.1 ≠ some name) →
      members'.Perm (kept ++ inserted) →
      Annotated allowed names alter (.record members) (.record members')
  | list {items items' : List Document} : items'.length = items.length →
      List.Forall₂ (Altered alter) ((names.map some).zip items) ((names.map some).zip items') →
      Annotated allowed names alter (.list items) (.list items')

/-- An input with annotations. -/
def InputAnnotated (allowed : Option String → Prop) : Document → Document → Prop :=
  Annotated allowed Input.fields fun _ _ _ => False

/-- A resource with annotations, some of them in its input. -/
def ResourceAnnotated (allowed : Option String → Prop) : Document → Document → Prop :=
  Annotated allowed Resource.fields fun name value value' =>
    name = "input" ∧ InputAnnotated allowed value value'

/-- A manifest with annotations, some of them in its resources. -/
def ManifestAnnotated (allowed : Option String → Prop) : Document → Document → Prop :=
  Annotated allowed fields fun name value value' =>
    name = "resources" ∧ ∃ items items', value = .list items ∧ value' = .list items' ∧
      List.Forall₂ (ResourceAnnotated allowed) items items'

section Fields

variable {allowed : Option String → Prop} {names : List String} {surplus : Surplus}
variable {alter : String → Document → Document → Prop}
variable {members kept inserted members' : List (Option String × Document)}

/-- The value of a field that stays as it is or is altered. -/
def FieldAltered (alter : String → Document → Document → Prop) (name : String)
    (field field' : Option Document) : Prop :=
  field' = field ∨ ∃ value value', field = some value ∧ field' = some value' ∧
    alter name value value'

theorem Altered.key {member member' : Option String × Document}
    (altered : Altered alter member member') : member'.1 = member.1 := by
  obtain rfl | ⟨name, value, value', rfl, rfl, -⟩ := altered
  · rfl
  · rfl

theorem keys_eq (altered : List.Forall₂ (Altered alter) members kept) :
    kept.map Prod.fst = members.map Prod.fst := by
  induction altered with
  | nil => rfl
  | cons here _ ih => rw [List.map_cons, List.map_cons, here.key, ih]

/-- No name is given more often than before. -/
theorem countP_annotated (altered : List.Forall₂ (Altered alter) members kept)
    (others : ∀ member ∈ inserted, ∀ name ∈ names, member.1 ≠ some name)
    (order : members'.Perm (kept ++ inserted)) {name : String} (isName : name ∈ names) :
    members'.countP (·.1 = some name) = members.countP (·.1 = some name) := by
  have none : inserted.countP (·.1 = some name) = 0 :=
    List.countP_eq_zero.mpr fun member mem => by simpa using others member mem name isName
  rw [order.countP_eq, List.countP_append, none, countP_key, keys_eq altered, countP_key,
    Nat.add_zero]

/-- What is found under a name is what was found there, or an alteration of it. -/
theorem lookup_annotated (altered : List.Forall₂ (Altered alter) members kept)
    (others : ∀ member ∈ inserted, ∀ name ∈ names, member.1 ≠ some name)
    (order : members'.Perm (kept ++ inserted)) {name : String} (isName : name ∈ names)
    (once : members.countP (·.1 = some name) ≤ 1) :
    FieldAltered alter name (members.lookup (some name)) (members'.lookup (some name)) := by
  have once' : members'.countP (·.1 = some name) ≤ 1 := by
    rwa [countP_annotated altered others order isName]
  cases found : members.lookup (some name) with
  | some value =>
      have mem := (lookup_eq_some_iff once).mp found
      obtain ⟨member', mem', here⟩ := Outcome.exists_item altered.flip _ mem
      have there : member' ∈ members' := order.mem_iff.mpr (List.mem_append_left _ mem')
      obtain rfl | ⟨_, _, value', same, rfl, change⟩ := here
      · exact .inl ((lookup_eq_some_iff once').mpr there)
      · cases same
        exact .inr ⟨value, value', rfl, (lookup_eq_some_iff once').mpr there, change⟩
  | none =>
      refine .inl (Option.eq_none_iff_forall_ne_some.mpr fun value' found' => ?_)
      have there := order.mem_iff.mp ((lookup_eq_some_iff once').mp found')
      obtain mem | mem := List.mem_append.mp there
      · obtain ⟨⟨key, value⟩, mem', here⟩ := Outcome.exists_item altered _ mem
        obtain rfl : some name = key := here.key
        rw [(lookup_eq_some_iff once).mpr mem'] at found
        cases found
      · exact others _ mem name isName rfl

/-- A record with annotations gives the fields that it gave before, altered or not. -/
theorem fields?_annotated (altered : List.Forall₂ (Altered alter) members kept)
    (texts : ∀ member ∈ inserted, member.1.isSome = true)
    (others : ∀ member ∈ inserted, ∀ name ∈ names, member.1 ≠ some name)
    (order : members'.Perm (kept ++ inserted)) {values : List (Option Document)}
    (found : (record members).fields? surplus names = some values) :
    ∃ field field' : String → Option Document, values = names.map field ∧
      (record members').fields? surplus names = some (names.map field') ∧
      ∀ name ∈ names, FieldAltered alter name (field name) (field' name) := by
  obtain ⟨keys, once, rfl⟩ := fields?_record_eq_some_iff.mp found
  refine ⟨_, _, rfl, fields?_record_eq_some_iff.mpr ⟨?_, ?_, rfl⟩, ?_⟩
  · intro member' mem
    obtain mem | mem := List.mem_append.mp (order.mem_iff.mp mem)
    · obtain ⟨member, mem', here⟩ := Outcome.exists_item altered member' mem
      rw [here.key]
      exact keys member mem'
    · exact texts member' mem
  · intro name isName
    rw [countP_annotated altered others order isName]
    exact once name isName
  · intro name isName
    exact lookup_annotated altered others order isName (once name isName)

/-- A list of fields is the record of them, and nothing is inserted there. -/
theorem Annotated.fields? {document document' : Document}
    (annotated : Annotated allowed names alter document document') (distinct : names.Nodup)
    (texts : ∀ key, allowed key → key.isSome = true) {values : List (Option Document)}
    (found : document.fields? surplus names = some values) :
    ∃ field field' : String → Option Document, values = names.map field ∧
      document'.fields? surplus names = some (names.map field') ∧
      ∀ name ∈ names, FieldAltered alter name (field name) (field' name) := by
  cases annotated with
  | record altered inserted order =>
      exact fields?_annotated altered (fun member mem => texts _ (inserted member mem).1)
        (fun member mem => (inserted member mem).2) order found
  | @list items items' length altered =>
      rw [fields?_list distinct] at found
      rw [fields?_list distinct, length]
      split at found
      · cases found
      · next fits =>
          rw [if_neg fits]
          have order : ((names.map some).zip items').Perm ((names.map some).zip items' ++ []) := by
            rw [List.append_nil]
          exact fields?_annotated altered (by simp) (by simp) order found

end Fields

/-! ## Inputs, resources and manifests -/

variable {allowed : Option String → Prop} {surplus : Surplus} {document document' : Document}

theorem Input.ofDocument?_annotated {input : Input}
    (texts : ∀ key, allowed key → key.isSome = true)
    (annotated : InputAnnotated allowed document document')
    (read : Input.ofDocument? surplus document = some input) :
    Input.ofDocument? surplus document' = some input := by
  obtain ⟨values, found, made⟩ := Option.bind_eq_some_iff.mp read
  obtain ⟨field, field', rfl, found', changes⟩ := annotated.fields? (by decide) texts found
  have same : Input.fields.map field' = Input.fields.map field := by
    refine List.map_congr_left fun name isName => ?_
    obtain same | ⟨_, _, _, _, change⟩ := changes name isName
    · exact same
    · exact change.elim
  rw [same] at found'
  exact Option.bind_eq_some_iff.mpr ⟨_, found', made⟩

theorem Resource.ofDocument?_eq_some_iff {resource : Resource} {field : String → Option Document}
    (found : document.fields? surplus Resource.fields = some (Resource.fields.map field)) :
    Resource.ofDocument? surplus document = some resource ↔
      required? text? (field "name") = some resource.name ∧
      required? (Input.ofDocument? surplus) (field "input") = some resource.input := by
  obtain ⟨name, input⟩ := resource
  simp only [Resource.ofDocument?, found]
  simp only [Resource.fields, List.map_cons, List.map_nil, Option.bind_eq_bind, Option.bind_some,
    Option.bind_eq_some_iff, Option.pure_def, Option.some_inj, Resource.mk.injEq]
  simp

theorem Resource.ofDocument?_annotated {resource : Resource}
    (texts : ∀ key, allowed key → key.isSome = true)
    (annotated : ResourceAnnotated allowed document document')
    (read : Resource.ofDocument? surplus document = some resource) :
    Resource.ofDocument? surplus document' = some resource := by
  obtain ⟨values, found, -⟩ := Option.bind_eq_some_iff.mp read
  obtain ⟨field, field', rfl, found', changes⟩ := annotated.fields? (by decide) texts found
  obtain ⟨name, input⟩ := (Resource.ofDocument?_eq_some_iff found).mp read
  refine (Resource.ofDocument?_eq_some_iff found').mpr ⟨?_, ?_⟩
  · obtain same | ⟨_, _, _, _, other, -⟩ := changes "name" (by decide)
    · rw [same, name]
    · exact absurd other (by decide)
  · obtain same | ⟨value, value', old, new, -, change⟩ := changes "input" (by decide)
    · rw [same, input]
    · rw [old] at input
      rw [new]
      exact Input.ofDocument?_annotated texts change input

theorem ofDocument?_eq_some_iff {manifest : Manifest} {field : String → Option Document}
    (found : document.fields? surplus fields = some (fields.map field)) :
    ofDocument? surplus document = some manifest ↔
      ((field "references").mapM references?).map (·.getD .empty) = some manifest.references ∧
      optional? text? (field "palette") = some manifest.palette ∧
      required? (list? (Resource.ofDocument? surplus)) (field "resources") =
        some manifest.resources := by
  obtain ⟨references, palette, resources⟩ := manifest
  simp only [ofDocument?, found]
  simp only [fields, List.map_cons, List.map_nil, Option.bind_eq_bind, Option.bind_some,
    Option.bind_eq_some_iff, Option.pure_def, Option.some_inj, Manifest.mk.injEq]
  simp

/-- Every resource of a list is read as before. -/
theorem resources_annotated {items items' : List Document} {resources : List Resource}
    (texts : ∀ key, allowed key → key.isSome = true)
    (annotated : List.Forall₂ (ResourceAnnotated allowed) items items')
    (read : items.mapM (Resource.ofDocument? surplus) = some resources) :
    items'.mapM (Resource.ofDocument? surplus) = some resources := by
  rw [Outcome.mapM_eq_some_iff] at read ⊢
  induction annotated generalizing resources with
  | nil =>
      cases read
      exact .nil
  | cons here _ ih =>
      cases read with
      | cons first later =>
          exact .cons (Resource.ofDocument?_annotated texts here first) (ih later)

theorem ofDocument?_annotated {manifest : Manifest}
    (texts : ∀ key, allowed key → key.isSome = true)
    (annotated : ManifestAnnotated allowed document document')
    (read : ofDocument? surplus document = some manifest) :
    ofDocument? surplus document' = some manifest := by
  obtain ⟨values, found, -⟩ := Option.bind_eq_some_iff.mp read
  obtain ⟨field, field', rfl, found', changes⟩ := annotated.fields? (by decide) texts found
  obtain ⟨references, palette, resources⟩ := (ofDocument?_eq_some_iff found).mp read
  refine (ofDocument?_eq_some_iff found').mpr ⟨?_, ?_, ?_⟩
  · obtain same | ⟨_, _, _, _, other, -⟩ := changes "references" (by decide)
    · rw [same, references]
    · exact absurd other (by decide)
  · obtain same | ⟨_, _, _, _, other, -⟩ := changes "palette" (by decide)
    · rw [same, palette]
    · exact absurd other (by decide)
  · obtain same | ⟨_, _, old, new, -, items, items', rfl, rfl, change⟩ :=
      changes "resources" (by decide)
    · rw [same, resources]
    · rw [old] at resources
      rw [new]
      exact resources_annotated texts change resources

/-! ## Keys that are text -/

theorem altered_restrict {alter alter' : String → Document → Document → Prop}
    {members kept : List (Option String × Document)}
    (altered : List.Forall₂ (Altered alter) members kept)
    (still : ∀ name value value', (some name, value') ∈ kept → alter name value value' →
      alter' name value value') : List.Forall₂ (Altered alter') members kept := by
  induction altered with
  | nil => exact .nil
  | cons here _ ih =>
      refine .cons ?_ (ih fun name value value' mem =>
        still name value value' (List.mem_cons_of_mem _ mem))
      obtain rfl | ⟨name, value, value', rfl, rfl, change⟩ := here
      · exact .inl rfl
      · exact .inr ⟨name, value, value', rfl, rfl, still _ _ _ List.mem_cons_self change⟩

/-- Where a record with annotations is taken, every key that was inserted is text. -/
theorem Annotated.restrict {names : List String} {field : String → Option Document}
    {alter alter' : String → Document → Document → Prop}
    (annotated : Annotated allowed names alter document document') (distinct : names.Nodup)
    (found : document'.fields? surplus names = some (names.map field))
    (still : ∀ name value value', alter name value value' →
      name ∈ names ∧ (field name = some value' → alter' name value value')) :
    Annotated (·.isSome = true) names alter' document document' := by
  -- What a name that is altered has in the members is its field.
  have restricted : ∀ {members members' : List (Option String × Document)},
      (∀ name ∈ names, members'.countP (·.1 = some name) ≤ 1) →
      names.map (fun name => members'.lookup (some name)) = names.map field →
      ∀ {kept}, List.Forall₂ (Altered alter) members kept → kept ⊆ members' →
      List.Forall₂ (Altered alter') members kept := by
    intro members members' once lookups kept altered within
    refine altered_restrict altered fun name value value' mem change => ?_
    obtain ⟨isName, change'⟩ := still name value value' change
    have read := (lookup_eq_some_iff (once name isName)).mpr (within mem)
    rw [List.map_inj_left.mp lookups name isName] at read
    exact change' read
  cases annotated with
  | record altered inserted order =>
      obtain ⟨keys, once, lookups⟩ := fields?_record_eq_some_iff.mp found
      refine .record (restricted once lookups altered ?_) ?_ order
      · exact fun member mem => order.mem_iff.mpr (List.mem_append_left _ mem)
      · intro member mem
        exact ⟨keys member (order.mem_iff.mpr (List.mem_append_right _ mem)),
          (inserted member mem).2⟩
  | list length altered =>
      rw [fields?_list distinct] at found
      split at found
      · cases found
      · obtain ⟨-, once, lookups⟩ := fields?_record_eq_some_iff.mp found
        exact .list length (restricted once lookups altered fun _ mem => mem)

theorem InputAnnotated.restrict {input : Input}
    (annotated : InputAnnotated allowed document document')
    (read : Input.ofDocument? surplus document' = some input) :
    InputAnnotated (·.isSome = true) document document' := by
  obtain ⟨values, found, -⟩ := Option.bind_eq_some_iff.mp read
  obtain ⟨field, rfl⟩ := exists_field (by decide) found
  exact Annotated.restrict annotated (by decide) found fun _ _ _ change => change.elim

theorem ResourceAnnotated.restrict {resource : Resource}
    (annotated : ResourceAnnotated allowed document document')
    (read : Resource.ofDocument? surplus document' = some resource) :
    ResourceAnnotated (·.isSome = true) document document' := by
  obtain ⟨values, found, -⟩ := Option.bind_eq_some_iff.mp read
  obtain ⟨field, rfl⟩ := exists_field (by decide) found
  obtain ⟨-, input⟩ := (Resource.ofDocument?_eq_some_iff found).mp read
  refine Annotated.restrict annotated (by decide) found ?_
  rintro name value value' ⟨rfl, change⟩
  refine ⟨by decide, fun there => ⟨rfl, ?_⟩⟩
  rw [there] at input
  exact change.restrict input

theorem resources_restrict {items items' : List Document} {resources : List Resource}
    (annotated : List.Forall₂ (ResourceAnnotated allowed) items items')
    (read : items'.mapM (Resource.ofDocument? surplus) = some resources) :
    List.Forall₂ (ResourceAnnotated (·.isSome = true)) items items' := by
  rw [Outcome.mapM_eq_some_iff] at read
  induction annotated generalizing resources with
  | nil => exact .nil
  | cons here _ ih =>
      cases read with
      | cons first later => exact .cons (here.restrict first) (ih later)

theorem ManifestAnnotated.restrict {manifest : Manifest}
    (annotated : ManifestAnnotated allowed document document')
    (read : ofDocument? surplus document' = some manifest) :
    ManifestAnnotated (·.isSome = true) document document' := by
  obtain ⟨values, found, -⟩ := Option.bind_eq_some_iff.mp read
  obtain ⟨field, rfl⟩ := exists_field (by decide) found
  obtain ⟨-, -, resources⟩ := (ofDocument?_eq_some_iff found).mp read
  refine Annotated.restrict annotated (by decide) found ?_
  rintro name value value' ⟨rfl, items, items', rfl, rfl, changes⟩
  refine ⟨by decide, fun there => ⟨rfl, items, items', rfl, rfl, ?_⟩⟩
  rw [there] at resources
  exact resources_restrict changes resources

/-! ## Texts -/

/-- A text that was annotated is read as before exactly if the keys in the annotations are
text. -/
theorem annotated_reads_alike_iff {text text' : String} {manifest : Manifest}
    (spelled : Json.Spelled document text) (accepted : parseJson text = .ok manifest)
    (annotated : ManifestAnnotated (fun _ => True) document document')
    (spelled' : Json.Spelled document' text') :
    parseJson text' = .ok manifest ↔ ManifestAnnotated (·.isSome = true) document document' := by
  rw [parseJson_eq_ok_iff spelled] at accepted
  rw [parseJson_eq_ok_iff spelled']
  constructor
  · exact fun read => annotated.restrict read
  · exact fun textual => ofDocument?_annotated (fun _ text => text) textual accepted

/-- Members behind the others are annotations. -/
theorem annotated_append {names : List String} {alter : String → Document → Document → Prop}
    {members kept : List (Option String × Document)}
    (altered : List.Forall₂ (Altered alter) members kept)
    (inserted : List (Option String × Document))
    (others : ∀ member ∈ inserted, allowed member.1 ∧ ∀ name ∈ names, member.1 ≠ some name) :
    Annotated allowed names alter (.record members) (.record (kept ++ inserted)) :=
  .record altered others (.refl _)

theorem unaltered {alter : String → Document → Document → Prop}
    (members : List (Option String × Document)) : List.Forall₂ (Altered alter) members members :=
  List.forall₂_same.mpr fun _ _ => .inl rfl

/-- A field that is given twice is refused, unlike a key that is no field. -/
theorem parseJson_repeated {text : String} {members : List (Option String × Document)}
    {name : String} (spelled : Json.Spelled (.record members) text) (isName : name ∈ fields)
    (twice : 1 < members.countP (·.1 = some name)) : parseJson text = .error .notJson := by
  have refused : ofDocument? .refused (.record members) = none := by
    rw [ofDocument?, fields?_repeated isName twice]
    rfl
  rw [parseJson, Json.parse?_eq_some_iff.mpr spelled, Option.bind_some, refused]

/-- A manifest with a file in it. -/
def oneFile : Manifest where
  references := .empty
  palette := some "p"
  resources := [⟨"A", ⟨"file", some "a", none, none, none, none⟩⟩]

/-- The same in another order and with notes in every record. -/
def noted : Document :=
  .object [("resources", .list [.object [
      ("name", .str "A"),
      ("input", .object [("type", .str "file"), ("file", .str "a"), ("note", .list [.null])]),
      ("note", .object [])]]),
    ("references", .object []), ("palette", .str "p"), ("note", .nat 1), ("note", .nat 2)]

theorem manifestAnnotated_noted (texts : ∀ key : String, allowed (some key)) :
    ManifestAnnotated allowed oneFile.toDocument noted := by
  have input : InputAnnotated allowed (.object [("type", .str "file"), ("file", .str "a")])
      (.object [("type", .str "file"), ("file", .str "a"), ("note", .list [.null])]) :=
    annotated_append (unaltered _) [(some "note", .list [.null])] (by simp [texts, Input.fields])
  have resource : ResourceAnnotated allowed
      (.object [("name", .str "A"), ("input", .object [("type", .str "file"), ("file", .str "a")])])
      (.object [("name", .str "A"),
        ("input", .object [("type", .str "file"), ("file", .str "a"), ("note", .list [.null])]),
        ("note", .object [])]) :=
    annotated_append (.cons (.inl rfl) (.cons (.inr ⟨_, _, _, rfl, rfl, rfl, input⟩) .nil))
      [(some "note", .object [])] (by simp [texts, Resource.fields])
  have order : ∀ references palette resources note note' : Option String × Document,
      [resources, references, palette, note, note'].Perm
        ([references, palette, resources] ++ [note, note']) := by
    intro references palette resources note note'
    exact (List.perm_append_singleton resources [references, palette]).symm.append_right _
  exact .record
    (.cons (.inl rfl) (.cons (.inl rfl)
      (.cons (.inr ⟨_, _, _, rfl, rfl, rfl, _, _, rfl, rfl, .cons resource .nil⟩) .nil)))
    (by simp [texts, fields]) (order _ _ _ _ _)

theorem noted_reads_alike :
    Json.Spelled oneFile.toDocument oneFile.toDocument.compact ∧
      parseJson oneFile.toDocument.compact = .ok oneFile ∧
      ManifestAnnotated (·.isSome = true) oneFile.toDocument noted ∧
      Json.Spelled noted noted.compact ∧ parseJson noted.compact = .ok oneFile := by
  have spelled := oneFile.plain_toDocument.spelled_compact
  have accepted := (parseJson_eq_ok_iff spelled).mpr (oneFile.ofDocument?_toDocument _)
  have plain : noted.Plain := by
    simp [noted, plain_object_iff, plain_list_iff, Plain.text, Plain.integer, Plain.null]
  have textual : ManifestAnnotated (·.isSome = true) oneFile.toDocument noted :=
    manifestAnnotated_noted fun _ => rfl
  exact ⟨spelled, accepted, textual, plain.spelled_compact,
    (annotated_reads_alike_iff spelled accepted (manifestAnnotated_noted fun _ => trivial)
      plain.spelled_compact).mpr textual⟩

/-- The members of a manifest without resources. -/
def noResources : List (Option String × Document) :=
  [(some "palette", .str "p"), (some "resources", .list [])]

theorem plain_record_noResources (note : List (Option String × Document))
    (plain : ∀ member ∈ note, member.2.Plain) : (Document.record (noResources ++ note)).Plain := by
  refine .record fun member mem => ?_
  obtain mem | mem := List.mem_append.mp mem
  · simp only [noResources, List.mem_cons, List.not_mem_nil, or_false] at mem
    obtain rfl | rfl := mem
    · exact .text _
    · exact .list (by simp)
  · exact plain member mem

/-- With half of a surrogate pair for a key, a manifest is not read any more. -/
theorem half_pair_key_refused :
    ∃ (document document' : Document) (manifest : Manifest),
      Json.Spelled document "\x7b\"palette\":\"p\",\"resources\":[]\x7d" ∧
      parseJson "\x7b\"palette\":\"p\",\"resources\":[]\x7d" = .ok manifest ∧
      ManifestAnnotated (fun _ => True) document document' ∧
      Json.Spelled document' "\x7b\"palette\":\"p\",\"resources\":[],\"\\ud800\":1\x7d" ∧
      parseJson "\x7b\"palette\":\"p\",\"resources\":[],\"\\ud800\":1\x7d" = .error .notJson := by
  have text : (Document.record (noResources ++ [])).compact =
      "\x7b\"palette\":\"p\",\"resources\":[]\x7d" := by decide
  have text' : (Document.record (noResources ++ [(none, .nat 1)])).compact =
      "\x7b\"palette\":\"p\",\"resources\":[],\"\\ud800\":1\x7d" := by decide
  have spelled := (plain_record_noResources [] (by simp)).spelled_compact
  have spelled' :=
    (plain_record_noResources [(none, .nat 1)] (by simp [Document.Plain.integer])).spelled_compact
  rw [text] at spelled
  rw [text'] at spelled'
  have refused : ofDocument? .refused (.record (noResources ++ [(none, .nat 1)])) = none := rfl
  refine ⟨_, _, ⟨.empty, some "p", []⟩, spelled, (parseJson_eq_ok_iff spelled).mpr rfl,
    annotated_append (unaltered _) [(none, .nat 1)] (by simp), spelled', ?_⟩
  rw [parseJson, Json.parse?_eq_some_iff.mpr spelled', Option.bind_some, refused]

end Manifest

end ResourcePack
