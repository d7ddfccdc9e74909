import Mathlib.Data.List.Nodup
import ResourcePack.Document.Basic

/-!
# Fields of a record

The fields of a record are taken by name, so that a record with each name at most once is
as good as the set of its members. A record may be written with the fields that are set,
and it then gives back every field, set or not.
-/

namespace ResourcePack

namespace Document

variable {members : List (Option String × Document)} {names : List String} {surplus : Surplus}

/-- A record is taken if its keys are text and no field is given twice. -/
theorem fields?_record_eq_some_iff {values : List (Option Document)} :
    (record members).fields? surplus names = some values ↔
      (∀ member ∈ members, member.1.isSome = true) ∧
      (∀ name ∈ names, members.countP (·.1 = some name) ≤ 1) ∧
      names.map (fun name => members.lookup (some name)) = values := by
  simp [fields?, and_assoc]

theorem countP_key (members : List (Option String × Document)) (name : String) :
    members.countP (·.1 = some name) = (members.map Prod.fst).count (some name) := by
  simp [List.count_eq_countP, List.countP_map, Function.comp_def, beq_eq_decide]

/-- With different keys no name is given twice. -/
theorem countP_le_one (distinct : (members.map Prod.fst).Nodup) (name : String) :
    members.countP (·.1 = some name) ≤ 1 := by
  rw [countP_key]
  exact List.nodup_iff_count_le_one.mp distinct (some name)

/-- A field that is given twice is refused. -/
theorem fields?_repeated {name : String} (isName : name ∈ names)
    (twice : 1 < members.countP (·.1 = some name)) :
    (record members).fields? surplus names = none := by
  refine Option.eq_none_iff_forall_ne_some.mpr fun values found => ?_
  obtain ⟨-, once, -⟩ := fields?_record_eq_some_iff.mp found
  exact absurd (once name isName) (Nat.not_le.mpr twice)

/-- If a name is given at most once, what is found under it is the value given for it. -/
theorem lookup_eq_some_iff {name : String} {value : Document}
    (once : members.countP (·.1 = some name) ≤ 1) :
    members.lookup (some name) = some value ↔ (some name, value) ∈ members := by
  induction members with
  | nil => simp
  | cons member members ih =>
      obtain ⟨key, given⟩ := member
      rw [List.countP_cons] at once
      by_cases here : key = some name
      · subst here
        have others : members.countP (·.1 = some name) = 0 := by
          rw [if_pos (by simp)] at once
          omega
        rw [List.countP_eq_zero] at others
        rw [List.lookup_cons_self, List.mem_cons]
        constructor
        · intro found
          cases found
          exact .inl rfl
        · rintro (same | later)
          · cases same
            rfl
          · exact absurd (by simp) (others _ later)
      · rw [List.lookup_cons, List.mem_cons]
        have other : (some name == key) = false := beq_eq_false_iff_ne.mpr (Ne.symm here)
        simp only [other, ih (by omega)]
        constructor
        · exact .inr
        · rintro (same | later)
          · cases same
            exact absurd rfl here
          · exact later

theorem zip_fst_sublist {α β : Type} (xs : List α) (ys : List β) :
    ((xs.zip ys).map Prod.fst).Sublist xs := by
  induction xs generalizing ys with
  | nil => simp
  | cons x xs ih =>
      cases ys with
      | nil => simp
      | cons y ys => exact (ih ys).cons_cons x

/-- The fields in a list are found under the names they stand for. -/
theorem map_lookup_zip (distinct : names.Nodup) (items : List Document) :
    names.map (fun name => ((names.map some).zip items).lookup (some name)) =
      (items.map some ++ names.map fun _ => none).take names.length := by
  induction names generalizing items with
  | nil => rfl
  | cons name names ih =>
      obtain ⟨fresh, distinct⟩ := List.nodup_cons.mp distinct
      cases items with
      | nil => simp
      | cons item items =>
          have others : names.map (fun other =>
              (((name :: names).map some).zip (item :: items)).lookup (some other)) =
              names.map fun other => ((names.map some).zip items).lookup (some other) := by
            refine List.map_congr_left fun other mem => ?_
            have apart : (some other == some name) = false :=
              beq_eq_false_iff_ne.mpr fun same => fresh (Option.some.inj same ▸ mem)
            simp [List.lookup_cons, apart]
          rw [List.map_cons, others, ih distinct]
          simp only [List.map_cons, List.length_cons, List.cons_append, List.take_succ_cons,
            List.take_append, List.length_map, List.map_const', ← List.replicate_succ,
            List.take_replicate]
          rw [List.zip_cons_cons, List.lookup_cons_self]
          congr 3
          omega

/-- A list that is not too long is taken for the record of its fields. -/
theorem fields?_list (distinct : names.Nodup) (items : List Document) :
    (list items).fields? surplus names =
      if surplus = .refused ∧ names.length < items.length then none
      else (record ((names.map some).zip items)).fields? surplus names := by
  have texts : ∀ member ∈ (names.map some).zip items, member.1.isSome = true := by
    intro member mem
    obtain ⟨name, -, same⟩ := List.mem_map.mp (List.of_mem_zip mem).1
    rw [← same]
    rfl
  have distinct' : (((names.map some).zip items).map Prod.fst).Nodup :=
    (distinct.map fun _ _ => Option.some.inj).sublist (zip_fst_sublist _ _)
  have taken : (record ((names.map some).zip items)).fields? surplus names = some _ :=
    fields?_record_eq_some_iff.mpr ⟨texts, fun name _ => countP_le_one distinct' name, rfl⟩
  rw [taken, fields?, map_lookup_zip distinct]

/-- Every field has a value, or none, by its name. -/
theorem exists_field (distinct : names.Nodup) {document : Document}
    {values : List (Option Document)} (found : document.fields? surplus names = some values) :
    ∃ field : String → Option Document, values = names.map field := by
  cases document with
  | record members =>
      obtain ⟨-, -, rfl⟩ := fields?_record_eq_some_iff.mp found
      exact ⟨_, rfl⟩
  | list items =>
      rw [fields?_list distinct] at found
      split at found
      · cases found
      · obtain ⟨-, -, rfl⟩ := fields?_record_eq_some_iff.mp found
        exact ⟨_, rfl⟩
  | _ => simp [fields?] at found

/-! ## Fields that are set -/

/-- The members for those of the fields that are set. -/
def present (fields : List (String × Option Document)) : List (String × Document) :=
  fields.flatMap fun (name, value) => (value.map (name, ·)).toList

theorem mem_present {fields : List (String × Option Document)} {name : String}
    {value : Document} : (name, value) ∈ present fields ↔ (name, some value) ∈ fields := by
  rw [present, List.mem_flatMap]
  constructor
  · rintro ⟨⟨name', value'⟩, mem, found⟩
    obtain ⟨value, rfl, same⟩ := Option.map_eq_some_iff.mp (Option.mem_toList.mp found)
    cases same
    exact mem
  · intro mem
    exact ⟨_, mem, by simp⟩

theorem present_sublist (fields : List (String × Option Document)) :
    ((present fields).map Prod.fst).Sublist (fields.map Prod.fst) := by
  induction fields with
  | nil => exact .slnil
  | cons field fields ih =>
      obtain ⟨name, value⟩ := field
      cases value with
      | none => exact ih.cons name
      | some value => exact ih.cons_cons name

theorem object_eq (members : List (String × Document)) :
    object members = record (members.map fun member => (some member.1, member.2)) := rfl

/-- From the fields that are set, all fields are taken as they were. -/
theorem fields?_object_present (fields : List (String × Option Document))
    (distinct : (fields.map Prod.fst).Nodup) (surplus : Surplus) :
    (object (present fields)).fields? surplus (fields.map Prod.fst) =
      some (fields.map Prod.snd) := by
  have distinct' : (((present fields).map fun member =>
      (some member.1, member.2)).map Prod.fst).Nodup := by
    have keys := (distinct.sublist (present_sublist fields)).map fun _ _ => Option.some.inj
    simpa [Function.comp_def] using keys
  rw [object_eq]
  refine fields?_record_eq_some_iff.mpr ⟨?_, fun name _ => countP_le_one distinct' name, ?_⟩
  · intro member mem
    obtain ⟨field, -, rfl⟩ := List.mem_map.mp mem
    rfl
  · rw [List.map_map]
    refine List.map_congr_left fun field mem => ?_
    obtain ⟨name, value⟩ := field
    refine Option.ext fun document => ?_
    rw [Function.comp_apply, lookup_eq_some_iff (countP_le_one distinct' name), List.mem_map]
    constructor
    · rintro ⟨⟨name', value'⟩, found, same⟩
      cases same
      have both := List.inj_on_of_nodup_map distinct mem (mem_present.mp found) rfl
      exact (Prod.mk.inj both).2
    · rintro rfl
      exact ⟨(name, document), mem_present.mpr mem, rfl⟩

end Document

end ResourcePack
