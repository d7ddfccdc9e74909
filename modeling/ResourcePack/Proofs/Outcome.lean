import Mathlib.Data.List.Forall2

/-!
# Opening a computation

A computation made of steps succeeds exactly if each step does, with the value that the
next one gets, and fails exactly if one of them does. These equations take one apart without
unfolding the steps. One that treats the items of a list in turn has a result for each, or
it fails as the first item does that cannot be treated.
-/

namespace ResourcePack.Outcome

variable {ε ε' α β : Type}

theorem bind_eq_ok {x : Except ε α} {f : α → Except ε β} {b : β} :
    (x >>= f) = .ok b ↔ ∃ a, x = .ok a ∧ f a = .ok b := by
  cases x with
  | error cause => simp [bind, Except.bind]
  | ok a => simp [bind, Except.bind]

theorem map_eq_ok {x : Except ε α} {f : α → β} {b : β} :
    x.map f = .ok b ↔ ∃ a, x = .ok a ∧ f a = b := by
  cases x with
  | error cause => simp [Except.map]
  | ok a => simp [Except.map]

theorem exists_of_isOk {x : Except ε α} (succeeds : x.isOk = true) : ∃ a, x = .ok a := by
  cases x with
  | error cause => cases succeeds
  | ok a => exact ⟨a, rfl⟩

/-- A success says nothing about how failures are renamed. -/
theorem mapError_eq_ok {x : Except ε α} {f : ε → ε'} {a : α} :
    x.mapError f = .ok a ↔ x = .ok a := by
  cases x with
  | error cause => constructor <;> intro failed <;> cases failed
  | ok a => constructor <;> intro same <;> cases same <;> rfl

theorem bind_eq_error {x : Except ε α} {f : α → Except ε β} {cause : ε} :
    (x >>= f) = .error cause ↔ x = .error cause ∨ ∃ a, x = .ok a ∧ f a = .error cause := by
  cases x with
  | error other => simp [bind, Except.bind]
  | ok a => simp [bind, Except.bind]

theorem map_eq_error {x : Except ε α} {f : α → β} {cause : ε} :
    x.map f = .error cause ↔ x = .error cause := by
  cases x with
  | error other => simp [Except.map]
  | ok a => simp [Except.map]

theorem mapError_eq_error {x : Except ε α} {f : ε → ε'} {cause : ε'} :
    x.mapError f = .error cause ↔ ∃ other, x = .error other ∧ f other = cause := by
  cases x with
  | error other => simp [Except.mapError]
  | ok a => simp [Except.mapError]

/-- What does not fail succeeds. -/
theorem exists_ok_iff {x : Except ε α} : (∃ a, x = .ok a) ↔ ∀ cause, x ≠ .error cause := by
  cases x <;> simp

/-- Only what is there can be treated. -/
theorem optional_eq_error_iff {step : α → Except ε β} {item : Option α} {cause : ε} :
    item.mapM step = .error cause ↔ ∃ a, item = some a ∧ step a = .error cause := by
  cases item with
  | none => exact iff_of_false nofun nofun
  | some a =>
      rw [Option.mapM_some]
      refine Outcome.map_eq_error.trans ?_
      simp

theorem optional_eq_ok_iff {step : α → Except ε β} {item : Option α} {result : Option β} :
    item.mapM step = .ok result ↔ Option.Rel (fun a b => step a = .ok b) item result := by
  cases item with
  | none =>
      cases result with
      | none => exact iff_of_true rfl .none
      | some b => exact iff_of_false nofun nofun
  | some a =>
      rw [Option.mapM_some]
      refine Outcome.map_eq_ok.trans ?_
      constructor
      · rintro ⟨b, treated, rfl⟩
        exact .some treated
      · rintro ⟨treated⟩
        exact ⟨_, treated, rfl⟩

/-- Every item has a result, in order. -/
theorem mapM_eq_some_iff {step : α → Option β} {items : List α} {results : List β} :
    items.mapM step = some results ↔ List.Forall₂ (step · = some ·) items results := by
  induction items generalizing results with
  | nil => cases results <;> simp
  | cons item items ih =>
      rw [List.mapM_cons, List.forall₂_cons_left_iff]
      constructor
      · intro all
        obtain ⟨result, here, all⟩ := Option.bind_eq_some_iff.mp all
        obtain ⟨others, later, same⟩ := Option.bind_eq_some_iff.mp all
        cases same
        exact ⟨result, others, here, ih.mp later, rfl⟩
      · rintro ⟨result, others, here, later, rfl⟩
        simp [here, ih.mpr later]

theorem exists_item {R : α → β → Prop} {items : List α} {results : List β}
    (each : List.Forall₂ R items results) : ∀ result ∈ results, ∃ item ∈ items, R item result := by
  induction each with
  | nil => simp
  | cons here _ ih =>
      rintro result (_ | ⟨_, mem⟩)
      · exact ⟨_, by simp, here⟩
      · obtain ⟨item, found, made⟩ := ih result mem
        exact ⟨item, by simp [found], made⟩

theorem exists_result {R : α → β → Prop} {items : List α} {results : List β}
    (each : List.Forall₂ R items results) : ∀ item ∈ items, ∃ result ∈ results, R item result :=
  exists_item each.flip

theorem exists_at {R : α → β → Prop} {items : List α} {results : List β}
    (each : List.Forall₂ R items results) {i : Nat} {item : α} (found : items[i]? = some item) :
    ∃ result, results[i]? = some result ∧ R item result := by
  induction each generalizing i with
  | nil => simp at found
  | cons here _ ih =>
      cases i with
      | zero =>
          cases found
          exact ⟨_, rfl, here⟩
      | succ i => exact ih found

/-- Items that have a result each have a list of results. -/
theorem exists_results {R : α → β → Prop} {items : List α}
    (each : ∀ item ∈ items, ∃ result, R item result) : ∃ results, List.Forall₂ R items results := by
  induction items with
  | nil => exact ⟨[], .nil⟩
  | cons item items ih =>
      obtain ⟨result, here⟩ := each item List.mem_cons_self
      obtain ⟨results, others⟩ := ih fun other member => each other (List.mem_cons_of_mem _ member)
      exact ⟨result :: results, .cons here others⟩

/-- The first item of a list with something to be said of it, and what that is. -/
structure First (P : α → β → Prop) (items : List α) (i : Nat) (item : α) (what : β) : Prop where
  found : items[i]? = some item
  here : P item what
  before : ∀ earlier ∈ items.take i, ∀ other, ¬ P earlier other

namespace First

variable {P Q : α → β → Prop} {items : List α} {i : Nat} {item other : α} {what : β}

theorem cons_zero_iff : First P (other :: items) 0 item what ↔ other = item ∧ P item what := by
  constructor
  · rintro ⟨found, here, -⟩
    exact ⟨Option.some.inj found, here⟩
  · rintro ⟨rfl, here⟩
    exact ⟨rfl, here, nofun⟩

theorem cons_succ_iff :
    First P (other :: items) (i + 1) item what ↔
      (∀ what, ¬ P other what) ∧ First P items i item what := by
  constructor
  · rintro ⟨found, here, before⟩
    rw [List.take_succ_cons, List.forall_mem_cons] at before
    exact ⟨before.1, found, here, before.2⟩
  · rintro ⟨none, found, here, before⟩
    refine ⟨found, here, ?_⟩
    rw [List.take_succ_cons, List.forall_mem_cons]
    exact ⟨none, before⟩

theorem congr (same : ∀ item what, P item what ↔ Q item what) :
    First P items i item what ↔ First Q items i item what := by
  obtain rfl : P = Q := funext₂ fun item what => propext (same item what)
  rfl

end First

section Treating

variable {γ : Type} (step : α → Except ε β) (rename : Nat → α → ε → ε') (finish : Nat → α → β → γ)

/-- Treat items in turn, of which the first one is at `position`, up to the first that fails. -/
def treat (position : Nat) : List α → Except ε' (List γ)
  | [] => .ok []
  | item :: rest => do
    let result ← (step item).mapError (rename position item)
    return finish position item result :: (← treat (position + 1) rest)

variable {step rename finish} {position : Nat} {items : List α}

theorem treat_congr {other : α → Except ε β} (same : ∀ item ∈ items, step item = other item) :
    treat step rename finish position items = treat other rename finish position items := by
  induction items generalizing position with
  | nil => rfl
  | cons item rest ih =>
      rw [List.forall_mem_cons] at same
      rw [treat, treat, same.1, ih same.2]

theorem treat_eq_error_iff {cause : ε'} :
    treat step rename finish position items = .error cause ↔ ∃ i item inner,
      First (fun item inner => step item = .error inner) items i item inner ∧
        cause = rename (position + i) item inner := by
  induction items generalizing position with
  | nil =>
      refine iff_of_false nofun ?_
      rintro ⟨i, item, inner, first, -⟩
      cases first.found
  | cons item rest ih =>
      have onward (i : Nat) : position + 1 + i = position + (i + 1) := by omega
      rw [treat, Outcome.bind_eq_error, mapError_eq_error]
      constructor
      · rintro (⟨inner, fails, rfl⟩ | ⟨result, treated, later⟩)
        · exact ⟨0, item, inner, First.cons_zero_iff.mpr ⟨rfl, fails⟩, rfl⟩
        · obtain fails | ⟨results, -, last⟩ := Outcome.bind_eq_error.mp later
          · obtain ⟨i, other, inner, first, rfl⟩ := ih.mp fails
            rw [mapError_eq_ok] at treated
            refine ⟨i + 1, other, inner, First.cons_succ_iff.mpr ⟨?_, first⟩, ?_⟩
            · intro cause fails
              cases treated.symm.trans fails
            · rw [onward]
          · cases last
      · rintro ⟨_ | i, other, inner, first, rfl⟩
        · obtain ⟨rfl, fails⟩ := First.cons_zero_iff.mp first
          exact .inl ⟨inner, fails, rfl⟩
        · obtain ⟨succeeds, first⟩ := First.cons_succ_iff.mp first
          cases treated : step item with
          | error cause => exact absurd treated (succeeds cause)
          | ok result =>
              refine .inr ⟨result, rfl, Outcome.bind_eq_error.mpr (.inl (ih.mpr ?_))⟩
              exact ⟨i, other, inner, first, by rw [onward]⟩

theorem exists_treat_iff :
    (∃ results, treat step rename finish position items = .ok results) ↔
      ∀ item ∈ items, ∃ result, step item = .ok result := by
  induction items generalizing position with
  | nil => exact iff_of_true ⟨[], rfl⟩ nofun
  | cons item rest ih =>
      rw [List.forall_mem_cons, ← @ih (position + 1)]
      constructor
      · rintro ⟨results, treated⟩
        obtain ⟨result, first, treated⟩ := Outcome.bind_eq_ok.mp treated
        obtain ⟨others, later, -⟩ := Outcome.bind_eq_ok.mp treated
        exact ⟨⟨result, mapError_eq_ok.mp first⟩, others, later⟩
      · rintro ⟨⟨result, first⟩, others, later⟩
        refine ⟨finish position item result :: others, ?_⟩
        rw [treat, first, later]
        rfl

theorem forall₂_of_treat {results : List γ}
    (treated : treat step rename finish position items = .ok results) :
    List.Forall₂ (fun item result => ∃ i b, step item = .ok b ∧ result = finish i item b)
      items results := by
  induction items generalizing position results with
  | nil =>
      cases treated
      exact .nil
  | cons item rest ih =>
      obtain ⟨b, first, treated⟩ := Outcome.bind_eq_ok.mp treated
      obtain ⟨others, later, treated⟩ := Outcome.bind_eq_ok.mp treated
      cases treated
      exact .cons ⟨position, b, mapError_eq_ok.mp first, rfl⟩ (ih later)

end Treating

end ResourcePack.Outcome
