import Mathlib.Data.List.Induction
import Mathlib.Data.List.Nodup
import ResourcePack.Picture.Quantized

/-!
# The order of first appearance

`firstSeen` adds a member at the end of what it has, unless it is there. So a longer list
only ever extends the result, and the position at which something first appears grows
along it.
-/

namespace ResourcePack

variable {α : Type} [DecidableEq α]

@[simp] theorem firstSeen_nil : firstSeen ([] : List α) = [] := rfl

/-- One more member, at the end of the list. -/
theorem firstSeen_concat (xs : List α) (x : α) :
    firstSeen (xs ++ [x]) = if x ∈ firstSeen xs then firstSeen xs else firstSeen xs ++ [x] := by
  rw [firstSeen, List.foldl_append]
  rfl

@[simp] theorem mem_firstSeen {xs : List α} {x : α} : x ∈ firstSeen xs ↔ x ∈ xs := by
  induction xs using List.reverseRecOn with
  | nil => simp
  | append_singleton xs y ih =>
      rw [firstSeen_concat, List.mem_append, List.mem_singleton]
      split
      · rename_i seen
        constructor
        · intro h
          exact Or.inl (ih.mp h)
        · rintro (h | rfl)
          · exact ih.mpr h
          · exact seen
      · rw [List.mem_append, List.mem_singleton, ih]

theorem nodup_firstSeen (xs : List α) : (firstSeen xs).Nodup := by
  induction xs using List.reverseRecOn with
  | nil => exact List.nodup_nil
  | append_singleton xs x ih =>
      rw [firstSeen_concat]
      split
      · exact ih
      · rename_i fresh
        exact List.nodup_append.mpr ⟨ih, List.nodup_singleton x, by grind⟩

/-- What comes earlier in the result appears earlier in the list. -/
theorem pairwise_firstSeen (xs : List α) :
    (firstSeen xs).Pairwise fun x y => xs.idxOf x < xs.idxOf y := by
  induction xs using List.reverseRecOn with
  | nil => exact .nil
  | append_singleton xs x ih =>
      have kept {y : α} (hy : y ∈ firstSeen xs) : (xs ++ [x]).idxOf y = xs.idxOf y :=
        List.idxOf_append_of_mem (mem_firstSeen.mp hy)
      have before : (firstSeen xs).Pairwise fun y z =>
          (xs ++ [x]).idxOf y < (xs ++ [x]).idxOf z := by
        refine ih.imp_of_mem ?_
        intro y z hy hz h
        rwa [kept hy, kept hz]
      rw [firstSeen_concat]
      split
      · exact before
      · rename_i fresh
        refine List.pairwise_append.mpr ⟨before, List.pairwise_singleton _ _, ?_⟩
        intro y hy z hz
        obtain rfl := List.mem_singleton.mp hz
        have hnew : z ∉ xs := by
          intro h
          exact fresh (mem_firstSeen.mpr h)
        rw [kept hy, List.idxOf_append_of_notMem hnew]
        exact Nat.lt_of_lt_of_le (List.idxOf_lt_length_of_mem (mem_firstSeen.mp hy))
          (Nat.le_add_right _ _)

theorem idxOf_le_of_getElem? {xs : List α} {x : α} {k : Nat} (h : xs[k]? = some x) :
    xs.idxOf x ≤ k := by
  obtain ⟨hk, rfl⟩ := List.getElem?_eq_some_iff.mp h
  apply Nat.le_of_not_lt
  intro earlier
  have other : (xs[k] == xs[k]) = false := List.not_of_lt_findIdx earlier
  simp at other

/-- Wherever something stands in the list, all that precedes it in the result has stood
before. -/
theorem exists_before_of_lt_idxOf {xs : List α} {x : α} {k i : Nat} (hk : xs[k]? = some x)
    (hi : i < (firstSeen xs).idxOf x) :
    ∃ j < k, ∃ y ∈ xs, xs[j]? = some y ∧ (firstSeen xs).idxOf y = i := by
  have hx : x ∈ firstSeen xs := mem_firstSeen.mpr (List.mem_of_getElem? hk)
  have hpos := List.idxOf_lt_length_of_mem hx
  have hlt : i < (firstSeen xs).length := Nat.lt_trans hi hpos
  have first := List.pairwise_iff_getElem.mp (pairwise_firstSeen xs) _ _ hlt hpos hi
  rw [List.getElem_idxOf hpos] at first
  have occurs : (firstSeen xs)[i] ∈ xs := mem_firstSeen.mp (List.getElem_mem hlt)
  exact ⟨_, Nat.lt_of_lt_of_le first (idxOf_le_of_getElem? hk), _, occurs,
    List.getElem?_idxOf occurs, (nodup_firstSeen xs).idxOf_getElem i hlt⟩

end ResourcePack
