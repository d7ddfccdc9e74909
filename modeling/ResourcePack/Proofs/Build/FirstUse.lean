import ResourcePack.Proofs.Build.FirstFailure

/-!
# The order of dependencies

The dependencies of a collection are one path for each file that its sources read: the
path by which the first of them does so. They come in the order of these first uses. The
resources that a collection resolves to name the same files, so the list can be had from
them as well.
-/

namespace ResourcePack

namespace Path

/-- The position of the first path in a list that is the same. -/
def firstAt (paths : List Path) (path : Path) : Nat :=
  paths.findIdx fun other => other.Same path

theorem firstAt_congr {paths : List Path} {p q : Path} (same : p.Same q) :
    firstAt paths p = firstAt paths q := by
  have alike : (fun other : Path => decide (other.Same p)) = fun other => decide (other.Same q) :=
    funext fun other => decide_eq_decide.mpr ⟨(·.trans same), (·.trans same.symm)⟩
  rw [firstAt, alike]
  rfl

variable {paths : List Path} {path : Path}

theorem firstAt_append_of_mem (member : path ∈ paths) (more : List Path) :
    firstAt (paths ++ more) path = firstAt paths path := by
  have inside : firstAt paths path < paths.length :=
    List.findIdx_lt_length_of_exists ⟨path, member, decide_eq_true (Same.refl path)⟩
  rw [firstAt, List.findIdx_append]
  exact if_pos inside

theorem firstAt_concat_of_new (new : ∀ other ∈ paths, ¬ other.Same path) :
    firstAt (paths ++ [path]) path = paths.length := by
  have none : firstAt paths path = paths.length :=
    List.findIdx_eq_length.mpr fun other member => decide_eq_false (new other member)
  have here : [path].findIdx (fun other => other.Same path) = 0 := by
    simp [Same.refl path]
  rw [firstAt, List.findIdx_append, here, Nat.zero_add, if_neg]
  rw [← firstAt, none]
  exact Nat.lt_irrefl _

end Path

namespace Collection

theorem new_of_not_any {paths : List Path} {path : Path}
    (unseen : ¬ (distinct paths).any (path.Same ·) = true) :
    ∀ other ∈ paths, ¬ other.Same path := by
  intro other member same
  obtain ⟨kept, there, spelled⟩ := exists_mem_distinct member
  exact unseen (List.any_eq_true.mpr
    ⟨kept, there, decide_eq_true (spelled.trans same).symm⟩)

/-- What is kept is as spelled first. -/
theorem getElem?_firstAt {paths : List Path} {path : Path} (kept : path ∈ distinct paths) :
    paths[Path.firstAt paths path]? = some path := by
  induction paths using List.reverseRecOn with
  | nil => cases kept
  | append_singleton paths last ih =>
      have early (there : path ∈ distinct paths) :
          (paths ++ [last])[Path.firstAt (paths ++ [last]) path]? = some path := by
        have found := ih there
        rw [Path.firstAt_append_of_mem (mem_of_mem_distinct there)]
        rw [List.getElem?_append_left (List.getElem?_eq_some_iff.mp found).1]
        exact found
      rw [distinct_concat] at kept
      split at kept
      · exact early kept
      · rename_i unseen
        obtain there | new := List.mem_append.mp kept
        · exact early there
        · obtain rfl := List.mem_singleton.mp new
          rw [Path.firstAt_concat_of_new (new_of_not_any unseen)]
          exact List.getElem?_concat_length

/-- What is kept earlier is used earlier. -/
theorem pairwise_firstAt (paths : List Path) :
    (distinct paths).Pairwise fun p q => Path.firstAt paths p < Path.firstAt paths q := by
  induction paths using List.reverseRecOn with
  | nil => exact .nil
  | append_singleton paths last ih =>
      have before : (distinct paths).Pairwise fun p q =>
          Path.firstAt (paths ++ [last]) p < Path.firstAt (paths ++ [last]) q := by
        refine ih.imp_of_mem ?_
        intro p q there there' less
        rwa [Path.firstAt_append_of_mem (mem_of_mem_distinct there),
          Path.firstAt_append_of_mem (mem_of_mem_distinct there')]
      rw [distinct_concat]
      split
      · exact before
      · rename_i unseen
        refine List.pairwise_append.mpr ⟨before, List.pairwise_singleton _ _, ?_⟩
        intro p there q new
        obtain rfl := List.mem_singleton.mp new
        rw [Path.firstAt_concat_of_new (new_of_not_any unseen),
          Path.firstAt_append_of_mem (mem_of_mem_distinct there)]
        exact (List.getElem?_eq_some_iff.mp (getElem?_firstAt there)).1

theorem distinct_eq_eraseDupsBy (paths : List Path) :
    distinct paths = paths.eraseDupsBy fun p q => p.Same q := by
  have kept (seen : List Path) :
      paths.foldl (fun seen p => if seen.any (Path.Same p) then seen else seen ++ [p]) seen =
        List.eraseDupsBy.loop (fun p q => p.Same q) paths seen.reverse := by
    induction paths generalizing seen with
    | nil => simp [List.eraseDupsBy.loop]
    | cons path rest ih =>
        rw [List.foldl_cons, List.eraseDupsBy.loop, List.any_reverse, ih]
        cases seen.any (Path.Same path) <;> simp
  exact kept []

variable {collection : Collection}

/-- The position of the first entry that reads a file. -/
def firstUse (collection : Collection) (path : Path) : Nat :=
  collection.entries.findIdx fun entry => entry.source.path.Same path

theorem dependencies_eq (collection : Collection) :
    collection.dependencies = distinct (collection.entries.map (·.source.path)) := by
  have single : (fun entry : Entry => entry.source.dependencies) =
      fun entry => [entry.source.path] := rfl
  rw [dependencies, single, List.map_eq_flatMap]

theorem firstUse_eq (collection : Collection) (path : Path) :
    collection.firstUse path = Path.firstAt (collection.entries.map (·.source.path)) path := by
  rw [Path.firstAt, List.findIdx_map]
  rfl

theorem exists_first_user {path : Path} (listed : path ∈ collection.dependencies) :
    ∃ entry, collection.entries[collection.firstUse path]? = some entry ∧
      entry.source.path = path := by
  rw [dependencies_eq] at listed
  have first := getElem?_firstAt listed
  rw [← firstUse_eq, List.getElem?_map] at first
  exact Option.map_eq_some_iff.mp first

theorem pairwise_firstUse (collection : Collection) :
    collection.dependencies.Pairwise fun p q =>
      collection.firstUse p < collection.firstUse q := by
  simp only [dependencies_eq, firstUse_eq]
  exact pairwise_firstAt _

theorem pairwise_not_same (collection : Collection) :
    collection.dependencies.Pairwise fun p q => ¬ p.Same q := by
  refine collection.pairwise_firstUse.imp ?_
  intro p q less same
  rw [firstUse_eq, firstUse_eq, Path.firstAt_congr same] at less
  exact Nat.lt_irrefl _ less

section Observed

variable {S : Type} [Files (StateM S)] {look : S → Path → Except FileError Bytes}

/-- Resources name the files that their entries read. -/
theorem flatMap_dependencies_of_runOn_resolve (observes : Files.Observes look) {codec : Codec}
    {state done : S} {resources : List Resolved}
    (resolved : Files.runOn state (collection.resolve codec) = (.ok resources, done)) :
    resources.flatMap Resolved.dependencies =
      collection.entries.flatMap (·.source.dependencies) := by
  rw [resolve, runOn_resolveFrom observes, Prod.mk.injEq] at resolved
  have each := Outcome.forall₂_of_treat resolved.1
  clear resolved
  generalize collection.entries = entries at each ⊢
  induction each with
  | nil => rfl
  | cons here _ ih =>
      obtain ⟨position, blob, -, rfl⟩ := here
      rw [List.flatMap_cons, List.flatMap_cons, ih]
      rfl

end Observed

/-- Dependencies are listed once, and none is lost. No two of them are the same path, and what
any source reads is among them. Each is spelled by the first entry that reads it, and in the
order of these entries they come. Whenever the collection is resolved, they are what is left
of the files that its resources name, once those are dropped that come again. -/
theorem dependencies_in_order_of_first_use (codec : Codec) (collection : Collection) :
    (collection.dependencies.Pairwise fun p q => ¬ p.Same q) ∧
    (∀ entry ∈ collection.entries, ∃ path ∈ collection.dependencies,
      path.Same entry.source.path) ∧
    (∀ path ∈ collection.dependencies, ∃ entry,
      collection.entries[collection.firstUse path]? = some entry ∧ entry.source.path = path) ∧
    (collection.dependencies.Pairwise fun p q =>
      collection.firstUse p < collection.firstUse q) ∧
    ∀ {S : Type} [Files (StateM S)] {look : S → Path → Except FileError Bytes},
      Files.Observes look → ∀ (state done : S) (resources : List Resolved),
        Files.runOn state (collection.resolve codec) = (.ok resources, done) →
        collection.dependencies =
          (resources.flatMap Resolved.dependencies).eraseDupsBy fun p q => p.Same q := by
  refine ⟨collection.pairwise_not_same, fun entry => exists_mem_dependencies,
    fun path => exists_first_user, collection.pairwise_firstUse, ?_⟩
  intro S _ look observes state done resources resolved
  rw [flatMap_dependencies_of_runOn_resolve observes resolved, ← distinct_eq_eraseDupsBy]
  rfl

theorem spelledCollection_lists_first_spelling :
    ∃ resources done, Files.runOn Build.twoSpellings (Build.spelledCollection.resolve .png) =
        (.ok resources, done) ∧
      resources.flatMap Resolved.dependencies = [⟨"d/a"⟩, ⟨"d//a"⟩] ∧
      Build.spelledCollection.dependencies = [⟨"d/a"⟩] ∧
      Build.spelledCollection.dependencies =
        (resources.flatMap Resolved.dependencies).eraseDupsBy fun p q => p.Same q := by
  obtain ⟨-, -, -, -, again⟩ := dependencies_in_order_of_first_use .png Build.spelledCollection
  have outcome : (Files.runOn Build.twoSpellings (Build.spelledCollection.resolve .png)).1 =
      .ok [resolved 0 ⟨"A", .file ⟨"d/a"⟩⟩ [7], resolved 1 ⟨"B", .file ⟨"d//a"⟩⟩ [7]] := by
    decide
  obtain ⟨done, resolved⟩ := Files.exists_of_outcome outcome
  exact ⟨_, done, resolved, rfl, by decide, again FileSystem.observes _ _ _ resolved⟩

end Collection

end ResourcePack
