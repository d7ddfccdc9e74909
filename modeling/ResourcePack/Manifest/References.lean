/-!
# References

The packs that resources may be taken from, by the names a manifest gives them. The names
are kept in order, each with one path.
-/

namespace ResourcePack

/-- Paths by name. -/
structure References where
  entries : List (String × String)
  sorted : entries.Pairwise fun a b => a.1 < b.1
  deriving DecidableEq, Repr

namespace References

def empty : References := ⟨[], .nil⟩

def find? (references : References) (name : String) : Option String :=
  references.entries.lookup name

/-- Put a name where it belongs in sorted entries, in place of the one that is there. -/
def place (name path : String) : List (String × String) → List (String × String)
  | [] => [(name, path)]
  | (n, p) :: rest =>
    if name < n then (name, path) :: (n, p) :: rest
    else if n < name then (n, p) :: place name path rest
    else (name, path) :: rest

theorem mem_place {name path : String} {entries : List (String × String)} {e : String × String}
    (h : e ∈ place name path entries) : e = (name, path) ∨ e ∈ entries := by
  induction entries with
  | nil => simpa [place] using h
  | cons head rest ih =>
    obtain ⟨n, p⟩ := head
    simp only [place] at h
    split at h
    · simpa using h
    · split at h
      · rcases List.mem_cons.1 h with rfl | h
        · simp
        · rcases ih h with h | h <;> simp [h]
      · rcases List.mem_cons.1 h with rfl | h <;> simp [*]

theorem sorted_place {name path : String} {entries : List (String × String)}
    (h : entries.Pairwise fun a b => a.1 < b.1) :
    (place name path entries).Pairwise fun a b => a.1 < b.1 := by
  induction entries with
  | nil => simp [place]
  | cons head rest ih =>
    obtain ⟨n, p⟩ := head
    obtain ⟨first, others⟩ := List.pairwise_cons.1 h
    simp only [place]
    split
    · rename_i before
      refine List.pairwise_cons.2 ⟨fun e he => ?_, h⟩
      rcases List.mem_cons.1 he with rfl | he
      · exact before
      · exact String.lt_trans before (first e he)
    · rename_i notBefore
      split
      · rename_i after
        refine List.pairwise_cons.2 ⟨fun e he => ?_, ih others⟩
        rcases mem_place he with rfl | he
        · exact after
        · exact first e he
      · rename_i notAfter
        have same : n = name := String.le_antisymm notBefore notAfter
        exact List.pairwise_cons.2 ⟨fun e he => same ▸ first e he, others⟩

/-- Declare a name, in place of what it stood for before. -/
def insert (references : References) (name path : String) : References where
  entries := place name path references.entries
  sorted := sorted_place references.sorted

def ofList (entries : List (String × String)) : References :=
  entries.foldl (fun references (name, path) => references.insert name path) empty

end References

end ResourcePack
