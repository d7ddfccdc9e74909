import ResourcePack.Files.Access
import ResourcePack.Proofs.Outcome

/-!
# Runs on a tree of files

A computation that may fail runs its steps in order, each on the state that the one before
it left, be it a tree or what else there are files in. So a run that succeeds is made of
runs that do.
-/

namespace ResourcePack

namespace Files

variable {S ε α β : Type}

/-- Run a computation on a state, whatever files are in it: its outcome, and the state it
leaves. -/
def runOn (state : S) (action : ExceptT ε (StateM S) α) : Except ε α × S :=
  StateT.run (ExceptT.run action) state

theorem runOn_settled (state : S) (outcome : Except ε α) :
    runOn state (ExceptT.mk (pure outcome)) = (outcome, state) := rfl

/-- A failure that is renamed is the failure of the same run. -/
theorem runOn_mapError {ε' : Type} (state : S) (x : ExceptT ε (StateM S) α) (f : ε → ε') :
    runOn state (ExceptT.mk do return (← x.run).mapError f : ExceptT ε' (StateM S) α) =
      ((runOn state x).1.mapError f, (runOn state x).2) := rfl

/-- The second step runs on the state that the first one leaves, if that succeeds. -/
theorem runOn_bind (state : S) (x : ExceptT ε (StateM S) α) (f : α → ExceptT ε (StateM S) β) :
    runOn state (x >>= f) = match runOn state x with
      | (.ok a, middle) => runOn middle (f a)
      | (.error cause, middle) => (.error cause, middle) := by
  cases first : runOn state x with
  | mk outcome middle =>
      simp only [runOn, ExceptT.run_bind, StateT.run_bind] at first ⊢
      rw [first]
      cases outcome <;> rfl

theorem runOn_bind_eq_ok {state done : S} {x : ExceptT ε (StateM S) α}
    {f : α → ExceptT ε (StateM S) β} {b : β} :
    runOn state (x >>= f) = (.ok b, done) ↔
      ∃ a middle, runOn state x = (.ok a, middle) ∧ runOn middle (f a) = (.ok b, done) := by
  rw [runOn_bind]
  cases runOn state x with
  | mk outcome middle =>
      cases outcome with
      | error cause => simp
      | ok a =>
          constructor
          · intro second
            exact ⟨a, middle, rfl, second⟩
          · rintro ⟨a, middle, first, second⟩
            cases first
            exact second

/-- A run that fails has failed at the first step or, after that one, at the second. -/
theorem runOn_bind_eq_error {state done : S} {x : ExceptT ε (StateM S) α}
    {f : α → ExceptT ε (StateM S) β} {cause : ε} :
    runOn state (x >>= f) = (.error cause, done) ↔ runOn state x = (.error cause, done) ∨
      ∃ a middle, runOn state x = (.ok a, middle) ∧ runOn middle (f a) = (.error cause, done) := by
  rw [runOn_bind]
  cases runOn state x with
  | mk outcome middle =>
      cases outcome with
      | error other => simp
      | ok a =>
          constructor
          · intro second
            exact .inr ⟨a, middle, rfl, second⟩
          · rintro (first | ⟨a, middle, first, second⟩)
            · cases first
            · cases first
              exact second

theorem exists_of_outcome {state : S} {x : ExceptT ε (StateM S) α} {outcome : Except ε α}
    (ends : (runOn state x).1 = outcome) : ∃ done, runOn state x = (outcome, done) :=
  ⟨(runOn state x).2, by rw [← ends]⟩

theorem exists_of_isOk {state : S} {x : ExceptT ε (StateM S) α}
    (succeeds : (runOn state x).1.isOk = true) : ∃ a done, runOn state x = (.ok a, done) := by
  obtain ⟨a, ends⟩ := Outcome.exists_of_isOk succeeds
  exact ⟨a, exists_of_outcome ends⟩

/-- Reading goes by what is to be seen in a state, and it changes nothing. -/
structure Observes [Files (StateM S)] (look : S → Path → Except FileError Bytes) : Prop where
  read : ∀ (path : Path) (state : S),
    (Files.read path : StateM S (Except FileError Bytes)) state = (look state path, state)

end Files

namespace FileSystem

variable {ε α β : Type} {fs done : FileSystem}

theorem observes : Files.Observes FileSystem.read := ⟨fun _ _ => rfl⟩

theorem run_eq_runOn (x : ExceptT ε (StateM FileSystem) α) : fs.run x = Files.runOn fs x := rfl

theorem run_bind_eq_ok {x : ExceptT ε (StateM FileSystem) α}
    {f : α → ExceptT ε (StateM FileSystem) β} {b : β} :
    fs.run (x >>= f) = (.ok b, done) ↔
      ∃ a middle, fs.run x = (.ok a, middle) ∧ middle.run (f a) = (.ok b, done) :=
  Files.runOn_bind_eq_ok

@[simp] theorem run_pure (a : α) :
    fs.run (pure a : ExceptT ε (StateM FileSystem) α) = (.ok a, fs) := rfl

/-- What follows a read goes by its outcome, on the same tree. -/
theorem run_read (path : Path) (next : Except FileError Bytes → StateM FileSystem (Except ε α)) :
    fs.run (ExceptT.mk (Files.read path >>= next)) = next (fs.read path) fs := rfl

theorem runs_write (fs : FileSystem) (path : Path) (content : Bytes) :
    (Files.write path content : StateM FileSystem (Except FileError Unit)) fs =
      fs.commit (fs.write path content) := rfl

/-- What follows a write goes by its outcome, on the tree that the write leaves. -/
theorem run_write (path : Path) (content : Bytes)
    (next : Except FileError Unit → StateM FileSystem (Except ε α)) :
    fs.run (ExceptT.mk (Files.write path content >>= next)) =
      let (outcome, middle) := fs.commit (fs.write path content)
      next outcome middle := rfl

end FileSystem

end ResourcePack
