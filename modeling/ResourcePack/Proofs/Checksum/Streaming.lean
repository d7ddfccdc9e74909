import Mathlib.Data.List.Forall2
import ResourcePack.Proofs.Command.ChecksumReport
import ResourcePack.Proofs.Files.Running

/-!
# Checksums in progress

A full word and a short last piece are read in opposite orders, so a stream that took a
piece for complete too early would give another value. `absorb_append` is what excludes
it: however the bytes are split, a stream is in the state that absorbing all of them at
once leaves. So a program cannot tell streams from records of everything they were given,
and a file has the same checksum whatever the lengths of the pieces it is read in.
-/

namespace ResourcePack

namespace Checksum

namespace Stream

/-- Fewer bytes than a word all wait. -/
theorem absorb_short (register : UInt32) :
    {data : Bytes} → (short : data.length < 4) → absorb register data = ⟨register, data, short⟩
  | [], _ => rfl
  | [_], _ => rfl
  | [_, _], _ => rfl
  | [_, _, _], _ => rfl
  | _ :: _ :: _ :: _ :: _, short => by
      simp only [List.length_cons] at short
      omega

/-- Whole words go into the register and leave nothing waiting. -/
theorem absorb_aligned (register : UInt32) (after : Bytes) :
    (before : Bytes) → 4 ∣ before.length →
      absorb register (before ++ after) = absorb (extend register before) after
  | [], _ => rfl
  | a :: b :: c :: d :: rest, aligned => by
      have onward : 4 ∣ rest.length := by
        simp only [List.length_cons] at aligned
        omega
      exact absorb_aligned _ after rest onward
  | [_], aligned => by simp at aligned
  | [_, _], aligned => by simp at aligned
  | [_, _, _], aligned => by simp at aligned

/-- The bytes of the whole words in a byte string. -/
def wholeWords (data : Bytes) : Nat := data.length / 4 * 4

/-- What absorbing leaves: the words are in the register, the others wait. -/
theorem absorb_eq (register : UInt32) (data : Bytes) :
    absorb register data = absorb (extend register (data.take (wholeWords data)))
      (data.drop (wholeWords data)) := by
  have aligned : 4 ∣ (data.take (wholeWords data)).length := by
    rw [List.length_take, wholeWords]
    omega
  rw [← absorb_aligned _ _ _ aligned, List.take_append_drop]

theorem length_drop_wholeWords (data : Bytes) :
    (data.drop (wholeWords data)).length = data.length % 4 := by
  rw [List.length_drop, wholeWords]
  omega

theorem register_absorb (register : UInt32) (data : Bytes) :
    (absorb register data).register = extend register (data.take (wholeWords data)) := by
  have short : (data.drop (wholeWords data)).length < 4 := by
    rw [length_drop_wholeWords]
    omega
  rw [absorb_eq, absorb_short _ short]

theorem pending_absorb (register : UInt32) (data : Bytes) :
    (absorb register data).pending = data.drop (wholeWords data) := by
  have short : (data.drop (wholeWords data)).length < 4 := by
    rw [length_drop_wholeWords]
    omega
  rw [absorb_eq, absorb_short _ short]

end Stream

/-- A checksum can be continued from where whole words end. -/
theorem extend_append (seed : UInt32) {before : Bytes} (aligned : 4 ∣ before.length)
    (after : Bytes) : extend seed (before ++ after) = extend (extend seed before) after := by
  rw [← Stream.value_absorb, Stream.absorb_aligned seed after before aligned, Stream.value_absorb]

namespace Stream

/-- Filling up the waiting bytes first is the same as putting them in front. -/
theorem update_eq_absorb (stream : Stream) (data : Bytes) :
    stream.update data = absorb stream.register (stream.pending ++ data) := by
  have few := stream.pending_lt
  unfold update
  split
  · rename_i none
    rw [List.isEmpty_iff.mp none, List.nil_append]
  · dsimp only
    split
    · -- the bytes do not fill a word, so all of them were taken
      rename_i short
      have all : data.take (4 - stream.pending.length) = data := by
        apply List.take_of_length_le
        rw [List.length_append, List.length_take] at short
        omega
      rw [absorb_short]
      · simp only [all]
      · rwa [all] at short
    · rename_i full
      have aligned : 4 ∣ (stream.pending ++ data.take (4 - stream.pending.length)).length := by
        rw [List.length_append, List.length_take] at full ⊢
        omega
      rw [← absorb_aligned _ _ _ aligned, List.append_assoc, List.take_append_drop]

/-- Bytes may be split anywhere. -/
theorem update_absorb (seed : UInt32) (before after : Bytes) :
    (absorb seed before).update after = absorb seed (before ++ after) := by
  have aligned : 4 ∣ (before.take (wholeWords before)).length := by
    rw [List.length_take, wholeWords]
    omega
  rw [update_eq_absorb, register_absorb, pending_absorb, ← absorb_aligned _ _ _ aligned,
    ← List.append_assoc, List.take_append_drop]

/-- Reads of any lengths, up to the one that gives nothing. -/
theorem drain_absorb (seed : UInt32) (before : Bytes) (pieces after : List Bytes)
    (given : ∀ piece ∈ pieces, piece ≠ []) :
    (absorb seed before).drain (pieces ++ [] :: after) =
      absorb seed (before ++ pieces.flatten) := by
  induction pieces generalizing before with
  | nil => simp [drain]
  | cons piece rest ih =>
      have here : piece.isEmpty = false := by
        simpa using given piece (List.mem_cons_self ..)
      have others : ∀ piece ∈ rest, piece ≠ [] := by
        intro piece member
        exact given piece (List.mem_cons_of_mem _ member)
      rw [List.cons_append, drain, here, update_absorb]
      simpa using ih (before ++ piece) others

end Stream

/-! ## Histories -/

/-- What can be done with checksums in progress. They are numbered from 0 in the order in
which they come to be. -/
inductive Action where
  /-- Begin one from a register value. -/
  | start (seed : UInt32)
  /-- Give more bytes to one. -/
  | update (number : Nat) (data : Bytes)
  /-- Put a copy of one aside, under a number of its own. -/
  | clone (number : Nat)
  /-- Ask one for its value. -/
  | value (number : Nat)
  deriving DecidableEq

/-- Whether an action is a question. -/
def Action.asks : Action → Bool
  | .value _ => true
  | _ => false

/-- A way to keep a checksum in progress as a state. -/
structure Keeping (State : Type) where
  start : UInt32 → State
  update : State → Bytes → State
  value : State → UInt32

namespace Keeping

variable {State State' : Type}

/-- The states after an action, and the answer to a question. -/
def step (keeping : Keeping State) (states : List State) : Action → List State × Option UInt32
  | .start seed => (states ++ [keeping.start seed], none)
  | .update number data => (states.modify number (keeping.update · data), none)
  | .clone number => (states ++ states[number]?.toList, none)
  | .value number => (states, states[number]?.map keeping.value)

/-- The states after a history, and what was answered on the way. -/
def run (keeping : Keeping State) (states : List State) :
    List Action → List State × List (Option UInt32)
  | [] => (states, [])
  | action :: rest =>
    let (next, answer) := keeping.step states action
    let (final, answers) := keeping.run next rest
    (final, answer :: answers)

/-- One way to keep checksums does what another one does, on states that `f` relates. -/
structure Follows (keeping : Keeping State) (other : Keeping State') (f : State' → State) :
    Prop where
  start : ∀ seed, keeping.start seed = f (other.start seed)
  update : ∀ state data, keeping.update (f state) data = f (other.update state data)
  value : ∀ state, keeping.value (f state) = other.value state

variable {keeping : Keeping State} {other : Keeping State'} {f : State' → State}

theorem Follows.step (follows : keeping.Follows other f) (states : List State')
    (action : Action) :
    keeping.step (states.map f) action =
      ((other.step states action).1.map f, (other.step states action).2) := by
  cases action with
  | start seed => simp [Keeping.step, follows.start]
  | update number data =>
      have changed : (states.map f).modify number (keeping.update · data) =
          (states.modify number (other.update · data)).map f := by
        apply List.ext_getElem?
        intro j
        simp only [List.getElem?_map, List.getElem?_modify]
        cases states[j]? with
        | none => rfl
        | some state => by_cases here : number = j <;> simp [here, follows.update]
      simp only [Keeping.step, changed]
  | clone number =>
      simp only [Keeping.step, List.map_append, List.getElem?_map]
      cases states[number]? <;> rfl
  | value number =>
      simp only [Keeping.step, List.getElem?_map]
      cases states[number]? with
      | none => rfl
      | some state => simp [follows.value]

/-- Histories cannot tell the two apart. -/
theorem Follows.run (follows : keeping.Follows other f) (states : List State')
    (history : List Action) :
    keeping.run (states.map f) history =
      ((other.run states history).1.map f, (other.run states history).2) := by
  induction history generalizing states with
  | nil => rfl
  | cons action rest ih => simp only [Keeping.run, follows.step, ih]

theorem step_of_asks (keeping : Keeping State) (states : List State) {action : Action}
    (asks : action.asks = true) : (keeping.step states action).1 = states := by
  cases action with
  | value number => rfl
  | start seed => cases asks
  | update number data => cases asks
  | clone number => cases asks

/-- Questions can be left out of a history without a change to what it leaves. -/
theorem run_filter_asks (keeping : Keeping State) (states : List State) (history : List Action) :
    (keeping.run states (history.filter (!·.asks))).1 = (keeping.run states history).1 := by
  induction history generalizing states with
  | nil => rfl
  | cons action rest ih =>
      by_cases asks : action.asks = true
      · rw [List.filter_cons_of_neg (by simp [asks])]
        simp only [Keeping.run, keeping.step_of_asks states asks, ih]
      · rw [List.filter_cons_of_pos (by simp [asks])]
        simp only [Keeping.run, ih]

end Keeping

/-- Keep a stream, which holds three bytes at most. -/
def streamed : Keeping Stream where
  start := Stream.start
  update := Stream.update
  value := Stream.value

/-- Keep where the checksum started and every byte since, and compute the value anew
whenever it is asked for. -/
def recorded : Keeping (UInt32 × Bytes) where
  start seed := (seed, [])
  update record data := (record.1, record.2 ++ data)
  value record := extend record.1 record.2

/-- A stream is determined by where it started and what it was given since. -/
theorem streamed_follows : streamed.Follows recorded fun record =>
    Stream.absorb record.1 record.2 where
  start _ := rfl
  update record data := Stream.update_absorb record.1 record.2 data
  value record := Stream.value_absorb record.1 record.2

/-! ## Files -/

/-- Reads that a content can come in: no matter how long each of them is, they give
something up to the end of the content and nothing from there on. -/
def Splits (reads : List Bytes) (content : Bytes) : Prop :=
  ∃ pieces, reads = pieces ++ [[]] ∧ (∀ piece ∈ pieces, piece ≠ []) ∧ pieces.flatten = content

theorem Splits.value_drain {reads : List Bytes} {content : Bytes} (splits : Splits reads content)
    (seed : UInt32) : ((Stream.start seed).drain reads).value = extend seed content := by
  obtain ⟨pieces, rfl, given, rfl⟩ := splits
  have drained := Stream.drain_absorb seed [] pieces [] given
  rw [List.nil_append] at drained
  change ((Stream.absorb seed []).drain (pieces ++ [[]])).value = _
  rw [drained, Stream.value_absorb]

end Checksum

namespace Command

open Checksum (Splits)

theorem splits_readsOf (content : Bytes) : Splits (readsOf content) content := by
  fun_induction readsOf content with
  | case1 content none =>
      refine ⟨[], rfl, ?_, ?_⟩
      · simp
      · exact (List.isEmpty_iff.mp none).symm
  | case2 content some ih =>
      obtain ⟨pieces, reads, given, whole⟩ := ih
      refine ⟨content.take readLimit :: pieces, ?_, ?_, ?_⟩
      · rw [reads, List.cons_append]
      · intro piece member
        rcases List.mem_cons.mp member with rfl | member
        · simpa [readLimit] using some
        · exact given piece member
      · rw [List.flatten_cons, whole, List.take_append_drop]

variable {fs : FileSystem} {file : Path} {content : Bytes}

/-- The lengths of the reads make no difference to the checksum of a file. -/
theorem run_fileChecksum (there : fs.read file = .ok content) {reads : Bytes → List Bytes}
    (splits : Splits (reads content) content) :
    fs.run (fileChecksum reads file) = (.ok (Checksum.ofBytes content), fs) := by
  rw [fileChecksum, FileSystem.run_read, there, Checksum.ofBytes, ← splits.value_drain]
  rfl

/-- What is reported is the checksum of the whole file, in whatever pieces it is read. -/
theorem run_reportChecksum (there : fs.read file = .ok content) {reads : Bytes → List Bytes}
    (splits : Splits (reads content) content) (json : Bool) :
    ∃ text, fs.run (reportChecksum reads json file) = (.ok text, fs) ∧
      Reports file (Checksum.ofBytes content) json text :=
  ⟨_, FileSystem.run_bind_eq_ok.mpr ⟨_, _, run_fileChecksum there splits, rfl⟩,
    reports_crcText json file _⟩

end Command

namespace Checksum

/-- What a stream has come to after a record of where it started and what it was given. -/
structure Represents (record : UInt32 × Bytes) (stream : Stream) : Prop where
  value : stream.value = extend record.1 record.2
  register : stream.register = extend record.1 (record.2.take (record.2.length / 4 * 4))
  pending : stream.pending = record.2.drop (record.2.length / 4 * 4)
  few : stream.pending.length = record.2.length % 4

theorem represents_absorb (record : UInt32 × Bytes) :
    Represents record (Stream.absorb record.1 record.2) where
  value := Stream.value_absorb record.1 record.2
  register := Stream.register_absorb record.1 record.2
  pending := Stream.pending_absorb record.1 record.2
  few := by rw [Stream.pending_absorb, Stream.length_drop_wholeWords]

/-- Streams answer as if every byte were kept until it is asked for, in every history of
pieces, copies and questions. So the checksum that is reported for a file, in decimal and in
hexadecimal digits, is that of its content, whatever pieces it is read in, and a checksum can
be continued after whole words. -/
theorem pieces_agree_with_whole :
    (∀ history : List Action,
      (streamed.run [] history).2 = (recorded.run [] history).2 ∧
      List.Forall₂ Represents (recorded.run [] history).1 (streamed.run [] history).1 ∧
      (streamed.run [] (history.filter (!·.asks))).1 = (streamed.run [] history).1) ∧
    (∀ (fs : FileSystem) (file : Path) (content : Bytes), fs.read file = .ok content →
      (∀ reads : Bytes → List Bytes, Splits (reads content) content →
        fs.run (Command.fileChecksum reads file) = (.ok (ofBytes content), fs) ∧
        ∀ json, ∃ text, fs.run (Command.reportChecksum reads json file) = (.ok text, fs) ∧
          Command.Reports file (ofBytes content) json text) ∧
      ∀ (tool : Option Path) (json : Bool),
        ∃ text, fs.run (Command.run tool json (.crc file)) = (.ok text, fs) ∧
          Command.Reports file (ofBytes content) json text) ∧
    ∀ (seed : UInt32) (before after : Bytes), 4 ∣ before.length →
      extend (extend seed before) after = extend seed (before ++ after) := by
  refine ⟨?_, ?_, ?_⟩
  · intro history
    have same := streamed_follows.run [] history
    rw [List.map_nil] at same
    refine ⟨by rw [same], ?_, streamed.run_filter_asks [] history⟩
    rw [same]
    apply List.forall₂_map_right_iff.mpr
    exact List.forall₂_same.mpr fun record _ => represents_absorb record
  · intro fs file content there
    constructor
    · intro reads splits
      exact ⟨Command.run_fileChecksum there splits, Command.run_reportChecksum there splits⟩
    · intro tool json
      exact Command.run_reportChecksum there (Command.splits_readsOf content) json
  · intro seed before after aligned
    exact (extend_append seed aligned after).symm

/-- A copy is taken inside a word and goes on by itself; a file comes in two pieces. -/
theorem copy_and_file_agree_with_whole :
    (streamed.run [] [.start 7, .update 0 [1], .clone 0, .update 0 [2, 3, 4, 5], .value 0,
      .update 1 [9], .value 1]).2 = [none, none, none, none, some (extend 7 [1, 2, 3, 4, 5]),
        none, some (extend 7 [1, 9])] ∧
    (∃ text, FileSystem.run ⟨[(["a"], .file [1, 2, 3, 4, 5])], []⟩
      (Command.reportChecksum (fun _ => [[1, 2], [3, 4, 5], []]) false ⟨"a"⟩) =
      (.ok text, ⟨[(["a"], .file [1, 2, 3, 4, 5])], []⟩) ∧
      Command.Reports ⟨"a"⟩ (ofBytes [1, 2, 3, 4, 5]) false text) ∧
    extend (extend 7 [1, 2, 3, 4]) [5] = extend 7 [1, 2, 3, 4, 5] := by
  obtain ⟨histories, files, words⟩ := pieces_agree_with_whole
  refine ⟨?_, ?_, words 7 [1, 2, 3, 4] [5] (by decide)⟩
  · rw [(histories _).1]
    simp [Keeping.run, Keeping.step, recorded]
  · exact ((files _ ⟨"a"⟩ [1, 2, 3, 4, 5] (by decide)).1 _
      ⟨[[1, 2], [3, 4, 5]], rfl, by decide, rfl⟩).2 false

end Checksum

end ResourcePack
