import ResourcePack.Deflate.Zlib

/-!
# Stored blocks come back

A reader may get compressed data in any pieces, so it may stop in the middle of a block or
of what announces one, and go on when more has come. `Stored` says which stream a place may
still be followed by and what that stands for; every step of the reader keeps to it.
-/

namespace ResourcePack

namespace Deflate

/-- What announces a stored block. -/
def storedHead (last : Bool) (length : Nat) : Bytes :=
  let low := UInt8.ofNat length
  let high := UInt8.ofNat (length / 256)
  [if last then 1 else 0, low, high, ~~~low, ~~~high]

theorem storedBlock_eq (last : Bool) (data : Bytes) :
    storedBlock last data = storedHead last data.length ++ data := rfl

/-- A stream of stored blocks from a place on, up to a trailer, and the data in it. -/
inductive Stored (trailer : Bytes) : Place → Bytes → Bytes → Prop where
  | behind : Stored trailer .behind trailer []
  | inside {last : Bool} {part stream data : Bytes}
      (after : Stored trailer (if last then .behind else .between) stream data) :
      Stored trailer (.inside last (.stored part.length)) (part ++ stream) (part ++ data)
  | between {last : Bool} {length : Nat} {stream data : Bytes} (small : length ≤ storedLimit)
      (body : Stored trailer (.inside last (.stored length)) stream data) :
      Stored trailer .between (storedHead last length ++ stream) data

theorem stored_storedBlocks (trailer : Bytes) {count : Nat} {data : Bytes}
    (few : data.length ≤ storedLimit * (count + 1)) :
    Stored trailer .between (storedBlocks count data ++ trailer) data := by
  have final {data : Bytes} (small : data.length ≤ storedLimit) :
      Stored trailer .between (storedBlock true data ++ trailer) data := by
    have body : Stored trailer (.inside true (.stored data.length)) (data ++ trailer)
        (data ++ []) := .inside .behind
    rw [List.append_nil] at body
    rw [storedBlock_eq, List.append_assoc]
    exact .between small body
  induction count generalizing data with
  | zero =>
      apply final
      simpa using few
  | succ count ih =>
      rw [storedBlocks]
      split
      · exact final ‹_›
      · rename_i large
        have rest : (data.drop storedLimit).length ≤ storedLimit * (count + 1) := by
          rw [Nat.mul_succ] at few
          rw [List.length_drop]
          omega
        have small : (data.take storedLimit).length ≤ storedLimit := List.length_take_le _ _
        have body : Stored trailer (.inside false (.stored (data.take storedLimit).length)) _ _ :=
          .inside (ih rest)
        rw [List.take_append_drop] at body
        rw [storedBlock_eq, List.append_assoc, List.append_assoc]
        exact .between small body

/-- Every byte string is stored in blocks of a size that their heads can tell. -/
theorem stored_store (trailer data : Bytes) :
    Stored trailer .between (store data ++ trailer) data := by
  apply stored_storedBlocks
  have := Nat.lt_mul_div_succ data.length (show 0 < storedLimit by decide)
  omega

/-- A single byte is never enough to start with. -/
theorem start_unfinished {bytes : Bytes} (short : bytes.length < 2) :
    Block.start (.ofBytes bytes) = .error .unfinished := by
  have lacking : (Bits.ofBytes bytes).has Block.minBits = false := by
    rw [← Bool.not_eq_true, Bits.has_iff]
    simp only [Bits.ofBytes, Block.minBits]
    omega
  simp only [Block.start, Bits.await, lacking]
  rfl

/-- The kind of a stored block takes three bits of its first byte, and the rest of that
byte is skipped. -/
theorem start_eq_ofLength (last : Bool) (low : UInt8) (rest : Bytes) :
    Block.start (.ofBytes ((if last then 1 else 0) :: low :: rest)) =
      (Body.ofLength (.ofBytes (low :: rest))).map fun (body, bits) => (last, body, bits) := by
  have enough (first : UInt8) :
      (Bits.ofBytes (first :: low :: rest)).await Block.minBits = .ok () := by
    simp [Bits.await, Bits.has, Bits.ofBytes, Block.minBits]
  have flag : (Bits.ofBytes ((if last then 1 else 0) :: low :: rest)).number 1 =
      .ok (if last then 1 else 0, ⟨1, (if last then 1 else 0) :: low :: rest⟩) := by
    cases last <;> simp [Bits.number, Bits.number?, Bits.next?, Bits.ofBytes]
  have kind : Bits.number 2 ⟨1, (if last then 1 else 0) :: low :: rest⟩ =
      .ok (0, ⟨3, (if last then 1 else 0) :: low :: rest⟩) := by
    cases last with
    | false => simp [Bits.number, Bits.number?, Bits.next?]
    | true =>
        simp [Bits.number, Bits.number?, Bits.next?]
        decide
  have skipped : Body.ofLength ⟨3, (if last then 1 else 0) :: low :: rest⟩ =
      Body.ofLength (.ofBytes (low :: rest)) := rfl
  simp only [Block.start, enough, flag, kind, bind, Except.bind, Body.ofKind, skipped]
  cases Body.ofLength (.ofBytes (low :: rest)) with
  | error fault => rfl
  | ok found => cases last <;> rfl

/-- The length of a stored block is in two bytes. -/
theorem toNat_low_add_high {length : Nat} (small : length ≤ storedLimit) :
    (UInt8.ofNat length).toNat + 256 * (UInt8.ofNat (length / 256)).toNat = length := by
  unfold storedLimit at small
  rw [UInt8.toNat_ofNat', UInt8.toNat_ofNat']
  omega

/-- The head of a block is read as soon as all of it is there, and not before. -/
theorem start_storedHead {last : Bool} {length : Nat} (small : length ≤ storedLimit)
    {bytes future stream : Bytes} (here : bytes ++ future = storedHead last length ++ stream) :
    (Block.start (.ofBytes bytes) = .error .unfinished ∧ future ≠ []) ∨
      ∃ more, Block.start (.ofBytes bytes) = .ok (last, .stored length, .ofBytes more) ∧
        more ++ future = stream ∧ more.length + 5 = bytes.length := by
  have size := congrArg List.length here
  rw [List.length_append, List.length_append, show (storedHead last length).length = 5 from rfl]
    at size
  by_cases complete : 5 ≤ bytes.length
  · obtain ⟨more, rfl⟩ : storedHead last length <+: bytes :=
      List.prefix_of_prefix_length_le ⟨stream, here.symm⟩ ⟨future, rfl⟩ complete
    rw [List.append_assoc] at here
    refine .inr ⟨more, ?_, List.append_cancel_left here, by simp [storedHead]⟩
    simp only [storedHead, List.cons_append, List.nil_append, start_eq_ofLength, Body.ofLength,
      Bits.aligned_ofBytes, and_self, if_true, toNat_low_add_high small]
    rfl
  · refine .inl ⟨?_, ?_⟩
    · match bytes, here with
      | [], _ => exact start_unfinished Nat.two_pos
      | [_], _ => exact start_unfinished Nat.one_lt_two
      | first :: low :: rest, here =>
          obtain ⟨rfl, -⟩ := List.cons.inj here
          have short : Body.ofLength (.ofBytes (low :: rest)) = .error .unfinished := by
            match rest, complete with
            | [], _ => rfl
            | [_], _ => rfl
            | [_, _], _ => rfl
            | _ :: _ :: _ :: _, complete => exact absurd (by simp) complete
          rw [start_eq_ofLength, short]
          rfl
    · rintro rfl
      rw [List.length_nil] at size
      omega

/-- Of a stored block, what has come is taken. -/
theorem expand_stored {size left : Nat} (fuel : Nat) {bytes : Bytes} {out : Output}
    (room : out.size + left ≤ size) :
    Body.expand size fuel (.ofBytes bytes) out (.stored left) =
      some (if left ≤ bytes.length then none else some (.stored (left - bytes.length)),
        .ofBytes (bytes.drop left), out ++ bytes.take left) := by
  have all : min left (size - out.size) = left := by omega
  simp only [Body.expand, Bits.aligned_ofBytes, all, List.length_take]
  by_cases complete : left ≤ bytes.length
  · simp [complete]
  · have part : min left bytes.length = bytes.length := by omega
    have more : left - bytes.length ≠ 0 := by omega
    simp [complete, part, more, List.drop_eq_nil_of_le (Nat.le_of_not_le complete)]

/-- Where a block leaves the reader, with nothing of it left or something. -/
def Place.after (last : Bool) : Option Body → Place
  | none => if last then .behind else .between
  | some body => .inside last body

section Steps

variable {trailer data future : Bytes}

/-- A step inside a block keeps to the stream. It stays in the block only if more is to
come. -/
theorem expand_follows (fuel : Nat) {last : Bool} {left : Nat} {bytes : Bytes} {out : Output}
    {rest : Bytes} (stored : Stored trailer (.inside last (.stored left)) (bytes ++ future) rest)
    (made : out.toList ++ rest = data) :
    ∃ body more grown others,
      Body.expand data.length fuel (.ofBytes bytes) out (.stored left) =
        some (body, .ofBytes more, grown) ∧
      Stored trailer (.after last body) (more ++ future) others ∧
      grown.toList ++ others = data ∧ more.length ≤ bytes.length ∧
      (body = none ∨ future ≠ []) := by
  generalize here : bytes ++ future = stream at stored
  cases stored with
  | @inside _ part stream others after =>
      have room : out.size + part.length ≤ data.length := by
        rw [← made, List.length_append, List.length_append, ← Array.length_toList]
        omega
      rw [expand_stored fuel room]
      by_cases complete : part.length ≤ bytes.length
      · obtain ⟨more, rfl⟩ : part <+: bytes :=
          List.prefix_of_prefix_length_le ⟨stream, here.symm⟩ ⟨future, rfl⟩ complete
        rw [List.append_assoc] at here
        obtain rfl := List.append_cancel_left here
        rw [if_pos complete, List.drop_left, List.take_left]
        refine ⟨none, more, _, others, rfl, after, ?_, ?_, Or.inl rfl⟩
        · simpa using made
        · rw [List.length_append]
          omega
      · have short : bytes.length ≤ part.length := Nat.le_of_not_le complete
        obtain ⟨missing, rfl⟩ : bytes <+: part :=
          List.prefix_of_prefix_length_le ⟨future, rfl⟩ ⟨stream, here.symm⟩ short
        rw [List.append_assoc] at here
        obtain rfl := List.append_cancel_left here
        have lacking : (bytes ++ missing).length - bytes.length = missing.length := by
          rw [List.length_append]
          omega
        rw [if_neg complete, lacking, List.drop_eq_nil_of_le short, List.take_of_length_le short]
        refine ⟨_, [], _, missing ++ others, rfl, .inside after, ?_, Nat.zero_le _, Or.inr ?_⟩
        · simpa using made
        · intro none
          obtain ⟨rfl, -⟩ := List.append_eq_nil_iff.mp none
          exact complete (by simp)

end Steps

namespace Expansion

/-- How far a stored stream has been expanded: what has been produced and what is still to
come make the data. -/
structure Follows (trailer data future : Bytes) (expansion : Expansion) : Prop where
  aligned : expansion.bits.used = 0
  stream : ∃ rest, Stored trailer expansion.place (expansion.bits.bytes ++ future) rest ∧
    expansion.out.toList ++ rest = data

/-- The fuel that expanding takes: a step for each byte, and one to leave a block. -/
def steps (place : Place) (bytes : Bytes) : Nat :=
  match place with
  | .inside _ _ => bytes.length + 1
  | _ => bytes.length

/-- A run keeps to the stream, and goes through all of it if it is all there. -/
theorem run_follows {trailer data future : Bytes} (fuel : Nat) {place : Place} {bytes : Bytes}
    {out : Output} {rest : Bytes} (stored : Stored trailer place (bytes ++ future) rest)
    (made : out.toList ++ rest = data) :
    ∃ expansion, run data.length fuel place (.ofBytes bytes) out = some expansion ∧
      Follows trailer data future expansion ∧
      (future = [] → steps place bytes ≤ fuel → expansion.out.toList = data) := by
  -- Where no more can come and nothing is left to do, everything has been produced.
  have atEnd {out : Output} (made : out.toList ++ [] = data) : out.toList = data := by
    rwa [List.append_nil] at made
  induction fuel generalizing place bytes out rest with
  | zero =>
      refine ⟨_, rfl, ⟨rfl, rest, stored, made⟩, ?_⟩
      rintro rfl few
      generalize here : bytes ++ [] = stream at stored
      cases stored with
      | behind => exact atEnd made
      | inside after => simp [steps] at few
      | between small body =>
          rw [List.eq_nil_of_length_eq_zero (Nat.le_zero.mp few)] at here
          cases here
  | succ fuel ih =>
      cases place with
      | behind =>
          refine ⟨_, rfl, ⟨rfl, rest, stored, made⟩, ?_⟩
          intro _ _
          generalize bytes ++ future = stream at stored
          cases stored
          exact atEnd made
      | inside last body =>
          obtain ⟨left, rfl⟩ : ∃ left, body = .stored left := by
            generalize bytes ++ future = stream at stored
            cases stored
            exact ⟨_, rfl⟩
          obtain ⟨body, more, grown, others, expanded, stored, made, less, ended⟩ :=
            expand_follows fuel stored made
          simp only [run, expanded]
          cases body with
          | none =>
              obtain ⟨expansion, ran, follows, ends⟩ := ih stored made
              refine ⟨expansion, ran, follows, ?_⟩
              intro none few
              apply ends none
              have onward : steps (.after last Option.none) more = more.length := by
                cases last <;> rfl
              simp only [steps] at few
              omega
          | some body =>
              refine ⟨_, rfl, ⟨rfl, others, stored, made⟩, ?_⟩
              intro none _
              exact absurd none (ended.resolve_left (Option.some_ne_none body))
      | between =>
          generalize here : bytes ++ future = stream at stored
          cases stored with
          | between small body =>
              rcases start_storedHead small here with
                ⟨unfinished, more⟩ | ⟨more, started, onward, less⟩
              · simp only [run, unfinished]
                refine ⟨_, rfl, ⟨rfl, rest, here ▸ .between small body, made⟩, ?_⟩
                intro none _
                exact absurd none more
              · simp only [run, started]
                rw [← onward] at body
                obtain ⟨expansion, ran, follows, ends⟩ := ih body made
                refine ⟨expansion, ran, follows, ?_⟩
                intro none few
                apply ends none
                simp only [steps] at few ⊢
                omega

/-- A reader that needs no more has all of the data. -/
theorem Follows.toList_out {trailer data future : Bytes} {expansion : Expansion}
    (follows : Follows trailer data future expansion)
    (settled : expansion.isSettled data.length trailer.length = true) :
    expansion.out.toList = data := by
  obtain ⟨-, rest, stored, made⟩ := follows
  have nothing : rest = [] := by
    rw [isSettled, Bool.or_eq_true, decide_eq_true_eq] at settled
    rcases settled with full | ended
    · have size := congrArg List.length made
      rw [List.length_append, Array.length_toList] at size
      exact List.eq_nil_of_length_eq_zero (by omega)
    · unfold isOver at ended
      split at ended
      · rename_i behind
        rw [behind] at stored
        generalize expansion.bits.bytes ++ future = stream at stored
        cases stored
        rfl
      · cases ended
  rwa [nothing, List.append_nil] at made

/-- Pieces that make a stored stream are expanded to its data, wherever they are cut. -/
theorem feedAll?_follows {trailer data : Bytes} {pieces : List Bytes} {expansion : Expansion}
    (follows : Follows trailer data pieces.flatten expansion)
    (ends : pieces = [] → expansion.out.toList = data) :
    ∃ out, expansion.feedAll? data.length trailer.length pieces = some out ∧
      out.toList = data := by
  induction pieces generalizing expansion with
  | nil =>
      have full : expansion.isSettled data.length trailer.length = true := by
        simp [isSettled, ← ends rfl]
      refine ⟨expansion.out, ?_, ends rfl⟩
      rw [feedAll?, if_pos full]
  | cons piece pieces ih =>
      by_cases settled : expansion.isSettled data.length trailer.length = true
      · refine ⟨expansion.out, ?_, follows.toList_out settled⟩
        rw [feedAll?, if_pos settled]
      · obtain ⟨aligned, rest, stored, made⟩ := follows
        rw [List.flatten_cons, ← List.append_assoc] at stored
        have arrived : expansion.bits.append piece = .ofBytes (expansion.bits.bytes ++ piece) := by
          rw [Bits.append, aligned, Bits.ofBytes]
        have enough : steps expansion.place (expansion.bits.bytes ++ piece) ≤
            (Bits.ofBytes (expansion.bits.bytes ++ piece)).bound + 3 := by
          simp only [steps, Bits.bound, Bits.ofBytes]
          split <;> omega
        obtain ⟨next, ran, follows, ends⟩ := run_follows _ stored made
        have fed : expansion.feed data.length piece = some next := by
          rw [feed, arrived]
          exact ran
        have complete : pieces = [] → next.out.toList = data := by
          rintro rfl
          exact ends rfl enough
        obtain ⟨out, took, same⟩ := ih follows complete
        refine ⟨out, ?_, same⟩
        simp only [feedAll?, if_neg settled, fed, took]

end Expansion

/-- Stored blocks stand for what was stored in them. -/
theorem inflateTo?_store {trailer data : Bytes} {pieces : List Bytes} (any : pieces ≠ [])
    (whole : pieces.flatten = store data ++ trailer) :
    inflateTo? data.length data.length trailer.length pieces = some data := by
  have follows : Expansion.empty.Follows trailer data pieces.flatten :=
    ⟨rfl, data, whole ▸ stored_store trailer data, rfl⟩
  obtain ⟨out, fed, same⟩ := Expansion.feedAll?_follows follows fun none => absurd none any
  have enough : data.length ≤ out.size :=
    Nat.le_of_eq (by rw [← same, Array.length_toList])
  simp only [inflateTo?, fed, bind, Option.bind, if_pos enough, same, List.take_length]

end Deflate

namespace Zlib

theorem takeByte?_of_flatten {pieces : List Bytes} {byte : UInt8} {rest : Bytes}
    (whole : pieces.flatten = byte :: rest) :
    ∃ others, takeByte? pieces = some (byte, others) ∧ others.flatten = rest ∧ others ≠ [] := by
  induction pieces with
  | nil => cases whole
  | cons piece pieces ih =>
      cases piece with
      | nil => exact ih whole
      | cons first piece =>
          obtain ⟨rfl, rfl⟩ := List.cons.inj whole
          exact ⟨piece :: pieces, rfl, rfl, List.cons_ne_nil _ _⟩

/-- What was wrapped is unwrapped, however it is cut. -/
theorem decompressTo?_compress {data : Bytes} {pieces : List Bytes}
    (whole : pieces.flatten = compress data) :
    decompressTo? data.length data.length pieces = some data := by
  obtain ⟨afterMethod, method, whole, -⟩ := takeByte?_of_flatten whole
  obtain ⟨afterSettings, settings, whole, more⟩ := takeByte?_of_flatten whole
  simp only [decompressTo?, method, settings, bind, Option.bind]
  rw [if_pos (by decide)]
  exact Deflate.inflateTo?_store more whole

end Zlib

end ResourcePack
