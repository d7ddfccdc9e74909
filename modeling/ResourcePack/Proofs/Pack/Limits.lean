import ResourcePack.Proofs.Pack.InPlace

/-!
# What fits into a pack

Three tests decide what is refused: one of the number of resources, one of each size and one
of each sum of an offset and a size. Together they come to two limits, one on the number of
resources and one on the total size, and the size that a refusal names is that of the first
resource that passes the second one.

A machine has only signed words for the numbers in a record. `placeAt` is a step as it is
done there, with every narrowing and every sum that does not fit as an outcome of its own.
Sums that do not fit are a refusal where the assembler tests for them and a fault where it
does not, and no fault ever comes about.
-/

namespace ResourcePack.Pack

/-- A number as a signed word, if it is one. -/
def narrow? (n : Nat) : Option Int32 :=
  if n < 2 ^ 31 then some (.ofNat n) else none

/-- The sum of two signed words, if it is one. -/
def sum? (a b : Int32) : Option Int32 :=
  if -2 ^ 31 ≤ a.toInt + b.toInt ∧ a.toInt + b.toInt < 2 ^ 31 then some (a + b) else none

namespace Cursor

/-- Place one more resource by signed words. -/
def placeAt (cursor : Cursor) (resource : Bytes) : Except Fault (Except Error (Record × Cursor)) :=
  match narrow? resource.length with
  | none => .ok (.error (.tooLarge resource.length))
  | some size =>
    match sum? cursor.offset size with
    | none => do
      let bound ← address (extent cursor.offset + resource.length)
      return .error (.tooLarge bound)
    | some offset =>
      match sum? cursor.index 1 with
      | none => .error .overflow
      | some index =>
        .ok (.ok ({ index := cursor.index, offset := cursor.offset, size,
                    checksum := Checksum.ofBytes resource }, { index, offset }))

end Cursor

/-- The records of resources that are placed one after the other by signed words. -/
def placeAllAt (cursor : Cursor) : List Bytes → Except Fault (Except Error (List Record))
  | [] => .ok (.ok [])
  | resource :: rest => do
    match ← cursor.placeAt resource with
    | .error cause => return .error cause
    | .ok (record, next) => return (← placeAllAt next rest).map (record :: ·)

/-- The table of a pack by signed words. -/
def tableAt (resources : List Bytes) : Except Fault (Except Error (List Record)) :=
  if capacity < resources.length then .ok (.error (.tableFull resources.length capacity))
  else placeAllAt .start resources

theorem toInt_ofNat_of_le {n : Nat} (small : n ≤ offsetLimit) : (Int32.ofNat n).toInt = n :=
  Int32.toInt_ofNat_of_lt (Nat.lt_succ_of_le small)

theorem narrow?_of_le {n : Nat} (small : n ≤ offsetLimit) : narrow? n = some (.ofNat n) :=
  if_pos (Nat.lt_succ_of_le small)

theorem narrow?_of_lt {n : Nat} (large : offsetLimit < n) : narrow? n = none :=
  if_neg (Nat.not_lt.mpr large)

theorem sum?_of_le {m n : Nat} (small : m + n ≤ offsetLimit) :
    sum? (.ofNat m) (.ofNat n) = some (.ofNat (m + n)) := by
  rw [sum?, toInt_ofNat_of_le (by omega), toInt_ofNat_of_le (by omega), Int32.ofNat_add]
  apply if_pos
  rw [offsetLimit] at small
  omega

theorem sum?_of_lt {m n : Nat} (hm : m ≤ offsetLimit) (hn : n ≤ offsetLimit)
    (large : offsetLimit < m + n) : sum? (.ofNat m) (.ofNat n) = none := by
  rw [sum?, toInt_ofNat_of_le hm, toInt_ofNat_of_le hn]
  apply if_neg
  rw [offsetLimit] at large
  omega

/-- The size that a refusal names: that of the resource if it is too much by itself, otherwise
that of all data up to it. -/
def refusedSize (start : Nat) (resource : Bytes) : Nat :=
  if offsetLimit < resource.length then resource.length else start + resource.length

namespace Cursor

theorem place_at_of_lt (position : Nat) {start : Nat} {resource : Bytes}
    (before : start ≤ offsetLimit) (past : offsetLimit < start + resource.length) :
    (Cursor.at position start).place resource =
      .error (.tooLarge (refusedSize start resource)) := by
  have offset : (Int32.ofNat start).toNatClampNeg = start :=
    Int32.toNatClampNeg_ofNat_of_lt (Nat.lt_succ_of_le before)
  rw [place, refusedSize]
  split
  · rfl
  · simp only [Cursor.at, offset, if_pos past]

/-- A step by signed words is a step. -/
theorem placeAt_at {position start : Nat} (resource : Bytes) (before : start ≤ offsetLimit)
    (index : position + 2 ≤ offsetLimit) :
    (Cursor.at position start).placeAt resource =
      .ok ((Cursor.at position start).place resource) := by
  have next : sum? (.ofNat (position + 1)) 1 = some (.ofNat (position + 1 + 1)) :=
    sum?_of_le (n := 1) index
  rcases Nat.lt_or_ge offsetLimit resource.length with large | small
  · rw [place_at_of_lt position before (by omega), refusedSize, if_pos large]
    simp only [placeAt, narrow?_of_lt large]
  rcases Nat.lt_or_ge offsetLimit (start + resource.length) with past | fits
  · have reach : start + resource.length < addressLimit := by
      rw [offsetLimit] at before small
      rw [addressLimit]
      omega
    rw [place_at_of_lt position before past, refusedSize, if_neg (Nat.not_lt.mpr small)]
    simp only [placeAt, Cursor.at, narrow?_of_le small, sum?_of_lt before small past,
      extent_ofNat before, address_of_lt reach]
    rfl
  · rw [place_at position fits]
    simp only [placeAt, Cursor.at, narrow?_of_le small, sum?_of_le fits, next]

end Cursor

/-- No step goes wrong as long as the index fits. -/
theorem placeAllAt_at {position start : Nat} {resources : List Bytes}
    (before : start ≤ offsetLimit) (index : position + resources.length < offsetLimit) :
    placeAllAt (.at position start) resources = .ok (placeAll (.at position start) resources) := by
  induction resources generalizing position start with
  | nil => rfl
  | cons resource rest ih =>
      rw [List.length_cons] at index
      rw [placeAllAt, Cursor.placeAt_at resource before (by omega), placeAll]
      rcases Nat.lt_or_ge offsetLimit (start + resource.length) with past | fits
      · rw [Cursor.place_at_of_lt position before past]
        rfl
      · have others : placeAllAt (.at (position + 1) _) rest = _ := ih fits (by omega)
        simp only [Cursor.place_at position fits, others, bind, Except.bind]
        cases placeAll (.at (position + 1) (start + resource.length)) rest <;> rfl

theorem tableAt_eq (resources : List Bytes) :
    tableAt resources = .ok ((assemble resources).map Image.records) := by
  rcases Nat.lt_or_ge capacity resources.length with full | room
  · rw [tableAt, if_pos full, assemble_of_lt full]
    rfl
  · have index : 0 + resources.length < offsetLimit := by
      rw [Nat.zero_add]
      exact Nat.lt_of_le_of_lt room (by decide)
    have placed : placeAllAt .start resources = _ := placeAllAt_at (Nat.zero_le _) index
    rw [tableAt, if_neg (Nat.not_lt.mpr room), placed, assemble_of_le room]
    cases placeAll (.at 0 0) resources <;> rfl

/-- Placing fails at the first resource that passes the limit, and only there. -/
theorem placeAll_eq_error_iff {position start : Nat} {resources : List Bytes} {cause : Error}
    (before : start ≤ offsetLimit) :
    placeAll (.at position start) resources = .error cause ↔
      ∃ i, ∃ inside : i < resources.length,
        start + (resources.take i).flatten.length ≤ offsetLimit ∧
        offsetLimit < start + (resources.take (i + 1)).flatten.length ∧
        cause =
          .tooLarge (refusedSize (start + (resources.take i).flatten.length) resources[i]) := by
  induction resources generalizing position start with
  | nil => simp [placeAll]
  | cons resource rest ih =>
      have further (i : Nat) : start + ((resource :: rest).take (i + 1)).flatten.length =
          start + resource.length + (rest.take i).flatten.length := by
        rw [List.take_succ_cons, List.flatten_cons, List.length_append, Nat.add_assoc]
      rcases Nat.lt_or_ge offsetLimit (start + resource.length) with past | fits
      · rw [placeAll, Cursor.place_at_of_lt position before past]
        constructor
        · rintro ⟨⟩
          exact ⟨0, Nat.succ_pos _, before, by rw [further]; omega, rfl⟩
        · rintro ⟨i, inside, below, -, rfl⟩
          cases i with
          | zero => rfl
          | succ i =>
              rw [further] at below
              omega
      · have onward : placeAll (.at position start) (resource :: rest) = .error cause ↔
            placeAll (.at (position + 1) (start + resource.length)) rest = .error cause := by
          simp only [placeAll, Cursor.place_at position fits, bind, Except.bind]
          cases placeAll (.at (position + 1) (start + resource.length)) rest with
          | error other => rfl
          | ok records => simp [pure, Except.pure]
        rw [onward, ih fits]
        constructor
        · rintro ⟨i, inside, below, past, rfl⟩
          refine ⟨i + 1, Nat.succ_lt_succ inside, ?_, ?_, ?_⟩
          · rwa [further]
          · rwa [further]
          · rw [further, List.getElem_cons_succ]
        · rintro ⟨i, inside, below, past, rfl⟩
          cases i with
          | zero =>
              rw [further] at past
              exact absurd past (Nat.not_lt.mpr fits)
          | succ i =>
              rw [further] at below past
              refine ⟨i, Nat.lt_of_succ_lt_succ inside, below, past, ?_⟩
              rw [further, List.getElem_cons_succ]

/-- The refused size by the data up to and with the resource. -/
theorem refusedSize_take {resources : List Bytes} {i : Nat} (inside : i < resources.length) :
    refusedSize (resources.take i).flatten.length resources[i] =
      if offsetLimit < resources[i].length then resources[i].length
      else (resources.take (i + 1)).flatten.length := by
  rw [refusedSize, List.take_succ_eq_append_getElem inside, List.flatten_append,
    List.length_append]
  simp

theorem assemble_eq_error_iff {resources : List Bytes} {cause : Error} :
    assemble resources = .error cause ↔
      capacity < resources.length ∧ cause = .tableFull resources.length capacity ∨
      resources.length ≤ capacity ∧ placeAll (.at 0 0) resources = .error cause := by
  rcases Nat.lt_or_ge capacity resources.length with full | room
  · rw [assemble_of_lt full, Except.error.injEq]
    simp [full, Nat.not_le.mpr full, eq_comm]
  · rw [assemble_of_le room, Outcome.map_eq_error]
    simp [room, Nat.not_lt.mpr room]

/-- With slots for all, resources that have too much data are refused for that. -/
theorem exists_tooLarge_iff {resources : List Bytes} :
    (∃ size, assemble resources = .error (.tooLarge size)) ↔
      resources.length ≤ capacity ∧ offsetLimit < resources.flatten.length := by
  constructor
  · rintro ⟨size, failed⟩
    obtain ⟨-, ⟨⟩⟩ | ⟨room, failed⟩ := assemble_eq_error_iff.mp failed
    refine ⟨room, Nat.lt_of_not_le ?_⟩
    intro fits
    rw [placeAll_eq_laidOut (by rwa [Nat.zero_add])] at failed
    cases failed
  · rintro ⟨room, past⟩
    cases placed : placeAll (.at 0 0) resources with
    | ok records =>
        have fits := fits_of_placeAll (Nat.zero_le _) placed
        omega
    | error cause =>
        obtain ⟨i, _, _, _, named⟩ := (placeAll_eq_error_iff (Nat.zero_le _)).mp placed
        rw [named] at placed
        exact ⟨_, assemble_eq_error_iff.mpr (.inr ⟨room, placed⟩)⟩

/-- Only the numbers and the sizes of resources keep them from being laid out. -/
theorem assemble_eq_error {resources : List Bytes} {cause : Error}
    (failed : assemble resources = .error cause) :
    cause = .tableFull resources.length capacity ∨ ∃ size, cause = .tooLarge size := by
  obtain ⟨-, rfl⟩ | ⟨-, placed⟩ := assemble_eq_error_iff.mp failed
  · exact .inl rfl
  · obtain ⟨i, _, -, -, named⟩ := (placeAll_eq_error_iff (Nat.zero_le _)).mp placed
    exact .inr ⟨_, named⟩

theorem exists_assemble_error_iff {resources : List Bytes} :
    (∃ cause, assemble resources = .error cause) ↔
      512 < resources.length ∨ 2 ^ 31 - 1 < (resources.map List.length).sum := by
  have fits : (∃ image, assemble resources = .ok image) ↔
      resources.length ≤ 512 ∧ (resources.map List.length).sum ≤ 2 ^ 31 - 1 := by
    rw [← List.length_flatten]
    simp only [assemble_eq_ok_iff, exists_and_left, exists_eq, and_true]
    rfl
  rw [← Nat.not_le, ← Nat.not_le, ← not_and_or, ← fits, Outcome.exists_ok_iff, not_forall]
  simp only [ne_eq, not_not]

/-- Up to every position of the list the cursor counts resources and bytes. -/
theorem foldlM_push_take {resources : List Bytes} (room : resources.length ≤ capacity)
    (fits : resources.flatten.length ≤ offsetLimit) {i : Nat} (reached : i ≤ resources.length) :
    ∃ cursor : Cursor, (resources.take i).foldlM Placed.push ⟨[], .start⟩ =
        .ok ⟨(laidOut 0 0 resources).take i, cursor⟩ ∧
      cursor.index.toInt = i + 1 ∧ cursor.offset.toInt = (resources.take i).flatten.length := by
  have length : (resources.take i).length = i := List.length_take_of_le reached
  have data : (resources.take i).flatten.length ≤ offsetLimit := by
    rw [← List.take_append_drop i resources, List.flatten_append, List.length_append] at fits
    omega
  have reach : 0 + (resources.take i).flatten.length ≤ offsetLimit := by rwa [Nat.zero_add]
  have pushed := foldlM_push_at [] 0 0 reach
  rw [List.nil_append, Nat.zero_add, Nat.zero_add, length] at pushed
  rw [take_laidOut]
  refine ⟨_, pushed, ?_, toInt_ofNat_of_le data⟩
  rw [capacity_eq] at room
  exact toInt_ofNat_of_le (Nat.le_trans (by omega : i + 1 ≤ 513) (by decide))

/-- The two limits, and what keeps to them: every list of resources within both is laid out,
with no word that wraps on the way. -/
theorem assemble_fails_only_past_limits (resources : List Bytes) :
    let before (i : Nat) := ((resources.take i).map List.length).sum
    let total := (resources.map List.length).sum
    (∀ cause, assemble resources = .error cause ↔
      512 < resources.length ∧ cause = .tableFull resources.length 512 ∨
      resources.length ≤ 512 ∧ ∃ i, ∃ inside : i < resources.length,
        before i ≤ 2 ^ 31 - 1 ∧ 2 ^ 31 - 1 < before (i + 1) ∧
        cause = .tooLarge (if 2 ^ 31 - 1 < resources[i].length then resources[i].length
          else before (i + 1))) ∧
    ((∃ size, assemble resources = .error (.tooLarge size)) ↔
      resources.length ≤ 512 ∧ 2 ^ 31 - 1 < total) ∧
    ((∃ image, assemble resources = .ok image) ↔
      resources.length ≤ 512 ∧ total ≤ 2 ^ 31 - 1) ∧
    tableAt resources = .ok ((assemble resources).map Image.records) ∧
    ∀ image, assemble resources = .ok image →
      image.header.count.toNat = resources.length ∧
      (∀ record ∈ image.records, 0 ≤ record.index.toInt ∧ 0 ≤ record.offset.toInt ∧
        0 ≤ record.size.toInt ∧ record.offset.toInt + record.size.toInt ≤ 2 ^ 31 - 1) ∧
      (∀ i, ∀ inside : i < resources.length, ∃ record, image.records[i]? = some record ∧
        record.index.toInt = i + 1 ∧ record.offset.toInt = before i ∧
        record.size.toInt = resources[i].length) ∧
      ∀ i ≤ resources.length, ∃ cursor : Cursor,
        (resources.take i).foldlM Placed.push ⟨[], .start⟩ = .ok ⟨image.records.take i, cursor⟩ ∧
        cursor.index.toInt = i + 1 ∧ cursor.offset.toInt = before i := by
  intro before total
  have before_eq (i : Nat) : before i = (resources.take i).flatten.length :=
    List.length_flatten.symm
  have total_eq : total = resources.flatten.length := List.length_flatten.symm
  refine ⟨?_, ?_, ?_, tableAt_eq resources, ?_⟩
  · intro cause
    rw [assemble_eq_error_iff, placeAll_eq_error_iff (Nat.zero_le _)]
    simp only [Nat.zero_add, refusedSize_take]
    simp only [← before_eq]
    rfl
  · rw [exists_tooLarge_iff, total_eq]
    rfl
  · simp only [assemble_eq_ok_iff, exists_and_left, exists_eq, and_true, total_eq]
    rfl
  · intro image assembled
    obtain ⟨room, fits, rfl⟩ := assemble_eq_ok_iff.mp assembled
    refine ⟨?_, ?_, ?_, ?_⟩
    · rw [Image.header, length_laidOut]
      exact UInt32.toNat_ofNat_of_lt' (Nat.lt_of_le_of_lt room (by decide))
    · intro record member
      obtain ⟨i, slot⟩ := List.mem_iff_getElem?.mp member
      have inside : i < resources.length := by
        rw [← length_laidOut 0 0 resources]
        exact (List.getElem?_eq_some_iff.mp slot).1
      obtain ⟨_, there, index, offset, size, -⟩ := record_laidOut room fits inside
      cases slot.symm.trans there
      have reach := length_take_flatten_add_le resources inside
      rw [offsetLimit] at fits
      omega
    · intro i inside
      obtain ⟨record, slot, index, offset, size, -⟩ := record_laidOut room fits inside
      exact ⟨record, slot, index, before_eq i ▸ offset, size⟩
    · intro i reached
      obtain ⟨cursor, pushed, index, offset⟩ := foldlM_push_take room fits reached
      exact ⟨cursor, pushed, index, before_eq i ▸ offset⟩

/-- One byte too many, one resource too many, and three resources that fit. -/
theorem one_more_is_refused :
    (∃ data : Bytes, data.length = 2 ^ 31 - 1 ∧
      assemble [data, [7]] = .error (.tooLarge (2 ^ 31))) ∧
    assemble (List.replicate 513 []) = .error (.tableFull 513 512) ∧
    ∃ image, assemble [[1, 2], [], [3]] = .ok image ∧ ∃ record, image.records[2]? = some record ∧
      record.index.toInt = 3 ∧ record.offset.toInt = 2 ∧ record.size.toInt = 1 := by
  obtain ⟨data, long⟩ : ∃ data : Bytes, data.length = 2 ^ 31 - 1 :=
    ⟨List.replicate _ 0, List.length_replicate⟩
  obtain ⟨past, -⟩ := assemble_fails_only_past_limits [data, [7]]
  obtain ⟨table, -⟩ := assemble_fails_only_past_limits (List.replicate 513 [])
  obtain ⟨-, -, fits, -, result⟩ := assemble_fails_only_past_limits [[1, 2], [], [3]]
  obtain ⟨image, assembled⟩ := fits.mpr (by decide)
  obtain ⟨-, -, records, -⟩ := result image assembled
  refine ⟨⟨data, long, (past _).mpr (.inr ⟨by simp, 1, by simp, ?_⟩)⟩, (table _).mpr (.inl ?_),
    image, assembled, records 2 (by decide)⟩
  · simp [long]
  · rw [List.length_replicate]
    exact ⟨by decide, rfl⟩

end ResourcePack.Pack
