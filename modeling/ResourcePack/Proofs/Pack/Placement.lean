import ResourcePack.Pack.Image
import ResourcePack.Proofs.Outcome

/-!
# Where resources are placed

The cursor carries an index and an offset as signed words, and `place` compares only the
offset with the limit. `laidOut` is the table without words: the index is the position,
counted from 1, and the offset is the number of bytes before. The two agree exactly as
long as all data lies below the limit, and then no signed sum wraps.
-/

namespace ResourcePack.Pack

/-- The cursor at a position of the list, with so many bytes placed before it. -/
def Cursor.at (position start : Nat) : Cursor where
  index := .ofNat (position + 1)
  offset := .ofNat start

/-- The records of resources that follow each other, the first one at `position` and its
data at `start`. -/
def laidOut (position start : Nat) : List Bytes → List Record
  | [] => []
  | resource :: rest =>
    { index := .ofNat (position + 1), offset := .ofNat start, size := .ofNat resource.length
      checksum := Checksum.ofBytes resource } ::
      laidOut (position + 1) (start + resource.length) rest

@[simp] theorem length_laidOut (position start : Nat) (resources : List Bytes) :
    (laidOut position start resources).length = resources.length := by
  induction resources generalizing position start with
  | nil => rfl
  | cons resource rest ih => simp [laidOut, ih]

theorem take_laidOut (position start : Nat) (resources : List Bytes) (i : Nat) :
    (laidOut position start resources).take i = laidOut position start (resources.take i) := by
  induction resources generalizing position start i with
  | nil => simp [laidOut]
  | cons resource rest ih =>
      cases i with
      | zero => rfl
      | succ i => rw [laidOut, List.take_succ_cons, ih, List.take_succ_cons, laidOut]

/-- The record at a position is determined by the resources before it and its own. -/
theorem getElem?_laidOut (position start : Nat) (resources : List Bytes) {i : Nat}
    (hi : i < resources.length) :
    (laidOut position start resources)[i]? =
      some { index := .ofNat (position + i + 1)
             offset := .ofNat (start + (resources.take i).flatten.length)
             size := .ofNat resources[i].length
             checksum := Checksum.ofBytes resources[i] } := by
  induction resources generalizing position start i with
  | nil => simp at hi
  | cons resource rest ih =>
      cases i with
      | zero => simp [laidOut]
      | succ i =>
          have hrest : i < rest.length := by simpa using hi
          simp only [laidOut, List.getElem?_cons_succ, List.getElem_cons_succ, ih _ _ hrest,
            List.take_succ_cons, List.flatten_cons, List.length_append]
          congr 3 <;> omega

namespace Cursor

/-- One step moves on by one index and by the size of the resource. -/
theorem place_at (position : Nat) {start : Nat} {resource : Bytes}
    (fits : start + resource.length ≤ offsetLimit) :
    (Cursor.at position start).place resource =
      .ok ({ index := .ofNat (position + 1), offset := .ofNat start
             size := .ofNat resource.length, checksum := Checksum.ofBytes resource },
        Cursor.at (position + 1) (start + resource.length)) := by
  have hoffset : (Int32.ofNat start).toNatClampNeg = start :=
    Int32.toNatClampNeg_ofNat_of_lt (by unfold offsetLimit at fits; omega)
  have hsize : ¬ offsetLimit < resource.length := by omega
  have hbound : ¬ offsetLimit < start + resource.length := by omega
  have next : Int32.ofNat (position + 1) + 1 = Int32.ofNat (position + 1 + 1) :=
    (Int32.ofNat_add (position + 1) 1).symm
  simp only [place, Cursor.at, hoffset, if_neg hsize, if_neg hbound, next, ← Int32.ofNat_add]

/-- A step past the limit is refused, whichever of the two checks notices it. -/
theorem place_at_error (position : Nat) {start : Nat} {resource : Bytes}
    (before : start ≤ offsetLimit) (past : offsetLimit < start + resource.length) :
    ∃ size, (Cursor.at position start).place resource = .error (.tooLarge size) := by
  have hoffset : (Int32.ofNat start).toNatClampNeg = start :=
    Int32.toNatClampNeg_ofNat_of_lt (by unfold offsetLimit at before; omega)
  by_cases hsize : offsetLimit < resource.length
  · exact ⟨resource.length, by simp only [place, if_pos hsize]⟩
  · exact ⟨start + resource.length,
      by simp only [place, Cursor.at, hoffset, if_neg hsize, if_pos past]⟩

end Cursor

/-- Resources that fit are laid out one after the other. -/
theorem placeAll_eq_laidOut {position start : Nat} {resources : List Bytes}
    (fits : start + resources.flatten.length ≤ offsetLimit) :
    placeAll (.at position start) resources = .ok (laidOut position start resources) := by
  induction resources generalizing position start with
  | nil => rfl
  | cons resource rest ih =>
      rw [List.flatten_cons, List.length_append] at fits
      have here : start + resource.length ≤ offsetLimit := by omega
      have others : placeAll (.at (position + 1) (start + resource.length)) rest = _ :=
        ih (by omega)
      simp only [placeAll, Cursor.place_at position here, bind, Except.bind, others, laidOut]
      rfl

/-- Placing succeeds only below the limit, so a size that cannot be addressed never gets
into a record. -/
theorem fits_of_placeAll {position start : Nat} {resources : List Bytes} {records : List Record}
    (before : start ≤ offsetLimit)
    (placed : placeAll (.at position start) resources = .ok records) :
    start + resources.flatten.length ≤ offsetLimit := by
  induction resources generalizing position start records with
  | nil => simpa using before
  | cons resource rest ih =>
      by_cases fits : start + resource.length ≤ offsetLimit
      · simp only [placeAll, Cursor.place_at position fits, bind, Except.bind] at placed
        cases others : placeAll (.at (position + 1) (start + resource.length)) rest with
        | error cause => simp [others] at placed
        | ok records =>
            have := ih fits others
            rw [List.flatten_cons, List.length_append]
            omega
      · obtain ⟨size, refused⟩ :=
          Cursor.place_at_error position before (Nat.lt_of_not_le fits)
        simp [placeAll, refused, bind, Except.bind] at placed

theorem assemble_of_lt {resources : List Bytes} (full : capacity < resources.length) :
    assemble resources = .error (.tableFull resources.length capacity) := by
  simp [assemble, full, bind, Except.bind, throw, throwThe, MonadExceptOf.throw]

/-- With slots for all resources it is up to the placing. -/
theorem assemble_of_le {resources : List Bytes} (room : resources.length ≤ capacity) :
    assemble resources =
      (placeAll (.at 0 0) resources).map fun records => ⟨records, resources.flatten⟩ := by
  simp only [assemble, if_neg (Nat.not_lt.mpr room)]
  rfl

/-- What a successful assembly says about its list: it fits the table and the range of
offsets, and the image is the table of `laidOut` before the concatenated data. -/
theorem assemble_eq_ok_iff {resources : List Bytes} {image : Image} :
    assemble resources = .ok image ↔
      resources.length ≤ capacity ∧ resources.flatten.length ≤ offsetLimit ∧
        image = ⟨laidOut 0 0 resources, resources.flatten⟩ := by
  by_cases full : capacity < resources.length
  · simp [assemble_of_lt full, Nat.not_le.mpr full]
  rw [assemble_of_le (Nat.le_of_not_lt full), Outcome.map_eq_ok]
  constructor
  · rintro ⟨records, placed, rfl⟩
    have fits := fits_of_placeAll (Nat.zero_le _) placed
    rw [placeAll_eq_laidOut fits, Except.ok.injEq] at placed
    exact ⟨Nat.le_of_not_lt full, by rwa [Nat.zero_add] at fits, by rw [placed]⟩
  · rintro ⟨_, fits, rfl⟩
    exact ⟨_, placeAll_eq_laidOut (by rwa [Nat.zero_add]), rfl⟩

end ResourcePack.Pack
