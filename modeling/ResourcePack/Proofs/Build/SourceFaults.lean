import ResourcePack.Build.Source
import ResourcePack.Proofs.Outcome
import ResourcePack.Proofs.Pack.Opening
import ResourcePack.Proofs.Picture.ForcedDepth

/-!
# What a source can fail at

A source fails because its file cannot be read, because that does not hold what the source
looks for in it, or because a picture cannot have the depth it is forced to. An index that
a pack does not have is a fault of its own, and the forced depth is one of the settings.
All the rest is the fault of the files.
-/

namespace ResourcePack

open Build (Fault Error)

namespace Pack.Archive

/-- A pack that does not open is too short. -/
theorem ofBytes_eq_error {path : Path} {bytes : Bytes} {cause : Error}
    (refused : ofBytes path bytes = .error cause) : ∃ detail, cause = .truncated path detail := by
  unfold ofBytes at refused
  split at refused
  · cases refused
    exact ⟨_, rfl⟩
  · split at refused
    · cases refused
      exact ⟨_, rfl⟩
    · cases refused

/-- A search fails for want of the index, or the first record with it is no good. -/
theorem extract_eq_error_iff {archive : Archive} {index : Int32} {cause : Error} :
    archive.extract index = .error cause ↔
      ((∀ record ∈ archive.records, record.index ≠ index) ∧
        cause = .notFound archive.path index) ∨
      ∃ record, archive.records.find? (·.index = index) = some record ∧
        ¬ archive.Within record ∧ cause = .truncated archive.path
          (missingData index record.offset record.size) := by
  unfold extract find
  cases found : archive.records.find? (·.index = index) with
  | none =>
      have absent : ∀ record ∈ archive.records, record.index ≠ index := by
        simpa using List.find?_eq_none.mp found
      constructor
      · rintro ⟨⟩
        exact .inl ⟨absent, rfl⟩
      · rintro (⟨-, rfl⟩ | ⟨record, ⟨⟩, -⟩)
        rfl
  | some record =>
      constructor
      · intro failed
        by_cases within : archive.Within record
        · simp only [bind, Except.bind, slice?_of_within within] at failed
          cases failed
        · simp only [bind, Except.bind, slice?_of_not_within within] at failed
          cases failed
          exact .inr ⟨record, rfl, within, rfl⟩
      · rintro (⟨absent, -⟩ | ⟨other, same, outside, rfl⟩)
        · have stored : record.index = index := by simpa using List.find?_some found
          exact absurd stored (absent record (List.mem_of_find?_eq_some found))
        · cases same
          simp only [bind, Except.bind, slice?_of_not_within outside]

end Pack.Archive

namespace Depth

/-- A depth is less than the least one with room exactly if it has no room. -/
theorem bits_lt_least_iff {required count : Nat} (least : Least required count) (depth : Depth) :
    depth.bits < required ↔ 2 ^ depth.bits < count := by
  have listed : depth.bits ∈ [1, 2, 4, 8] := by cases depth <;> decide
  constructor
  · intro less
    apply Nat.lt_of_not_le
    intro room
    exact Nat.not_lt.mpr (least.least _ listed room) less
  · intro few
    apply Nat.lt_of_not_le
    intro enough
    have room := Nat.le_trans least.room (Nat.pow_le_pow_right (by decide) enough)
    exact Nat.not_lt.mpr room few

end Depth

namespace Png

theorem isConfiguration_of_decode {file : Bytes} {cause : Picture.Error}
    (failed : decode file = .error cause) : cause.isConfiguration = false := by
  unfold decode at failed
  split at failed
  · unfold Content.toRaster Raster.ofPixels at failed
    split at failed
    · cases failed
    · cases failed
      rfl
  · cases failed
    rfl

theorem isConfiguration_of_encode {picture : Quantized} {cause : Picture.Error}
    (failed : encode picture = .error cause) : cause.isConfiguration = false := by
  have unencodable := Outcome.map_eq_error.mp failed
  unfold Content.ofQuantized at unencodable
  dsimp only at unencodable
  split at unencodable
  · cases unencodable
    rfl
  · split at unencodable
    · cases unencodable
      rfl
    · cases unencodable

end Png

namespace Source

/-- What keeps a source from yielding its bytes where `look` tells what is in the files, by
what is at fault. -/
inductive Obstacle (look : Path → Except FileError Bytes) : Source → Fault → Prop
  | unread {source : Source} {reason : FileError} (unread : look source.path = .error reason) :
      Obstacle look source .io
  /-- The pack ends too early. -/
  | truncated {pack : Path} {index : Int32} {content : Bytes} {cause : Pack.Error}
      (read : look pack = .ok content)
      (refused : Pack.Archive.ofBytes pack content = .error cause) :
      Obstacle look (.extract pack index) .io
  /-- The pack opens, and no record has the index. -/
  | absent {pack : Path} {index : Int32} {content : Bytes} {archive : Pack.Archive}
      (read : look pack = .ok content) (opened : Pack.Archive.ofBytes pack content = .ok archive)
      (absent : ∀ record ∈ archive.records, record.index ≠ index) :
      Obstacle look (.extract pack index) .notFound
  /-- The first record with the index points out of the pack. -/
  | outside {pack : Path} {index : Int32} {content : Bytes} {archive : Pack.Archive}
      {record : Pack.Record} (read : look pack = .ok content)
      (opened : Pack.Archive.ofBytes pack content = .ok archive)
      (first : archive.records.find? (·.index = index) = some record)
      (outside : ¬ archive.Within record) : Obstacle look (.extract pack index) .io
  | undecodable {path : Path} {options : ConvertOptions} {content : Bytes}
      {cause : Picture.Error} (read : look path = .ok content)
      (refused : Codec.png.decode content = .error cause) :
      Obstacle look (.image path options) .io
  /-- The reduced picture has more colours than the forced depth has values. -/
  | depth {path : Path} {options : ConvertOptions} {content : Bytes} {raster : Raster}
      {forced : Depth} (read : look path = .ok content)
      (decoded : Codec.png.decode content = .ok raster) (asked : options.depth = some forced)
      (few : 2 ^ forced.bits < (raster.reduced options.family options.method).toFinset.card) :
      Obstacle look (.image path options) .configuration
  | unencodable {path : Path} {options : ConvertOptions} {content : Bytes} {raster : Raster}
      {picture : Quantized} {cause : Picture.Error} (read : look path = .ok content)
      (decoded : Codec.png.decode content = .ok raster)
      (quantized : Quantized.ofRaster raster options = .ok picture)
      (refused : Codec.png.encode picture = .error cause) :
      Obstacle look (.image path options) .io

@[simp] theorem fault_unreadable (source : Source) (cause : FileError) :
    (source.unreadable cause).fault = .io := by
  cases source <;> rfl

variable {look : Path → Except FileError Bytes} {content : Bytes} {fault : Fault}

theorem produce_extract_eq_error_iff (codec : Codec) {pack : Path} {index : Int32} {cause : Error} :
    (extract pack index).produce codec content = .error cause ↔ ∃ inner, cause = .pack inner ∧
      (Pack.Archive.ofBytes pack content = .error inner ∨
        ∃ archive, Pack.Archive.ofBytes pack content = .ok archive ∧
          archive.extract index = .error inner) := by
  rw [produce, Outcome.mapError_eq_error]
  simp only [Outcome.bind_eq_error]
  constructor
  · rintro ⟨inner, failed, rfl⟩
    exact ⟨inner, rfl, failed⟩
  · rintro ⟨inner, rfl, failed⟩
    exact ⟨inner, failed, rfl⟩

theorem produce_image_eq_error_iff (codec : Codec) {path : Path} {options : ConvertOptions}
    {cause : Error} :
    (image path options).produce codec content = .error cause ↔ ∃ inner, cause = .picture inner ∧
      (codec.decode content = .error inner ∨ ∃ raster, codec.decode content = .ok raster ∧
        (Quantized.ofRaster raster options = .error inner ∨
          ∃ picture, Quantized.ofRaster raster options = .ok picture ∧
            codec.encode picture = .error inner)) := by
  rw [produce, Outcome.mapError_eq_error]
  simp only [Codec.convert, Outcome.bind_eq_error]
  constructor
  · rintro ⟨inner, failed, rfl⟩
    exact ⟨inner, rfl, failed⟩
  · rintro ⟨inner, rfl, failed⟩
    exact ⟨inner, failed, rfl⟩

theorem fault_picture {inner : Picture.Error} (other : inner.isConfiguration = false) :
    (Error.picture inner).fault = .io := by
  rw [Error.fault, if_neg (Bool.not_eq_true _ ▸ other)]

/-- Each of these reasons makes a source fail. -/
theorem Obstacle.fails {source : Source} (obstacle : source.Obstacle look fault) :
    ∃ cause, source.ofOutcome .png (look source.path) = .error cause ∧ cause.fault = fault := by
  cases obstacle with
  | unread unread =>
      rw [unread]
      exact ⟨_, rfl, fault_unreadable _ _⟩
  | truncated read refused =>
      obtain ⟨detail, rfl⟩ := Pack.Archive.ofBytes_eq_error refused
      simp only [path, read, ofOutcome]
      exact ⟨_, (produce_extract_eq_error_iff .png).mpr ⟨_, rfl, .inl refused⟩, rfl⟩
  | absent read opened absent =>
      simp only [path, read, ofOutcome]
      exact ⟨_, (produce_extract_eq_error_iff .png).mpr ⟨_, rfl, .inr ⟨_, opened,
        Pack.Archive.extract_eq_error_iff.mpr (.inl ⟨absent, rfl⟩)⟩⟩, rfl⟩
  | outside read opened first outside =>
      simp only [path, read, ofOutcome]
      exact ⟨_, (produce_extract_eq_error_iff .png).mpr ⟨_, rfl, .inr ⟨_, opened,
        Pack.Archive.extract_eq_error_iff.mpr (.inr ⟨_, first, outside, rfl⟩)⟩⟩, rfl⟩
  | undecodable read refused =>
      simp only [path, read, ofOutcome]
      exact ⟨_, (produce_image_eq_error_iff .png).mpr ⟨_, rfl, .inl refused⟩,
        fault_picture (Png.isConfiguration_of_decode refused)⟩
  | depth read decoded asked few =>
      simp only [path, read, ofOutcome]
      have low := (Depth.bits_lt_least_iff (Raster.least_depth_analyze _ _ _) _).mpr few
      exact ⟨_, (produce_image_eq_error_iff .png).mpr ⟨_, rfl, .inr ⟨_, decoded,
        .inl (Quantized.ofRaster_of_low asked low)⟩⟩, rfl⟩
  | unencodable read decoded quantized refused =>
      simp only [path, read, ofOutcome]
      exact ⟨_, (produce_image_eq_error_iff .png).mpr ⟨_, rfl, .inr ⟨_, decoded,
        .inr ⟨_, quantized, refused⟩⟩⟩, fault_picture (Png.isConfiguration_of_encode refused)⟩

/-- A source that fails has one of these reasons. -/
theorem obstacle_of_ofOutcome {source : Source} {cause : Error}
    (failed : source.ofOutcome .png (look source.path) = .error cause) :
    source.Obstacle look cause.fault := by
  cases read : look source.path with
  | error reason =>
      rw [read] at failed
      cases failed
      rw [fault_unreadable]
      exact .unread read
  | ok content =>
      simp only [read, ofOutcome] at failed
      cases source with
      | file path => cases failed
      | extract pack index =>
          obtain ⟨inner, rfl, refused | ⟨archive, opened, missing⟩⟩ :=
            (produce_extract_eq_error_iff .png).mp failed
          · obtain ⟨detail, rfl⟩ := Pack.Archive.ofBytes_eq_error refused
            exact .truncated read refused
          · obtain ⟨absent, rfl⟩ | ⟨record, first, outside, rfl⟩ :=
              Pack.Archive.extract_eq_error_iff.mp missing
            · exact .absent read opened absent
            · exact .outside read opened first outside
      | image path options =>
          obtain ⟨inner, rfl, refused | ⟨raster, decoded, failed⟩⟩ :=
            (produce_image_eq_error_iff .png).mp failed
          · rw [fault_picture (Png.isConfiguration_of_decode refused)]
            exact .undecodable read refused
          · obtain unfit | ⟨picture, quantized, refused⟩ := failed
            · obtain ⟨forced, asked, low, rfl⟩ := Quantized.ofRaster_eq_error_iff.mp unfit
              exact .depth read decoded asked
                ((Depth.bits_lt_least_iff (raster.least_depth_analyze _ _) _).mp low)
            · rw [fault_picture (Png.isConfiguration_of_encode refused)]
              exact .unencodable read decoded quantized refused

end Source

end ResourcePack
