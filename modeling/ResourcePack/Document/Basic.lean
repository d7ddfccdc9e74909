/-!
# Documents

The tree of values that a JSON or TOML text writes down. Members of a record keep the
order in which they are written, and nothing keeps a key from being repeated.
-/

namespace ResourcePack

inductive Document where
  | null
  | bool (value : Bool)
  | integer (value : Int)
  /-- Any other number, as it is spelled. -/
  | number (spelling : String)
  /-- A date, a time of day or both, in the usual spelling. -/
  | date (spelling : String)
  /-- Text, unless an escape in it names half of a surrogate pair without the other. -/
  | text (value : Option String)
  | list (items : List Document)
  | record (members : List (Option String × Document))
  deriving Repr, Inhabited

namespace Document

/-- Text that is text. -/
abbrev str (value : String) : Document := .text (some value)

/-- A number that is not negative. -/
abbrev nat (value : Nat) : Document := .integer value

/-- A record whose keys are text. -/
def object (members : List (String × Document)) : Document :=
  .record (members.map fun (key, value) => (some key, value))

/-- What becomes of items in a list of fields that stand for no field. -/
inductive Surplus where
  | refused
  | ignored
  deriving DecidableEq, Repr

/-- The values of a record's fields, in the order of `names`. A record may also be written
as a list of its fields in this order, of which the last ones may be missing. Every key
has to be text, no field may be given twice, and other members are passed over. -/
def fields? (surplus : Surplus) (names : List String) :
    Document → Option (List (Option Document))
  | .list items =>
    if surplus = .refused ∧ names.length < items.length then none
    else some ((items.map some ++ names.map fun _ => none).take names.length)
  | .record members =>
    if members.all (·.1.isSome)
        && names.all (fun name => members.countP (·.1 = some name) ≤ 1) then
      some (names.map fun name => members.lookup (some name))
    else none
  | _ => none

example : fields? .ignored ["a", "b"] (.list [.null, .bool true, .list []]) =
    some [some .null, some (.bool true)] := rfl

example : fields? .refused ["a", "b"] (.list [.null]) = some [some .null, none] := rfl

end Document

end ResourcePack
