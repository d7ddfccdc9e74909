import ResourcePack.Manifest.References

/-!
# Manifests as written

A manifest lists the resources of a pack. Of the fields of an input only its kind is
always there; which others it needs depends on the kind and is checked in validation.
-/

namespace ResourcePack

namespace Manifest

/-- Where a resource comes from, as written. -/
structure Input where
  kind : String
  file : Option String
  reference : Option String
  id : Option Int32
  method : Option String
  depth : Option UInt8
  deriving DecidableEq, Repr

structure Resource where
  name : String
  input : Input
  deriving DecidableEq, Repr

end Manifest

structure Manifest where
  references : References
  palette : Option String
  resources : List Manifest.Resource
  deriving DecidableEq, Repr

end ResourcePack
