import Arborist.Diagnostic.Json
import Arborist.Rule.Descriptor

/-!
# `Arborist.Rule.Json`: descriptors as JSON

All fields of a descriptor are written. The applicability has a `mode`, and the categories beside it
if the mode names some.
-/

set_option autoImplicit false

namespace Arborist

namespace Applicability

def toJson : Applicability → Json
  | .all => .object [("mode", .string "all")]
  | .only categories =>
    .object [("mode", .string "only"), ("categories", .ofList FileCategory.toJson categories)]
  | .except categories =>
    .object [("mode", .string "except"), ("categories", .ofList FileCategory.toJson categories)]

end Applicability

namespace Descriptor

def toJson (d : Descriptor) : Json :=
  .object [("code", .string d.code), ("name", .string d.name),
    ("description", .string d.description), ("message", .string d.message),
    ("severity", d.severity.toJson), ("impact", .string d.impact.name),
    ("cost", .string d.cost.name), ("applicability", d.applicability.toJson)]

end Descriptor

end Arborist
