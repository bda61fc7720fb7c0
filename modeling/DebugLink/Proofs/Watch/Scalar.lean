import DebugLink.Proofs.Watch.Kinship
import DebugLink.Watch.Shape

/-!
Objects of scalar type. Their values are decoded without further objects, so a watch on one decodes
to the same value in every table that holds the object (`Watch.decode_watch`).
-/

set_option autoImplicit false

namespace DebugLink

/-- How a value of a shape is decoded, if that takes no further objects. -/
def Shape.scalar? : Shape → Option Decoder
  | int => some .int
  | char => some .char
  | cString => some .cString
  | pointer pointee => some (.pointer pointee)
  | raw => some .raw
  | _ => none

namespace Variable

/-- How the value of an object is decoded, if that takes no further objects. -/
def scalar? (v : Variable) : Option Decoder :=
  ((v.type.map Shape.classify).getD .raw).scalar?

/-- The watch on an object whose value is decoded without further objects. -/
def watch (v : Variable) (expression : String) : Watch :=
  ⟨v.name, expression, v.scalar?.getD .raw⟩

/-- The decoded value of an object of scalar type. -/
def native (v : Variable) : Native :=
  Watch.decodeWith .empty v.value (v.scalar?.getD .raw)

end Variable

namespace Watch

variable {v : Variable} {table : VariableTable}

/-- Scalar values are decoded without a look at other objects. -/
theorem decodeWith_scalar (table table' : VariableTable) (printed : Option String) :
    decodeWith table printed (v.scalar?.getD .raw) =
      decodeWith table' printed (v.scalar?.getD .raw) := by
  have hplain : (v.scalar?.getD .raw).ownVars = [] ∧ (v.scalar?.getD .raw).members = [] := by
    unfold Variable.scalar?
    cases (v.type.map Shape.classify).getD .raw <;> exact ⟨rfl, rfl⟩
  exact decodeWith_congr (by simp [hplain.1]) (by simp [hplain.2]) printed

/-- A watch on an object that is stored decodes to the value of the object. -/
theorem decode_watch (hget : table.get? v.name = some v) (hscope : v.inScope)
    (expression : String) : (v.watch expression).decode table = v.native := by
  unfold Variable.watch Watch.decode
  rw [hget]
  dsimp only
  rw [if_pos hscope]
  exact decodeWith_scalar _ _ _

end Watch

theorem Shape.classify_int : classify "int" = .int := by
  have hparse : (TypeName.parse? "int").any fun ty ↦ isIntegral ty.withoutReference := by
    decide +kernel
  obtain ⟨ty, hty, hintegral⟩ := (Option.any_eq_true ..).mp hparse
  rw [classify, hty]
  exact if_pos hintegral

theorem Variable.scalar?_of_int {v : Variable} (h : v.type = some "int") :
    v.scalar? = some .int := by
  rw [scalar?, h, Option.map_some, Option.getD_some, Shape.classify_int]
  rfl

theorem Variable.native_of_int {v : Variable} {n : Int64} (htype : v.type = some "int")
    (hvalue : v.value >>= Printed.int? = some n) : v.native = .int n := by
  obtain ⟨printed, hprinted, hread⟩ := Option.bind_eq_some_iff.mp hvalue
  rw [native, scalar?_of_int htype, hprinted, Option.getD_some]
  simp [Watch.decodeWith, Native.read, Printed.number?, hread]

end DebugLink
