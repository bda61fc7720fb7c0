import DebugLink.TypeName.Grammar

/-!
The shape of a type: which family of decoders reads its values.
-/

set_option autoImplicit false

namespace DebugLink

/-- Families of decoders. -/
inductive Shape
  | int
  | char
  /-- A pointer to characters, printed together with them. -/
  | cString
  /-- The string class of the standard library. -/
  | str
  | pair
  | vector
  /-- A map; the types of keys and values are needed to name the nodes of its tree. -/
  | map (key value : TypeName)
  | pointer (pointee : String)
  /-- Values that are kept as printed. -/
  | raw

namespace Shape

/-- The names of plain numbers. -/
def integralNames : List String :=
  ["int", "size_t", "ssize_t", "ptrdiff_t", "intptr_t", "uintptr_t", "int8_t", "int16_t",
    "int32_t", "int64_t", "uint8_t", "uint16_t", "uint32_t", "uint64_t"]

/-- The names of the string class. -/
def stringNames : List String :=
  ["std::string", "std::basic_string", "std::__cxx11::basic_string", "std::__cxx11::string"]

/-- A number: size words alone, or one of the known names. -/
def isIntegral (ty : TypeName) : Bool :=
  ty.declarators.isEmpty &&
    match ty.path with
    | [] => true
    | [⟨name, none⟩] => integralNames.contains name
    | _ => false

/-- A plain type of one of the given names. -/
def isNamed (names : List String) (ty : TypeName) : Bool :=
  ty.declarators.isEmpty && names.contains ty.baseName

def isChar (ty : TypeName) : Bool :=
  ty.specifiers.isEmpty && isNamed ["char"] ty

def isCString (ty : TypeName) : Bool :=
  ty.declarators = [.pointer] && (ty.pointee?.map isChar).getD false

/-- The shape of a type without references at its end. The first rule that fits decides. -/
def ofType (ty : TypeName) : Shape :=
  if isIntegral ty then .int
  else if isChar ty then .char
  else if isCString ty then .cString
  else if isNamed stringNames ty then .str
  else if isNamed ["std::pair"] ty && ty.templateArguments.length == 2 then .pair
  else if isNamed ["std::vector"] ty then .vector
  else
    match isNamed ["std::map"] ty, ty.templateArguments with
    | true, key :: value :: _ => .map key value
    | _, _ =>
      match ty.pointee? with
      | some pointee => .pointer pointee.text
      | none => .raw

/-- The shape of a type as the debugger spells it. -/
def classify (input : String) : Shape :=
  match TypeName.parse? input with
  | some ty => ofType ty.withoutReference
  | none => .raw

end Shape

end DebugLink
