/-!
Type names as far as a decoder needs them: size words, a qualified name with template arguments,
and the pointer and reference markers behind it. Qualifiers and signedness are not kept.
-/

set_option autoImplicit false

namespace DebugLink

/-- A word that gives the size of a number. -/
inductive SizeWord
  | short
  | long
  deriving DecidableEq, Repr

/-- What may stand behind a type. -/
inductive Marker
  | pointer
  | reference
  deriving DecidableEq, Repr

/-- One component of a qualified name, with its template arguments if it has any. -/
structure Scope (τ : Type) where
  name : String
  arguments : Option (List τ)

/-- A type name. The path is empty where the type is spelled with size words only. -/
inductive TypeName
  | mk (specifiers : List SizeWord) (path : List (Scope TypeName)) (declarators : List Marker)

instance : Inhabited TypeName :=
  ⟨⟨[], [], []⟩⟩

def SizeWord.text : SizeWord → String
  | short => "short"
  | long => "long"

def Marker.char : Marker → Char
  | pointer => '*'
  | reference => '&'

namespace TypeName

def specifiers : TypeName → List SizeWord
  | ⟨s, _, _⟩ => s

def path : TypeName → List (Scope TypeName)
  | ⟨_, p, _⟩ => p

def declarators : TypeName → List Marker
  | ⟨_, _, d⟩ => d

/-- The qualified name without template arguments, after the size words. -/
def baseName (ty : TypeName) : String :=
  let sizes := ty.specifiers.map SizeWord.text
  match ty.path with
  | [] => " ".intercalate sizes
  | path => " ".intercalate (sizes ++ ["::".intercalate (path.map Scope.name)])

/-- The template arguments of the innermost component. -/
def templateArguments (ty : TypeName) : List TypeName :=
  match ty.path.getLast? with
  | some ⟨_, some arguments⟩ => arguments
  | _ => []

/-- Whether the outermost marker makes a pointer. -/
def isPointer (ty : TypeName) : Bool :=
  ty.declarators.getLast? = some .pointer

/-- The type without the references at its end. -/
def withoutReference (ty : TypeName) : TypeName :=
  ⟨ty.specifiers, ty.path, (ty.declarators.reverse.dropWhile (· = .reference)).reverse⟩

/-- The type that a pointer points to. -/
def pointee? (ty : TypeName) : Option TypeName :=
  if ty.isPointer then some ⟨ty.specifiers, ty.path, ty.declarators.dropLast⟩ else none

/-- Template arguments in angle brackets. A closing bracket at the end of the last argument is kept
apart from the one that closes the list. -/
def bracketed (arguments : List String) : String :=
  let closing :=
    match arguments.getLast? with
    | some last => if last.toList.getLast? = some '>' then " >" else ">"
    | none => ">"
  "<" ++ ", ".intercalate arguments ++ closing

/-- Puts the spelling of a type together from those of its parts. -/
def spell (specifiers : List SizeWord) (path : List String) (declarators : List Marker) : String :=
  let words := specifiers.map SizeWord.text ++
    (if path.isEmpty then [] else ["::".intercalate path])
  let words := if words.isEmpty then ["int"] else words
  let markers := if declarators.isEmpty then [] else [String.ofList (declarators.map Marker.char)]
  " ".intercalate (words ++ markers)

mutual

/-- The spelling of a type. A type without any word is spelled `int`. -/
def text : TypeName → String
  | ⟨specifiers, path, declarators⟩ => spell specifiers (pathTexts path) declarators

/-- The spellings of the components of a path. -/
def pathTexts : List (Scope TypeName) → List String
  | [] => []
  | scope :: rest => scopeText scope :: pathTexts rest

/-- The spelling of one component of a path. -/
def scopeText : Scope TypeName → String
  | ⟨name, none⟩ => name
  | ⟨name, some arguments⟩ => name ++ bracketed (argumentTexts arguments)

/-- The spellings of template arguments. -/
def argumentTexts : List TypeName → List String
  | [] => []
  | argument :: rest => argument.text :: argumentTexts rest

end

end TypeName

end DebugLink
