/-!
How the program is called: an optional configuration file, and the program to debug with its
arguments. Everything after the program belongs to it.
-/

set_option autoImplicit false

namespace DebugLink

/-- What a call asks for. -/
structure Invocation where
  config : Option String
  program : Option String
  arguments : List String
  deriving DecidableEq, Repr

/-- Why a call is malformed. -/
inductive InvocationError
  /-- The option for the configuration stands last. -/
  | missingFile
  | unknownOption (option : String)
  deriving DecidableEq, Repr

namespace Invocation

/-- How to call the program. -/
def usage : String :=
  "usage: migdb [-c CONFIG] [--] [PROGRAM [ARGS...]]"

/-- Reads the arguments of a call, the last configuration before the program counting. The result is
nothing if help was asked for. -/
def ofArguments (config : Option String) :
    List String → Except InvocationError (Option Invocation)
  | [] => .ok (some ⟨config, none, []⟩)
  | argument :: rest =>
    if argument = "-h" ∨ argument = "--help" then .ok none
    else if argument = "-c" ∨ argument = "--config" then
      match rest with
      | [] => .error .missingFile
      | file :: rest => ofArguments (some file) rest
    else if argument = "--" then .ok (some ⟨config, rest.head?, rest.tail⟩)
    else if argument.toList.head? = some '-' then .error (.unknownOption argument)
    else .ok (some ⟨config, some argument, rest⟩)

/-- Reads the arguments of a call. -/
def read? (arguments : List String) : Except InvocationError (Option Invocation) :=
  ofArguments none arguments

end Invocation

/-- What is wrong with a call, in words. -/
def InvocationError.message : InvocationError → String
  | missingFile => "-c needs a file"
  | unknownOption option => "unknown option " ++ option ++ "\n" ++ Invocation.usage

end DebugLink
