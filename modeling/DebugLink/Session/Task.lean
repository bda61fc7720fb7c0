import DebugLink.Command.Request
import DebugLink.Session.Basic

/-!
Operations on a session. An operation is a task: it looks at the session and changes it at once, and
at times it submits a command and waits for the answer. Between a command and its answer anything
else may happen to the session, so a task is a tree of what it does next for each answer.
-/

set_option autoImplicit false

namespace DebugLink

/-- What remains to be done until a value is there. -/
inductive Task (α : Type) : Type
  | done (value : α)
  /-- Changes the session and goes on with what the session was before. -/
  | act (change : Session → Session) (next : Session → Task α)
  /-- Submits a command and goes on with its answer. -/
  | exchange (command : Command) (next : Except SessionError Response → Task α)
  /-- Never comes to an end. -/
  | endless

namespace Task

variable {α β : Type}

instance : Inhabited (Task α) :=
  ⟨endless⟩

/-- One task after another. -/
protected def bind : Task α → (α → Task β) → Task β
  | done a, f => f a
  | act change next, f => act change fun s ↦ (next s).bind f
  | exchange command next, f => exchange command fun r ↦ (next r).bind f
  | endless, _ => endless

instance : Monad Task where
  pure := done
  bind := Task.bind

/-- Looks at the session. -/
def query (f : Session → α) : Task α :=
  act id fun s ↦ done (f s)

/-- Changes the session. -/
def update (f : Session → Session) : Task Unit :=
  act f fun _ ↦ done ()

/-- Changes the session and yields a value that depends on it. -/
def step (f : Session → α × Session) : Task α :=
  act (fun s ↦ (f s).2) fun s ↦ done (f s).1

end Task

/-- A task that may fail. -/
abbrev Operation (α : Type) : Type := ExceptT SessionError Task α

namespace Operation

variable {α : Type}

/-- A task that cannot fail, as part of one that may. -/
def lift (task : Task α) : Operation α :=
  ExceptT.lift task

def query (f : Session → α) : Operation α :=
  lift (Task.query f)

def update (f : Session → Session) : Operation Unit :=
  lift (Task.update f)

/-- Submits a command and waits for the answer. -/
def execute (command : Command) : Operation Response :=
  ExceptT.mk (.exchange command .done)

/-- Makes a request and waits for the answer. -/
def request (r : Request) : Operation Response :=
  execute r.command

/-- Submits a command and does not wait. The result is its token. -/
def submit (command : Command) (handler : Option Handler) : Operation Token :=
  ExceptT.mk (Task.step fun s ↦ s.submit command handler)

/-- Submits a command whose answer nobody waits for. -/
def send (command : Command) : Operation Token :=
  submit command none

/-- Submits a command whose response goes to a callback. -/
def sendWith (command : Command) : Operation Token :=
  submit command (some .callback)

/-- The text under a name in a response, or the error that it is missing. -/
def textOf (response : Response) (name : String) (missing : Missing) : Operation String :=
  match response.fields.text? name with
  | some text => pure text
  | none => throw (.invalidResponse missing)

end Operation

end DebugLink
