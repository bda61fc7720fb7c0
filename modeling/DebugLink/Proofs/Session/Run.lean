import DebugLink.Proofs.Session.Ledger
import Mathlib.Data.List.Nodup

/-!
The runs of a session in which no caller chooses a token. Each step of a run is one occurrence: a
command is submitted, a record arrives, someone who waits gives up, or the session ends, in any
order. `Run.ledger` reads the ledger off the history, and `Run.numbered` the tokens and tickets that
were given out.
-/

set_option autoImplicit false

namespace DebugLink

/-- Something that happens to a session. -/
inductive Occurrence
  /-- A command is submitted under a token that the session has given it. -/
  | submission (token : Token) (handler : Option Handler) (admission : Admission)
  | record (record : Record)
  /-- Whoever waits for the answer under a token gives up. -/
  | timeout (token : Token)
  | ended
  /-- Something else, which does not concern the commands. -/
  | aside

namespace Occurrence

/-- The token that is given out. -/
def token? : Occurrence → Option Token
  | submission token _ _ => some token
  | _ => none

/-- The ticket that is given out. -/
def ticket? : Occurrence → Option Nat
  | submission _ handler _ => handler.bind Handler.ticket?
  | _ => none

end Occurrence

/-- The tokens that were given out, the first one first. -/
def allocated (history : List Occurrence) : List Token :=
  history.filterMap Occurrence.token?

/-- The tickets that were given out, the first one first. -/
def ticketed (history : List Occurrence) : List Nat :=
  history.filterMap Occurrence.ticket?

/-- What an occurrence changes in the ledger. -/
def Ledger.after (l : Ledger) : Occurrence → Ledger
  | .submission token handler admission =>
    submit { l with nextTicket := l.nextTicket + (handler.bind Handler.ticket?).toList.length }
      token handler admission
  | .record record => l.receive record
  | .timeout token => l.conclude token (.error .terminated)
  | .ended => l.failAll
  | .aside => l

namespace Session

/-- One step of a session. A command is sent with or without a callback, or with someone who waits
and has the next ticket. A record is taken in. Someone who still waits gives up. The session ends,
or something happens that leaves the ledger alone. -/
inductive Step : Session → Occurrence → Session → Prop
  | send (s : Session) {command : Command} (hauto : command.token = none) :
      Step s (.submission s.nextToken none (s.admission command)) (s.submit command none).2
  | sendWith (s : Session) {command : Command} (hauto : command.token = none) :
      Step s (.submission s.nextToken (some .callback) (s.admission command))
        (s.submit command (some .callback)).2
  | execute (s : Session) {command : Command} (hauto : command.token = none) :
      Step s (.submission s.nextToken (some (.waiter s.nextTicket)) (s.admission command))
        (s.newTicket.2.submit command (some (.waiter s.newTicket.1))).2
  | receive (s : Session) (record : Record) : Step s (.record record) (s.receive record)
  | giveUp (s : Session) {token : Token} {ticket : Nat}
      (hwaits : s.pending.get? token = some (.waiter ticket)) :
      Step s (.timeout token) (s.cancel token)
  | finish (s : Session) (exitCode : Option Int) (hlive : s.status.state ≠ .terminated) :
      Step s .ended (s.finish exitCode)
  | aside {s s' : Session} (hledger : s'.ledger = s.ledger) : Step s .aside s'

/-- A run of a session and its history. -/
inductive Run (start : Session) : List Occurrence → Session → Prop
  | nil : Run start [] start
  | snoc {history : List Occurrence} {s s' : Session} {occurrence : Occurrence} :
      Run start history s → Step s occurrence s' → Run start (history ++ [occurrence]) s'

variable {start s s' : Session} {history : List Occurrence} {occurrence : Occurrence}

theorem Run.single (h : Step s occurrence s') : Run s [occurrence] s' :=
  Run.nil.snoc h

/-! ### The ledger of a run -/

theorem ledger_finish (s : Session) (exitCode : Option Int) (hlive : s.status.state ≠ .terminated) :
    (s.finish exitCode).ledger = s.ledger.failAll := by
  have hterminate : s.terminate =
      (true, { s with status := { s.status with
        state := .terminated, running := false, execToken := none } }) := by
    unfold terminate Status.terminate
    rw [if_neg hlive]
  unfold finish
  rw [hterminate]
  dsimp only
  rw [ledger_emit, ledger_failAll]
  rfl

theorem Step.ledger (h : Step s occurrence s') : s'.ledger = s.ledger.after occurrence := by
  cases h with
  | send hauto => exact (submit_auto s hauto none).2
  | sendWith hauto => exact (submit_auto s hauto (some .callback)).2
  | execute hauto => exact (submit_auto s.newTicket.2 hauto (some (.waiter s.nextTicket))).2
  | receive record => exact ledger_receive s record
  | giveUp hwaits => exact ledger_cancel s _
  | finish exitCode hlive => exact ledger_finish s exitCode hlive
  | aside hledger => exact hledger

theorem Run.ledger (h : Run start history s) :
    s.ledger = history.foldl Ledger.after start.ledger := by
  induction h with
  | nil => rfl
  | snoc _ hstep ih => rw [hstep.ledger, ih, List.foldl_append, List.foldl_cons, List.foldl_nil]

/-! ### Tokens and tickets -/

/-- The number that an occurrence gives out, if any, is the one that the counter shows, and only
then the counter goes on. -/
def Counts {α : Type} (next : α → α) (counter : Session → α) (given : Occurrence → Option α) :
    Prop :=
  ∀ s occurrence s', Step s occurrence s' →
    (given occurrence = none ∧ counter s' = counter s) ∨
      (given occurrence = some (counter s) ∧ counter s' = next (counter s))

/-- A counter gives out its values one after the other. -/
theorem Run.numbered {α : Type} {next : α → α} {counter : Session → α}
    {given : Occurrence → Option α} (hcounts : Counts next counter given) (value : Nat → α)
    (hfirst : value 0 = counter start) (hnext : ∀ i, value (i + 1) = next (value i))
    (h : Run start history s) :
    history.filterMap given = (List.range (history.filterMap given).length).map value ∧
      counter s = value (history.filterMap given).length := by
  induction h with
  | nil => exact ⟨rfl, hfirst.symm⟩
  | @snoc history s s' occurrence _ hstep ih =>
    obtain ⟨hlist, hcounter⟩ := ih
    rcases hcounts s occurrence s' hstep with ⟨hnone, hsame⟩ | ⟨hsome, hmoved⟩
    · have hkeep : (history ++ [occurrence]).filterMap given = history.filterMap given := by
        simp [hnone]
      rw [hkeep, hsame]
      exact ⟨hlist, hcounter⟩
    · have hmore : (history ++ [occurrence]).filterMap given =
          history.filterMap given ++ [counter s] := by
        simp [hsome]
      rw [hmore, List.length_append, List.length_singleton, List.range_succ, List.map_append,
        ← hlist, List.map_singleton, ← hcounter, hmoved, hnext, ← hcounter]
      exact ⟨rfl, rfl⟩

theorem counts_nextToken : Counts (· + 1) nextToken Occurrence.token? := by
  intro s occurrence s' h
  have hnext : s'.nextToken = (s.ledger.after occurrence).nextToken :=
    congrArg Ledger.nextToken h.ledger
  rw [hnext]
  cases h with
  | send | sendWith | execute => exact .inr ⟨rfl, Ledger.submit_nextToken _ _ _ _⟩
  | receive record => exact .inl ⟨rfl, Ledger.receive_nextToken _ record⟩
  | giveUp | finish | aside => exact .inl ⟨rfl, rfl⟩

theorem counts_nextTicket : Counts (· + 1) nextTicket Occurrence.ticket? := by
  intro s occurrence s' h
  have hnext : s'.nextTicket = (s.ledger.after occurrence).nextTicket :=
    congrArg Ledger.nextTicket h.ledger
  rw [hnext]
  cases h with
  | send | sendWith => exact .inl ⟨rfl, Ledger.submit_nextTicket _ _ _ _⟩
  | execute => exact .inr ⟨rfl, Ledger.submit_nextTicket _ _ _ _⟩
  | receive record => exact .inl ⟨rfl, Ledger.receive_nextTicket _ record⟩
  | giveUp | finish | aside => exact .inl ⟨rfl, rfl⟩

/-- The tokens of a run follow one another from the next one on, modulo `2 ^ 64`. -/
theorem Run.allocated_eq (h : Run start history s) :
    allocated history = (List.range (allocated history).length).map
      fun i ↦ start.nextToken + UInt64.ofNat i := by
  refine (h.numbered counts_nextToken _ ?_ fun i ↦ ?_).1
  · simp
  · rw [UInt64.ofNat_add, ← UInt64.add_assoc]
    rfl

theorem Run.ticketed_nodup (h : Run start history s) : (ticketed history).Nodup := by
  have hlist := (h.numbered counts_nextTicket (start.nextTicket + ·) rfl fun i ↦ rfl).1
  unfold ticketed
  rw [hlist]
  exact List.Nodup.map (fun i j hij ↦ Nat.add_left_cancel hij) List.nodup_range

/-- As long as there are fewer than `2 ^ 64` of them, no two tokens are the same. -/
theorem Run.allocated_nodup (h : Run start history s)
    (hfew : (allocated history).length < UInt64.size) : (allocated history).Nodup := by
  rw [h.allocated_eq]
  refine List.Nodup.map_on (fun i hi j hj hij ↦ ?_) List.nodup_range
  rw [List.mem_range] at hi hj
  have heq := congrArg UInt64.toNat hij
  rw [UInt64.toNat_add, UInt64.toNat_add, UInt64.toNat_ofNat', UInt64.toNat_ofNat'] at heq
  rw [UInt64.size] at hfew
  omega

/-- As long as the counter does not run over, the tokens increase. -/
theorem Run.allocated_increasing (h : Run start history s)
    (hroom : start.nextToken.toNat + (allocated history).length ≤ UInt64.size) :
    (allocated history).Pairwise (· < ·) := by
  rw [h.allocated_eq, List.pairwise_map]
  refine List.Pairwise.imp_of_mem (fun {i j} hi hj hij ↦ ?_) List.pairwise_lt_range
  rw [List.mem_range] at hi hj
  rw [UInt64.lt_iff_toNat_lt, UInt64.toNat_add, UInt64.toNat_add, UInt64.toNat_ofNat',
    UInt64.toNat_ofNat']
  rw [UInt64.size] at hroom
  omega

end Session

end DebugLink
