import DebugLink.Proofs.Session.Threads

/-!
Submissions while the session ends, in any order of their steps. Whoever waits is told once, unless
his submission was caught: admitted before the end, and not yet registered when those who wait were
told. Then his handler is registered after that, and stays (`settled_unless_caught`).
-/

set_option autoImplicit false

namespace DebugLink

/-! ### Races -/

/-- A caller who submits a command. -/
structure Caller where
  command : Command
  interest : Interest
  stage : Stage
  deriving DecidableEq

/-- Callers who submit commands while the session ends. The ticket of a caller is the place where he
stands. -/
structure Race where
  session : Session
  callers : List Caller
  ending : Ending
  exitCode : Option Int
  /-- The records that were taken in, the first one first. -/
  heard : List Record

/-- What happens next. -/
inductive Move
  /-- A step of a submission. -/
  | caller (ticket : Nat)
  /-- A step of the end. -/
  | ending
  | record (record : Record)
  /-- From now on no line can be queued. -/
  | close

/-- Whether a move is a step of a submission or of the end. -/
def Move.IsStep : Move → Prop
  | caller _ | ending => True
  | record _ | close => False

namespace Race

/-- A new session with callers who have just called. -/
def start (options : SessionOptions) (calls : List (Command × Interest)) (exitCode : Option Int) :
    Race where
  session := Session.start options
  callers := calls.map fun call ↦ ⟨call.1, call.2, .called⟩
  ending := .called
  exitCode
  heard := []

/-- A step of the caller with a ticket, if there is one. -/
def advance (race : Race) (ticket : Nat) : Race :=
  match race.callers[ticket]? with
  | none => race
  | some caller =>
    let (stage, session) :=
      caller.stage.next caller.command (caller.interest.handler ticket) race.session
    { race with session, callers := race.callers.set ticket { caller with stage } }

def move (race : Race) : Move → Race
  | .caller ticket => race.advance ticket
  | .ending =>
    let (ending, session) := race.ending.next race.exitCode race.session
    { race with session, ending }
  | .record record =>
    { race with session := race.session.receive record, heard := race.heard ++ [record] }
  | .close => { race with session := { race.session with writable := false } }

/-- The race after moves one after another. -/
def after (race : Race) (moves : List Move) : Race :=
  moves.foldl move race

/-- The race that begins with some calls, after moves one after another. -/
def run (options : SessionOptions) (calls : List (Command × Interest)) (exitCode : Option Int)
    (moves : List Move) : Race :=
  (start options calls exitCode).after moves

/-- Whether all submissions and the end have come to their ends. -/
def Completed (race : Race) : Prop :=
  race.ending = .finished ∧ ∀ caller ∈ race.callers, caller.stage.result?.isSome

/-- Whether a caller has been admitted under a token and not yet registered his handler. -/
def Caught (race : Race) (ticket : Nat) (token : Token) (handler : Handler) : Prop :=
  ∃ caller, race.callers[ticket]? = some caller ∧ caller.stage = .admitted token ∧
    caller.interest.handler ticket = some handler

/-- Whether nobody is left who could wait: no handler is registered, and each caller who waited was
told once how his command ended, or that the session has ended. -/
def Settled (race : Race) : Prop :=
  race.session.pending = PendingTable.empty ∧
    ∀ ticket caller token, race.callers[ticket]? = some caller → caller.interest = .answer →
      caller.stage.registered? = some token →
        ∃ result, race.session.answers.filter (·.1 = ticket) = [(ticket, result)] ∧
          Resolves race.heard token result

/-! ### Any number of steps -/

variable {race : Race} {moves : List Move} {exitCode : Option Int} {token : Token} {ticket : Nat}

theorem after_append_singleton (race : Race) (moves : List Move) (next : Move) :
    race.after (moves ++ [next]) = (race.after moves).move next := by
  rw [after, List.foldl_append]
  rfl

theorem after_append (race : Race) (moves later : List Move) :
    race.after (moves ++ later) = (race.after moves).after later :=
  List.foldl_append

/-- The caller with a ticket after he has gone a step. -/
def stepped (race : Race) (ticket : Nat) (caller : Caller) : Caller :=
  { caller with stage :=
    (caller.stage.next caller.command (caller.interest.handler ticket) race.session).1 }

/-- Either there is no such caller, or he alone has gone a step. -/
theorem advance_cases (race : Race) (ticket : Nat) :
    race.advance ticket = race ∨ ∃ caller, race.callers[ticket]? = some caller ∧
      race.advance ticket = { race with
        session :=
          (caller.stage.next caller.command (caller.interest.handler ticket) race.session).2
        callers := race.callers.set ticket (race.stepped ticket caller) } := by
  unfold advance
  split
  · exact .inl rfl
  · exact .inr ⟨_, ‹_›, rfl⟩

theorem getElem?_set_eq_some {found changed : Caller} {callers : List Caller} {other : Nat}
    (h : (callers.set ticket changed)[other]? = some found) :
    other = ticket ∧ found = changed ∨ other ≠ ticket ∧ callers[other]? = some found := by
  rw [List.getElem?_set] at h
  split_ifs at h with hticket
  · exact .inl ⟨hticket.symm, (Option.some.inj h).symm⟩
  · exact .inr ⟨fun heq ↦ hticket heq.symm, h⟩

/-- The status is final as soon as the end has begun, only a session that cannot send has
submissions that were not sent, and each caller who waits is told once at most. -/
structure Coherent (race : Race) : Prop where
  ended : race.session.status.state = .terminated ↔ race.ending ≠ .called
  closed : ∀ (ticket : Nat) (caller : Caller) (token : Token),
    race.callers[ticket]? = some caller → caller.stage = .unsent token →
      race.session.writable = false
  awaited : ∀ (ticket : Nat) (caller : Caller),
    race.callers[ticket]? = some caller → caller.interest = .answer →
      Awaited race.heard ticket caller.stage.registered? race.session.ledger

/-- Before the first move nobody has come further than his call. -/
theorem coherent_start (options : SessionOptions) (calls : List (Command × Interest))
    (exitCode : Option Int) : (start options calls exitCode).Coherent := by
  have hcalled : ∀ (ticket : Nat) (caller : Caller),
      (start options calls exitCode).callers[ticket]? = some caller → caller.stage = .called := by
    intro ticket caller hget
    obtain ⟨call, -, rfl⟩ := List.mem_map.mp (List.mem_of_getElem? hget)
    rfl
  refine ⟨iff_of_false nofun fun hne ↦ hne rfl, fun ticket caller token hget hstage ↦ ?_,
    fun ticket caller hget _ ↦ ?_⟩
  · nomatch (hcalled ticket caller hget).symm.trans hstage
  · rw [hcalled ticket caller hget]
    exact .outstanding ⟨PendingTable.distinct_empty, fun _ ↦ iff_of_false nofun nofun, rfl⟩

theorem Coherent.advance (h : race.Coherent) (ticket : Nat) : (race.advance ticket).Coherent := by
  rcases advance_cases race ticket with heq | ⟨caller, hcaller, heq⟩
  · rwa [heq]
  · rw [heq]
    refine ⟨(Stage.terminated_next_iff _).trans h.ended, fun other found token hget hstage ↦ ?_,
      fun other found hget hwaits ↦ ?_⟩
    · rw [Stage.writable_next]
      rcases getElem?_set_eq_some hget with ⟨rfl, rfl⟩ | ⟨-, hget⟩
      · exact Stage.next_eq_unsent hstage
      · exact h.closed other found token hget hstage
    · rcases getElem?_set_eq_some hget with ⟨rfl, rfl⟩ | ⟨hother, hget⟩
      · have hhandler : caller.interest.handler other = some (.waiter other) := by
          rw [show caller.interest = .answer from hwaits]
          rfl
        unfold stepped
        rw [hhandler]
        exact (h.awaited other caller hcaller hwaits).next_self
      · exact (h.awaited other found hget hwaits).next_other
          (caller.interest.handler_ne hother.symm) caller.stage

theorem Coherent.move (h : race.Coherent) (move : Move) : (race.move move).Coherent := by
  cases move with
  | caller ticket => exact h.advance ticket
  | ending =>
    refine ⟨?_, fun ticket caller token hget hstage ↦ ?_, fun ticket caller hget hwaits ↦ ?_⟩
    · refine iff_of_true ?_ (Ending.next_ne_called _)
      by_cases hlive : race.session.status.state = .terminated
      · exact Ending.terminated_next _ hlive
      · have hcalled : race.ending = .called := not_not.mp fun hne ↦ hlive (h.ended.mpr hne)
        show (race.ending.next race.exitCode race.session).2.status.state = .terminated
        rw [hcalled]
        exact (Ending.next_of_live hlive).2
    · exact (Ending.writable_next _).trans (h.closed ticket caller token hget hstage)
    · exact (h.awaited ticket caller hget hwaits).next_ending race.ending
  | record record =>
    refine ⟨(Session.terminated_receive_iff _ record).trans h.ended,
      fun ticket caller token hget hstage ↦ ?_, fun ticket caller hget hwaits ↦ ?_⟩
    · exact (Session.takes_receive race.session record).writable_eq.trans
        (h.closed ticket caller token hget hstage)
    · show Awaited _ _ _ (race.session.receive record).ledger
      rw [Session.ledger_receive]
      exact (h.awaited ticket caller hget hwaits).receive record
  | close => exact ⟨h.ended, fun _ _ _ _ _ ↦ rfl, h.awaited⟩

theorem Coherent.after (h : race.Coherent) (moves : List Move) : (race.after moves).Coherent :=
  List.foldlRecOn moves Race.move h fun _ hbefore move _ ↦ hbefore.move move

/-! ### Those who were caught -/

/-- The end goes on by its own steps only. -/
theorem ending_move_of_ne {next : Move} (hnext : next ≠ .ending) :
    (race.move next).ending = race.ending := by
  cases next with
  | caller ticket =>
    show (race.advance ticket).ending = race.ending
    rcases advance_cases race ticket with heq | ⟨caller, -, heq⟩ <;> rw [heq]
  | ending => exact absurd rfl hnext
  | record | close => rfl

/-- If those who wait were told, there was a move that told them. -/
theorem exists_telling (h : race.Coherent) (hcalled : race.ending = .called)
    (htold : (race.after moves).ending = .told ∨ (race.after moves).ending = .finished) :
    ∃ before later, moves = before ++ .ending :: later ∧
      (race.after before).ending = .announced := by
  induction moves using List.reverseRecOn with
  | nil =>
    have hnow : race.ending = .told ∨ race.ending = .finished := htold
    rw [hcalled] at hnow
    rcases hnow with hnow | hnow <;> nomatch hnow
  | append_singleton moves next ih =>
    by_cases hbefore : (race.after moves).ending = .told ∨ (race.after moves).ending = .finished
    · obtain ⟨before, later, rfl, hannounced⟩ := ih hbefore
      exact ⟨before, later ++ [next], by simp, hannounced⟩
    · rw [after_append_singleton] at htold
      by_cases hnext : next = .ending
      · subst hnext
        refine ⟨moves, [], rfl, ?_⟩
        cases hending : (race.after moves).ending with
        | called =>
          -- The first step of the end does not tell anybody.
          have hlive : (race.after moves).session.status.state ≠ .terminated :=
            fun hended ↦ (h.after moves).ended.mp hended hending
          have hfirst : ((race.after moves).move .ending).ending = .announced := by
            show ((race.after moves).ending.next _ _).1 = _
            rw [hending]
            exact (Ending.next_of_live hlive).1
          rw [hfirst] at htold
          rcases htold with htold | htold <;> nomatch htold
        | announced => rfl
        | told => exact absurd (.inl hending) hbefore
        | finished => exact absurd (.inr hending) hbefore
      · rw [ending_move_of_ne hnext] at htold
        exact absurd htold hbefore

/-- After those who wait were told, handlers are left only of callers who were caught, and nobody
else can be admitted any more. -/
structure Remains (caught : Nat → Token → Handler → Prop) (race : Race) : Prop where
  ended : race.session.status.state = .terminated
  still_caught : ∀ ticket token handler, race.Caught ticket token handler →
    caught ticket token handler
  pending : ∀ token handler, race.session.pending.get? token = some handler →
    ∃ ticket, caught ticket token handler

variable {caught : Nat → Token → Handler → Prop}

theorem Remains.advance (h : race.Remains caught) (ticket : Nat) :
    (race.advance ticket).Remains caught := by
  rcases advance_cases race ticket with heq | ⟨caller, hcaller, heq⟩
  · rwa [heq]
  · rw [heq]
    refine ⟨(Stage.terminated_next_iff _).mpr h.ended, ?_, fun token handler hget ↦ ?_⟩
    · rintro other token handler ⟨found, hget, hstage, hhandler⟩
      rcases getElem?_set_eq_some hget with ⟨rfl, rfl⟩ | ⟨-, hget⟩
      · exact absurd h.ended (Stage.next_eq_admitted hstage).2
      · exact h.still_caught other token handler ⟨found, hget, hstage, hhandler⟩
    · rcases Stage.get?_pending_next hget with hold | ⟨hstage, hhandler⟩
      · exact h.pending token handler hold
      · exact ⟨ticket, h.still_caught ticket token handler ⟨caller, hcaller, hstage, hhandler⟩⟩

theorem Remains.move (h : race.Remains caught) (move : Move) : (race.move move).Remains caught := by
  cases move with
  | caller ticket => exact h.advance ticket
  | ending =>
    exact ⟨Ending.terminated_next _ h.ended, h.still_caught,
      fun token handler hget ↦ h.pending token handler (Ending.get?_pending_next hget).2⟩
  | record record =>
    exact ⟨(Session.terminated_receive_iff _ record).mpr h.ended, h.still_caught,
      fun token handler hget ↦ h.pending token handler (Session.pending_receive hget)⟩
  | close => exact ⟨h.ended, h.still_caught, h.pending⟩

theorem Remains.after (h : race.Remains caught) (moves : List Move) :
    (race.after moves).Remains caught :=
  List.foldlRecOn moves Race.move h fun _ hbefore move _ ↦ hbefore.move move

/-- Someone was caught, and nothing but steps can happen any more: his handler will be registered,
or there is one under his token. -/
structure Stuck (token : Token) (race : Race) : Prop where
  told : race.ending = .told ∨ race.ending = .finished
  writable : race.session.writable = true
  coherent : race.Coherent
  held : (∃ ticket handler, race.Caught ticket token handler) ∨
    (race.session.pending.get? token).isSome

theorem Stuck.advance (h : race.Stuck token) (ticket : Nat) :
    (race.advance ticket).Stuck token := by
  have hcoherent := h.coherent.advance ticket
  rcases advance_cases race ticket with heq | ⟨caller, hcaller, heq⟩
  · rwa [heq]
  · rw [heq] at hcoherent ⊢
    have hsent : ∀ other, caller.stage ≠ .unsent other := fun other hstage ↦ by
      have hclosed := h.coherent.closed ticket caller other hcaller hstage
      rw [h.writable] at hclosed
      nomatch hclosed
    refine ⟨h.told, (Stage.writable_next _).trans h.writable, hcoherent, ?_⟩
    rcases h.held with ⟨other, handler, found, hfound, hstage, hhandler⟩ | hheld
    · by_cases hother : other = ticket
      · -- He registers his handler.
        subst hother
        obtain rfl := Option.some.inj (hcaller.symm.trans hfound)
        right
        rw [hstage, hhandler]
        exact Option.isSome_of_mem
          (Stage.get?_pending_admitted race.session caller.command token handler)
      · left
        refine ⟨other, handler, found, ?_, hstage, hhandler⟩
        exact (List.getElem?_set_ne fun heq ↦ hother heq.symm).trans hfound
    · exact .inr (Stage.isSome_pending_next hsent hheld)

theorem Stuck.move (h : race.Stuck token) {move : Move} (hstep : move.IsStep) :
    (race.move move).Stuck token := by
  cases move with
  | caller ticket => exact h.advance ticket
  | ending =>
    have hending : (race.move .ending).ending = .finished ∧
        (race.move .ending).session.pending = race.session.pending := by
      show (race.ending.next _ _).1 = .finished ∧ (race.ending.next _ _).2.pending = _
      rcases h.told with htold | htold
      · rw [htold]
        exact ⟨rfl, rfl⟩
      · rw [htold]
        exact ⟨rfl, rfl⟩
    refine ⟨.inr hending.1, (Ending.writable_next _).trans h.writable, h.coherent.move .ending, ?_⟩
    rw [hending.2]
    exact h.held
  | record | close => exact hstep.elim

theorem Stuck.after (h : race.Stuck token) (hsteps : ∀ move ∈ moves, move.IsStep) :
    (race.after moves).Stuck token :=
  List.foldlRecOn moves Race.move h fun _ hbefore move hmem ↦ hbefore.move (hsteps move hmem)

/-! ### The end of a race -/

/-- Nobody is caught whose submission has come to its end. -/
theorem not_caught_of_completed (h : race.Completed) {handler : Handler} :
    ¬race.Caught ticket token handler := by
  rintro ⟨caller, hget, hstage, -⟩
  have hresult := h.2 caller (List.mem_of_getElem? hget)
  rw [hstage] at hresult
  nomatch hresult

/-- A caller who was registered waits still under his token, and was told nothing, or was told once
how his command ended, or that the session has ended. -/
theorem Coherent.told (h : race.Coherent) {caller : Caller}
    (hget : race.callers[ticket]? = some caller) (hwaits : caller.interest = .answer)
    (hregistered : caller.stage.registered? = some token) :
    (race.session.pending.get? token = some (.waiter ticket) ∧
      race.session.answers.filter (·.1 = ticket) = []) ∨
    ∃ result, race.session.answers.filter (·.1 = ticket) = [(ticket, result)] ∧
      Resolves race.heard token result := by
  have hawaited := h.awaited ticket caller hget hwaits
  rw [hregistered] at hawaited
  cases hawaited with
  | outstanding h => exact .inl ⟨(h.held token).mpr rfl, h.told⟩
  | resolved hsame hresolves h =>
    obtain rfl := Option.some.inj hsame
    exact .inr ⟨_, h.told, hresolves⟩

/-- When those who wait have been told, nothing remains but what those who are caught then will
register. -/
theorem remains_of_announced (h : race.Coherent) (hannounced : race.ending = .announced) :
    (race.move .ending).Remains race.Caught where
  ended := Ending.terminated_next _ (h.ended.mpr (hannounced ▸ nofun))
  still_caught _ _ _ := id
  pending _ _ hget := absurd hannounced (Ending.get?_pending_next hget).1

/-- If nobody was caught, nobody is left. -/
theorem Remains.settled (h : race.Remains caught) (hcoherent : race.Coherent)
    (hnone : ∀ ticket token handler, ¬caught ticket token handler) : race.Settled := by
  have hfree : ∀ token, race.session.pending.get? token = none := by
    intro token
    rw [Option.eq_none_iff_forall_ne_some]
    intro handler hget
    obtain ⟨ticket, hcaught⟩ := h.pending token handler hget
    exact hnone ticket token handler hcaught
  refine ⟨PendingTable.eq_empty_iff.mpr hfree, fun _ _ token hget hwaits hregistered ↦ ?_⟩
  refine (hcoherent.told hget hwaits hregistered).resolve_left fun hheld ↦ ?_
  nomatch (hfree token).symm.trans hheld.1

/-- If those who wait are told while someone is caught, he is not among them. -/
theorem stuck_of_announced (h : race.Coherent) (hannounced : race.ending = .announced)
    (hopen : race.session.writable = true) {handler : Handler}
    (hcaught : race.Caught ticket token handler) : (race.move .ending).Stuck token where
  told := by
    left
    show (race.ending.next _ _).1 = .told
    rw [hannounced]
    rfl
  writable := (Ending.writable_next _).trans hopen
  coherent := h.move .ending
  held := .inl ⟨ticket, handler, hcaught⟩

theorem Stuck.not_settled (h : race.Stuck token) (hcompleted : race.Completed) :
    ¬race.Settled := by
  intro hsettled
  rcases h.held with ⟨ticket, handler, hcaught⟩ | hheld
  · exact not_caught_of_completed hcompleted hcaught
  · rw [hsettled.1] at hheld
    nomatch hheld

/-- In every order of the steps of the submissions and of the end, with any records in between,
there is a moment at which those who wait are told. Handlers are left in the end only of callers who
were caught at that moment, and everyone who was registered and waits is still there, or was told
once how his command ended or that the session has ended. So if nobody was caught, nobody is left.
If someone was caught, and afterwards no record comes and lines can be queued, someone is. -/
theorem settled_unless_caught {options : SessionOptions} {calls : List (Command × Interest)}
    (h : (run options calls exitCode moves).Completed) :
    ∃ before later, moves = before ++ .ending :: later ∧
      (run options calls exitCode before).ending = .announced ∧
      (∀ token handler,
        (run options calls exitCode moves).session.pending.get? token = some handler →
          ∃ ticket, (run options calls exitCode before).Caught ticket token handler) ∧
      (∀ (ticket : Nat) (caller : Caller) (token : Token),
        (run options calls exitCode moves).callers[ticket]? = some caller →
          caller.interest = .answer → caller.stage.registered? = some token →
            ((run options calls exitCode moves).session.pending.get? token =
                some (.waiter ticket) ∧
              (run options calls exitCode moves).session.answers.filter (·.1 = ticket) = []) ∨
            ∃ result, (run options calls exitCode moves).session.answers.filter (·.1 = ticket) =
                [(ticket, result)] ∧
              Resolves (run options calls exitCode moves).heard token result) ∧
      ((∀ ticket token handler, ¬(run options calls exitCode before).Caught ticket token handler) →
        (run options calls exitCode moves).Settled) ∧
      ((run options calls exitCode before).session.writable = true →
        (∀ move ∈ later, move.IsStep) →
          ∀ ticket token handler, (run options calls exitCode before).Caught ticket token handler →
            ¬(run options calls exitCode moves).Settled) := by
  have hcoherent := coherent_start options calls exitCode
  have hfinal : (run options calls exitCode moves).Coherent := hcoherent.after moves
  obtain ⟨before, later, hmoves, hannounced⟩ := exists_telling hcoherent rfl (.inr h.1)
  have hbefore : (run options calls exitCode before).Coherent := hcoherent.after before
  have hafter : run options calls exitCode moves =
      ((run options calls exitCode before).move .ending).after later := by
    rw [hmoves]
    exact after_append _ before _
  have hremains : (run options calls exitCode moves).Remains
      (run options calls exitCode before).Caught :=
    hafter ▸ (remains_of_announced hbefore hannounced).after later
  refine ⟨before, later, hmoves, hannounced, hremains.pending, fun _ _ _ ↦ hfinal.told,
    hremains.settled hfinal, fun hopen hsteps ticket token handler hcaught ↦ ?_⟩
  have hstuck := stuck_of_announced hbefore hannounced hopen hcaught
  rw [hafter] at h ⊢
  exact (hstuck.after hsteps).not_settled h

/-- One caller, who waits for an answer. -/
def oneCall : List (Command × Interest) :=
  [(.plain "-break-list" [] [], .answer)]

/-- He is admitted, the session ends, and then he registers his handler and queues his line. -/
def late : List Move :=
  [.caller 0, .caller 0, .ending, .ending, .caller 0, .caller 0, .ending]

theorem completed_late : (run .standard oneCall none late).Completed :=
  ⟨rfl, by decide⟩

/-- He is caught, is told nothing, and his handler stays. -/
theorem settled_unless_caught_of_late :
    (run .standard oneCall none late).Completed ∧
      (run .standard oneCall none late).session.pending.get? 1000001 = some (.waiter 0) ∧
      (run .standard oneCall none late).session.answers = [] ∧
      ∃ before later, late = before ++ .ending :: later ∧
        (run .standard oneCall none before).ending = .announced ∧
        ∃ ticket, (run .standard oneCall none before).Caught ticket 1000001 (.waiter 0) := by
  have hleft : (run .standard oneCall none late).session.pending.get? 1000001 =
      some (.waiter 0) := by decide
  obtain ⟨before, later, hmoves, hannounced, hcaught, -⟩ := settled_unless_caught completed_late
  exact ⟨completed_late, hleft, rfl, before, later, hmoves, hannounced, hcaught _ _ hleft⟩

/-- Not in every order everyone who waits is told. -/
theorem not_always_settled :
    ¬ ∀ (options : SessionOptions) (calls : List (Command × Interest)) (exitCode : Option Int)
      (moves : List Move), (run options calls exitCode moves).Completed →
        (run options calls exitCode moves).Settled := by
  intro h
  have hpending := (h .standard oneCall none late completed_late).1
  have hsize : (run .standard oneCall none late).session.pending.size = 1 := rfl
  rw [hpending] at hsize
  nomatch hsize

end Race

end DebugLink
