import DebugLink.Proofs.Session.Fate
import Mathlib.Data.List.Induction

/-!
Which answer goes to whom. In a run in which no caller chooses a token and fewer than `2 ^ 64` are
given out, every command that was sent with a handler meets the fate that its token decides, and
nothing else: a callback is called at most once and only with the first response to its own command,
someone who waits is told how the command ended, once, and the pending table holds exactly the
handlers whose fate is open (`correlated`). The tokens follow one another modulo `2 ^ 64`, so they
increase only until the counter runs over (`not_allocated_increasing`).
-/

set_option autoImplicit false

namespace DebugLink

/-! ### Nothing comes from nowhere -/

/-- Everything in the ledger stems from the history: a handler from a command that was sent, a call
from one that was sent with a callback, and what a caller was told from a command for which it
waited. One whose line could not be queued is told only that the session has ended. -/
structure Accounted (history : List Occurrence) (l : Ledger) : Prop where
  distinct : l.pending.Distinct
  pending : ∀ token handler, l.pending.get? token = some handler →
    .submission token (some handler) .sent ∈ history
  calls : ∀ response ∈ l.calls, .submission response.token (some .callback) .sent ∈ history
  told : ∀ ticket result, (ticket, result) ∈ l.told → ∃ token admission,
    .submission token (some (.waiter ticket)) admission ∈ history ∧
      (admission = .sent ∨ admission = .unsent ∧ result = .error .terminated)

namespace Accounted

variable {history history' : List Occurrence} {l : Ledger} {token : Token} {handler : Handler}
  {result : Except SessionError Response}

/-- More may have happened than what the ledger stems from. -/
theorem mono (h : Accounted history l) (hsubset : history ⊆ history') : Accounted history' l where
  distinct := h.distinct
  pending := fun token handler hget ↦ hsubset (h.pending token handler hget)
  calls := fun response hresponse ↦ hsubset (h.calls response hresponse)
  told := by
    intro ticket result htold
    obtain ⟨token, admission, hmem, hkind⟩ := h.told ticket result htold
    exact ⟨token, admission, hsubset hmem, hkind⟩

/-- The numbers that come next play no part. -/
theorem renumber (h : Accounted history l) (nextToken : Token) (nextTicket : Nat) :
    Accounted history { l with nextToken, nextTicket } :=
  ⟨h.distinct, h.pending, h.calls, h.told⟩

/-- An answer that concerns a command of the history stems from it. -/
theorem conclude (h : Accounted history l) (hconcerns : Concerns token result) :
    Accounted history (l.conclude token result) where
  distinct := h.distinct.take token
  pending := by
    intro other handler hget
    exact h.pending other handler (PendingTable.get?_take_eq_some_iff.mp hget).2
  calls := by
    intro response hresponse
    rcases List.mem_append.mp hresponse with hold | hnew
    · exact h.calls response hold
    · obtain ⟨found, hfound, hmem⟩ := List.mem_flatMap.mp hnew
      rw [Handler.token_of_mem_responses hconcerns hmem]
      cases found with
      | callback => exact h.pending token .callback (Option.mem_toList.mp hfound)
      | waiter ticket => nomatch hmem
  told := by
    intro ticket result' htold
    rcases Ledger.mem_told_conclude.mp htold with hold | ⟨hwaits, -⟩
    · exact h.told ticket result' hold
    · exact ⟨token, .sent, h.pending token _ hwaits, .inl rfl⟩

/-- A handler of a command that was sent stems from the history. -/
theorem register (h : Accounted history l)
    (hmem : .submission token (some handler) .sent ∈ history) :
    Accounted history (l.register token handler) := by
  have hdropped := h.conclude (concerns_error token .terminated)
  refine ⟨h.distinct.register token handler, ?_, hdropped.calls, hdropped.told⟩
  intro other handler' hget
  rcases PendingTable.get?_register_eq_some_iff.mp hget with ⟨rfl, rfl⟩ | ⟨-, hold⟩
  · exact hmem
  · exact h.pending other handler' hold

/-- A handler that is dropped at once, because the line of its command could not be queued. -/
theorem register_conclude (h : Accounted history l)
    (hmem : .submission token (some handler) .unsent ∈ history) :
    Accounted history ((l.register token handler).conclude token (.error .terminated)) := by
  have hdropped := h.conclude (concerns_error token .terminated)
  have hget : (l.register token handler).pending.get? token = some handler :=
    (PendingTable.get?_register _ _ _ _).trans (if_pos rfl)
  refine ⟨(h.distinct.register token handler).take token, ?_, ?_, ?_⟩
  · intro other handler' hother
    obtain ⟨hne, hkept⟩ := PendingTable.get?_take_eq_some_iff.mp hother
    rcases PendingTable.get?_register_eq_some_iff.mp hkept with ⟨heq, -⟩ | ⟨-, hold⟩
    · exact absurd heq hne
    · exact h.pending other handler' hold
  · intro response hresponse
    rcases List.mem_append.mp hresponse with hold | hnew
    · exact hdropped.calls response hold
    · rw [hget] at hnew
      cases handler <;> nomatch hnew
  · intro ticket result htold
    rcases Ledger.mem_told_conclude.mp htold with hold | ⟨hwaits, rfl⟩
    · exact hdropped.told ticket result hold
    · obtain rfl := Option.some.inj (hget.symm.trans hwaits)
      exact ⟨token, .unsent, hmem, .inr ⟨rfl, rfl⟩⟩

/-- When all commands have failed, what those who wait are told stems from the history. -/
theorem failAll (h : Accounted history l) : Accounted history l.failAll where
  distinct := PendingTable.distinct_empty
  pending := fun _ _ hget ↦ nomatch hget
  calls := h.calls
  told := by
    intro ticket result htold
    rcases List.mem_append.mp htold with hold | hnew
    · exact h.told ticket result hold
    · obtain ⟨ticket', hticket, heq⟩ := List.mem_map.mp hnew
      obtain ⟨rfl, -⟩ := Prod.mk.inj heq
      obtain ⟨token, hget⟩ := PendingTable.exists_of_mem_failAll h.distinct hticket
      exact ⟨token, .sent, h.pending token _ hget, .inl rfl⟩

/-- A submission of the history is accounted for. -/
theorem submit (h : Accounted history l) {handler : Option Handler} {admission : Admission}
    (hmem : .submission token handler admission ∈ history) :
    Accounted history (l.submit token handler admission) := by
  have hnext := h.renumber (l.nextToken + 1) l.nextTicket
  cases admission with
  | refused => exact hnext
  | sent =>
    cases handler with
    | none => exact hnext
    | some handler => exact hnext.register hmem
  | unsent =>
    cases handler with
    | none => exact hnext.conclude (concerns_error _ _)
    | some handler => exact hnext.register_conclude hmem

/-- What happens next is accounted for by itself. -/
theorem after (h : Accounted history l) (occurrence : Occurrence) :
    Accounted (history ++ [occurrence]) (l.after occurrence) := by
  have hmore := h.mono (List.subset_append_left history [occurrence])
  have hlast : occurrence ∈ history ++ [occurrence] :=
    List.mem_append_right history List.mem_cons_self
  cases occurrence with
  | submission token handler admission => exact (hmore.renumber l.nextToken _).submit hlast
  | record answer =>
    unfold Ledger.after Ledger.receive
    dsimp only
    cases hconclusion : answer.conclusion? with
    | none => exact hmore
    | some conclusion => exact hmore.conclude (Record.concerns_conclusion? hconclusion)
  | timeout token => exact hmore.conclude (concerns_error _ _)
  | ended => exact hmore.failAll
  | aside => exact hmore

/-- Whatever happens from the start is accounted for. -/
theorem foldl (h : Accounted [] l) (history : List Occurrence) :
    Accounted history (history.foldl Ledger.after l) := by
  induction history using List.reverseRecOn with
  | nil => exact h
  | append_singleton history occurrence ih =>
    rw [List.foldl_append]
    exact ih.after occurrence

end Accounted

/-! ### The fate of every command -/

/-- What becomes of a command whose submission gets so far. One whose line cannot be queued ends at
once, and one that is refused never concerns its handler. -/
def Admission.fate? (token : Token) (later : List Occurrence) : Admission → Option Fate
  | .sent => DebugLink.fate? token later
  | .unsent => some .ended
  | .refused => none

/-- The tokens given out before, at and after a submission. -/
theorem allocated_split (earlier later : List Occurrence) (token : Token)
    (handler : Option Handler) (admission : Admission) :
    allocated (earlier ++ .submission token handler admission :: later) =
      allocated earlier ++ token :: allocated later :=
  List.filterMap_append

/-- The tickets used before, at and after a submission. -/
theorem ticketed_split (earlier later : List Occurrence) (token : Token) (ticket : Nat)
    (admission : Admission) :
    ticketed (earlier ++ .submission token (some (.waiter ticket)) admission :: later) =
      ticketed earlier ++ ticket :: ticketed later :=
  List.filterMap_append

/-- Under a token that was never given out nobody waits and nothing was called. -/
theorem Accounted.notMem_allocated {history : List Occurrence} {l : Ledger} {token : Token}
    (h : Accounted history l) (hfresh : token ∉ allocated history) :
    l.pending.get? token = none ∧ l.calls.filter (·.token = token) = [] := by
  constructor
  · rw [Option.eq_none_iff_forall_ne_some]
    intro handler hget
    exact hfresh (List.mem_filterMap.mpr ⟨_, h.pending token handler hget, rfl⟩)
  · rw [List.filter_eq_nil_iff]
    intro response hresponse htoken
    refine hfresh (List.mem_filterMap.mpr ⟨_, h.calls response hresponse, ?_⟩)
    exact congrArg some (of_decide_eq_true htoken)

/-- On a ticket that was never used nobody waits and nothing was told. -/
theorem Accounted.notMem_ticketed {history : List Occurrence} {l : Ledger} {ticket : Nat}
    (h : Accounted history l) (hfresh : ticket ∉ ticketed history) :
    (∀ other, l.pending.get? other ≠ some (.waiter ticket)) ∧
      l.told.filter (·.1 = ticket) = [] := by
  constructor
  · intro other hget
    exact hfresh (List.mem_filterMap.mpr ⟨_, h.pending other _ hget, rfl⟩)
  · rw [List.filter_eq_nil_iff]
    rintro ⟨other, result⟩ htold hticket
    obtain ⟨token, admission, hmem, -⟩ := h.told other result htold
    refine hfresh (List.mem_filterMap.mpr ⟨_, hmem, ?_⟩)
    exact congrArg some (of_decide_eq_true hticket)

/-- After any history that gives out no token and no ticket twice, the ledger holds of each handler
what its fate says. -/
theorem Accounted.follows {l : Ledger} (h : Accounted [] l) {earlier later : List Occurrence}
    {token : Token} {handler : Handler} {admission : Admission} (hadmitted : admission ≠ .refused)
    {history : List Occurrence}
    (hsplit : history = earlier ++ .submission token (some handler) admission :: later)
    (htokens : (allocated history).Nodup) (htickets : (ticketed history).Nodup) :
    Follows token handler (admission.fate? token later) (history.foldl Ledger.after l) := by
  subst hsplit
  rw [allocated_split, List.nodup_middle, List.nodup_cons, List.mem_append, not_or] at htokens
  obtain ⟨⟨htoken, htoken'⟩, -⟩ := htokens
  have hticket : ∀ ticket, handler = .waiter ticket →
      ticket ∉ ticketed earlier ∧ ticket ∉ ticketed later := by
    rintro ticket rfl
    rw [ticketed_split, List.nodup_middle, List.nodup_cons, List.mem_append, not_or] at htickets
    exact htickets.1
  have hnext : Accounted earlier { earlier.foldl Ledger.after l with
      nextToken := (earlier.foldl Ledger.after l).nextToken + 1
      nextTicket := (earlier.foldl Ledger.after l).nextTicket +
        (Handler.ticket? handler).toList.length } := (h.foldl earlier).renumber _ _
  obtain ⟨hfree, hcalls⟩ := hnext.notMem_allocated htoken
  have hregistered := Follows.register_self hnext.distinct hfree
    (fun other hwaits ↦ match handler, hwaits with
      | .waiter ticket, _ => (hnext.notMem_ticketed (hticket ticket rfl).1).1 other)
    (fun _ ↦ hcalls) (fun ticket hwaiter ↦ (hnext.notMem_ticketed (hticket ticket hwaiter).1).2)
  rw [List.foldl_append, List.foldl_cons]
  have hlater := fun ticket hwaiter ↦ (hticket ticket hwaiter).2
  cases admission with
  | sent => exact hregistered.foldl htoken' hlater
  | unsent => exact (hregistered.conclude_self .ended (concerns_error _ _)).foldl htoken' hlater
  | refused => exact absurd rfl hadmitted

/-! ### Correlation -/

/-- A callback is called with a response exactly if that is the answer. -/
theorem Fate.mem_calls {fate : Fate} {response : Response} :
    response ∈ fate.calls ↔ fate = .answered (.ok response) := by
  cases fate with
  | answered result =>
    cases result with
    | ok given => simp [calls, Fate.result, Handler.responses, Except.toOption, eq_comm]
    | error e => simp [calls, Fate.result, Handler.responses, Except.toOption]
  | expired | ended => simp [calls, Fate.result, Handler.responses, Except.toOption]

/-- Values that belong to one item each are different. -/
theorem nodup_map_of_filter {α β : Type} [DecidableEq β] {f : α → β} {l : List α}
    (h : ∀ a ∈ l, (l.filter (f · = f a)).length = 1) : (l.map f).Nodup := by
  rw [List.nodup_iff_count_le_one]
  intro b
  by_cases hb : b ∈ l.map f
  · obtain ⟨a, ha, rfl⟩ := List.mem_map.mp hb
    have hcount : (l.map f).count (f a) = (l.filter (f · = f a)).length := by
      rw [List.count, List.countP_map, List.countP_eq_length_filter]
      rfl
    exact Nat.le_of_eq (hcount.trans (h a ha))
  · rw [List.count_eq_zero_of_not_mem hb]
    exact Nat.zero_le 1

namespace Session

variable {options : SessionOptions} {history earlier later : List Occurrence} {s : Session}
  {token : Token} {handler : Handler} {ticket : Nat} {admission : Admission} {response : Response}
  {result : Except SessionError Response}

/-- A new session has nothing to account for. -/
theorem accounted_start (options : SessionOptions) : Accounted [] (start options).ledger :=
  ⟨PendingTable.distinct_empty, nofun, nofun, nofun⟩

/-- The ledger of a run stems from its history. By induction on the run. -/
theorem Run.accounted (h : Run (start options) history s) : Accounted history s.ledger := by
  rw [h.ledger]
  exact (accounted_start options).foldl history

/-- What was told and called for a submission that was not refused is what its fate says. -/
theorem Run.follows (h : Run (start options) history s)
    (hfew : (allocated history).length < UInt64.size)
    (hadmitted : admission ≠ .refused)
    (hsplit : history = earlier ++ .submission token (some handler) admission :: later) :
    Follows token handler (admission.fate? token later) s.ledger := by
  rw [h.ledger]
  exact (accounted_start options).follows hadmitted hsplit (h.allocated_nodup hfew) h.ticketed_nodup

/-- What was told and called for a command that was sent is what its fate says. -/
theorem Run.follows_sent (h : Run (start options) history s)
    (hfew : (allocated history).length < UInt64.size)
    (hsplit : history = earlier ++ .submission token (some handler) .sent :: later) :
    Follows token handler (fate? token later) s.ledger := by
  have hsent : Admission.sent ≠ .refused := nofun
  exact h.follows hfew hsent hsplit

/-- The table holds the handlers of the commands that were sent and whose fate is open. -/
theorem Run.get?_pending_eq_some_iff (h : Run (start options) history s)
    (hfew : (allocated history).length < UInt64.size) :
    s.pending.get? token = some handler ↔ ∃ earlier later,
      history = earlier ++ .submission token (some handler) .sent :: later ∧
        fate? token later = none := by
  constructor
  · intro hget
    obtain ⟨earlier, later, hsplit⟩ := List.append_of_mem (h.accounted.pending token handler hget)
    refine ⟨earlier, later, hsplit, ?_⟩
    have hheld : s.pending.get? token = if (fate? token later).isSome then none else some handler :=
      (h.follows_sent hfew hsplit).held
    rw [hget] at hheld
    by_contra hdecided
    rw [if_pos (Option.isSome_iff_ne_none.mpr hdecided)] at hheld
    nomatch hheld
  · rintro ⟨earlier, later, hsplit, hopen⟩
    have hheld : s.pending.get? token = if (fate? token later).isSome then none else some handler :=
      (h.follows_sent hfew hsplit).held
    rw [hheld, hopen]
    rfl

/-- A callback was called with the response to its command if there was one, and otherwise never. -/
theorem Run.filter_calls (h : Run (start options) history s)
    (hfew : (allocated history).length < UInt64.size)
    (hsplit : history = earlier ++ .submission token (some .callback) .sent :: later) :
    s.calls.filter (·.token = token) = (fate? token later).toList.flatMap Fate.calls :=
  (h.follows_sent hfew hsplit).called rfl

/-- A callback is called with the response that decides the fate of its command. -/
theorem Run.mem_calls_iff (h : Run (start options) history s)
    (hfew : (allocated history).length < UInt64.size) :
    response ∈ s.calls ↔ ∃ earlier later,
      history = earlier ++ .submission response.token (some .callback) .sent :: later ∧
        fate? response.token later = some (.answered (.ok response)) := by
  constructor
  · intro hresponse
    obtain ⟨earlier, later, hsplit⟩ := List.append_of_mem (h.accounted.calls response hresponse)
    refine ⟨earlier, later, hsplit, ?_⟩
    have hmem : response ∈ s.calls.filter (·.token = response.token) :=
      List.mem_filter.mpr ⟨hresponse, decide_eq_true rfl⟩
    rw [h.filter_calls hfew hsplit] at hmem
    obtain ⟨fate, hfate, hcall⟩ := List.mem_flatMap.mp hmem
    rw [Option.mem_toList.mp hfate, Fate.mem_calls.mp hcall]
  · rintro ⟨earlier, later, hsplit, hfate⟩
    have hmem : response ∈ s.calls.filter (·.token = response.token) := by
      rw [h.filter_calls hfew hsplit, hfate]
      exact List.mem_flatMap.mpr ⟨_, List.mem_singleton_self _, Fate.mem_calls.mpr rfl⟩
    exact (List.mem_filter.mp hmem).1

/-- No callback was called twice. -/
theorem Run.nodup_calls (h : Run (start options) history s)
    (hfew : (allocated history).length < UInt64.size) : (s.calls.map Response.token).Nodup := by
  refine nodup_map_of_filter fun response hresponse ↦ ?_
  obtain ⟨earlier, later, hsplit, hfate⟩ := (h.mem_calls_iff hfew).mp hresponse
  rw [h.filter_calls hfew hsplit, hfate]
  rfl

/-- A caller who waits was told the result of its command once it had one, and nothing else. -/
theorem Run.filter_answers (h : Run (start options) history s)
    (hfew : (allocated history).length < UInt64.size) (hadmitted : admission ≠ .refused)
    (hsplit : history = earlier ++ .submission token (some (.waiter ticket)) admission :: later) :
    s.answers.filter (·.1 = ticket) =
      (admission.fate? token later).toList.map fun fate ↦ (ticket, fate.result) :=
  (h.follows hfew hadmitted hsplit).told ticket rfl

/-- Someone who waits is told what the fate of the command says. -/
theorem Run.mem_answers_iff (h : Run (start options) history s)
    (hfew : (allocated history).length < UInt64.size) :
    (ticket, result) ∈ s.answers ↔ ∃ earlier token admission later fate,
      history = earlier ++ .submission token (some (.waiter ticket)) admission :: later ∧
        admission.fate? token later = some fate ∧ fate.result = result := by
  constructor
  · intro htold
    obtain ⟨token, admission, hmem, hkind⟩ := h.accounted.told ticket result htold
    obtain ⟨earlier, later, hsplit⟩ := List.append_of_mem hmem
    have hadmitted : admission ≠ .refused := by
      rintro rfl
      rcases hkind with hsent | ⟨hunsent, -⟩
      · nomatch hsent
      · nomatch hunsent
    have hfilter : (ticket, result) ∈ s.answers.filter (·.1 = ticket) :=
      List.mem_filter.mpr ⟨htold, decide_eq_true rfl⟩
    rw [h.filter_answers hfew hadmitted hsplit] at hfilter
    obtain ⟨fate, hfate, heq⟩ := List.mem_map.mp hfilter
    exact ⟨earlier, token, admission, later, fate, hsplit, Option.mem_toList.mp hfate,
      (Prod.mk.inj heq).2⟩
  · rintro ⟨earlier, token, admission, later, fate, hsplit, hfate, rfl⟩
    have hadmitted : admission ≠ .refused := by
      rintro rfl
      nomatch hfate
    have hmem : (ticket, fate.result) ∈ s.answers.filter (·.1 = ticket) := by
      rw [h.filter_answers hfew hadmitted hsplit, hfate]
      exact List.mem_singleton_self _
    exact (List.mem_filter.mp hmem).1

/-- Nobody was told twice. -/
theorem Run.nodup_answers (h : Run (start options) history s)
    (hfew : (allocated history).length < UInt64.size) : (s.answers.map Prod.fst).Nodup := by
  refine nodup_map_of_filter fun ⟨ticket, result⟩ htold ↦ ?_
  obtain ⟨earlier, token, admission, later, fate, hsplit, hfate, -⟩ :=
    (h.mem_answers_iff hfew).mp htold
  have hadmitted : admission ≠ .refused := by
    rintro rfl
    nomatch hfate
  rw [h.filter_answers hfew hadmitted hsplit, hfate]
  rfl

end Session

/-- A session and its history agree on who was given what. -/
structure Correlated (options : SessionOptions) (history : List Occurrence) (s : Session) :
    Prop where
  /-- The tokens follow one another from the first one on, modulo `2 ^ 64`. -/
  tokens : allocated history = (List.range (allocated history).length).map
    fun i ↦ options.firstToken + UInt64.ofNat i
  tokens_distinct : (allocated history).Nodup
  /-- They increase as long as the counter does not run over. -/
  tokens_increasing : options.firstToken.toNat + (allocated history).length ≤ UInt64.size →
    (allocated history).Pairwise (· < ·)
  tickets_distinct : (ticketed history).Nodup
  /-- The table holds the handlers of the commands that were sent and whose fate is open. -/
  pending : ∀ token handler, s.pending.get? token = some handler ↔ ∃ earlier later,
    history = earlier ++ .submission token (some handler) .sent :: later ∧
      fate? token later = none
  pending_distinct : s.pending.Distinct
  /-- A callback is called with the response that decides the fate of its command, -/
  called : ∀ response, response ∈ s.calls ↔ ∃ earlier later,
    history = earlier ++ .submission response.token (some .callback) .sent :: later ∧
      fate? response.token later = some (.answered (.ok response))
  /-- and only once. -/
  called_once : (s.calls.map Response.token).Nodup
  /-- Someone who waits is told what its fate says, -/
  told : ∀ ticket result, (ticket, result) ∈ s.answers ↔ ∃ earlier token admission later fate,
    history = earlier ++ .submission token (some (.waiter ticket)) admission :: later ∧
      admission.fate? token later = some fate ∧ fate.result = result
  /-- and only once. -/
  told_once : (s.answers.map Prod.fst).Nodup

namespace Session

/-- In every run in which the session chooses the tokens and gives out fewer than `2 ^ 64` of them,
whatever is answered, when and how often, each handler gets what is its own. -/
theorem correlated {options : SessionOptions} {history : List Occurrence} {s : Session}
    (h : Run (start options) history s) (hfew : (allocated history).length < UInt64.size) :
    Correlated options history s where
  tokens := h.allocated_eq
  tokens_distinct := h.allocated_nodup hfew
  tokens_increasing := h.allocated_increasing
  tickets_distinct := h.ticketed_nodup
  pending := fun _ _ ↦ h.get?_pending_eq_some_iff hfew
  pending_distinct := h.accounted.distinct
  called := fun _ ↦ h.mem_calls_iff hfew
  called_once := h.nodup_calls hfew
  told := fun _ _ ↦ h.mem_answers_iff hfew
  told_once := h.nodup_answers hfew

/-- Two callers wait, with a callback between them. The callback is answered first and the first
caller by an error; the other caller gives up, and an answer that comes later reaches nobody. -/
theorem correlated_out_of_order : ∃ history s,
    Run (start SessionOptions.standard) history s ∧ (allocated history).length < UInt64.size ∧
      Correlated SessionOptions.standard history s ∧ s.pending = PendingTable.empty ∧
      s.calls = [⟨1000002, "done", NamedTable.empty⟩] ∧
      s.answers = [(0, .error (.command 1000001 "unknown error")), (1, .error .terminated)] := by
  have hauto : (Command.raw "next").token = none := rfl
  have hgiveUp : ∀ s : Session, s.pending.get? 1000003 = some (.waiter 1) →
      Step s (.timeout 1000003) (s.cancel 1000003) := fun s ↦ Step.giveUp s
  have hsubmitted := ((Run.single (Step.execute (start SessionOptions.standard) hauto)).snoc
    (Step.sendWith _ hauto)).snoc (Step.execute _ hauto)
  have hanswered := (hsubmitted.snoc
    (Step.receive _ (.result (some 1000002) "done" NamedTable.empty))).snoc
      (Step.receive _ (.result (some 1000001) "error" NamedTable.empty))
  have hrun := (hanswered.snoc (hgiveUp _ rfl)).snoc
    (Step.receive _ (.result (some 1000003) "done" NamedTable.empty))
  have hfew : 3 < UInt64.size := by decide
  exact ⟨_, _, hrun, hfew, correlated hrun hfew, rfl, rfl, rfl⟩

/-- Tokens do not always increase: after the greatest one comes zero. -/
theorem not_allocated_increasing :
    ¬ ∀ (options : SessionOptions) (history : List Occurrence) (s : Session),
      Run (start options) history s → (allocated history).length < UInt64.size →
        (allocated history).Pairwise (· < ·) := by
  intro h
  have hauto : (Command.plain "-break-list" [] []).token = none := rfl
  obtain ⟨history, s, hrun, hlength⟩ : ∃ history s,
      Run (start ⟨5000, 18446744073709551615, true, 1000⟩) history s ∧
        (allocated history).length = 2 :=
    ⟨_, _, (Run.single (Step.send _ hauto)).snoc (Step.send _ hauto), rfl⟩
  have hincreasing := h _ history s hrun (by rw [hlength]; decide)
  rw [hrun.allocated_eq, hlength] at hincreasing
  exact absurd hincreasing (by decide)

end Session

end DebugLink
