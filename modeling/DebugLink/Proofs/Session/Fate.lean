import DebugLink.Proofs.Session.Run

/-!
What becomes of a command that was sent with a handler. Its fate is the first thing after the
submission that concerns its token: a record that carries it, the timeout of whoever waits, or the
end of the session. `Follows` says what the ledger holds of the handler as long as the fate is open
and after it is decided, and `Follows.foldl` that this stays so along every history in which neither
the token nor the ticket is given out again.
-/

set_option autoImplicit false

namespace DebugLink

/-- What becomes of a command that was sent with a handler. -/
inductive Fate
  /-- A record ends it. -/
  | answered (result : Except SessionError Response)
  /-- Whoever waits gives up, and the handler is dropped. -/
  | expired
  /-- The session ends first. -/
  | ended

namespace Fate

/-- What the handler is told. One that is dropped cannot tell this from the end of the session; the
caller who has given up does not hear it any more. -/
def result : Fate → Except SessionError Response
  | answered result => result
  | expired | ended => .error .terminated

/-- What a callback is called with: the response of the record, and nothing for an error. -/
def calls (fate : Fate) : List Response :=
  Handler.callback.responses fate.result

end Fate

/-- What an occurrence decides about the command of a token. -/
def Occurrence.fate? (token : Token) : Occurrence → Option Fate
  | .record answer =>
    match answer.conclusion? with
    | some (other, result) => if other = token then some (.answered result) else none
    | none => none
  | .timeout other => if other = token then some .expired else none
  | .ended => some .ended
  | .submission .. | .aside => none

/-- What becomes of the command of a token in the history after its submission, if anything does. -/
def fate? (token : Token) (later : List Occurrence) : Option Fate :=
  later.findSome? (Occurrence.fate? token)

theorem Record.token_of_conclusion? {record : Record} {token : Token} {response : Response}
    (h : record.conclusion? = some (token, .ok response)) : response.token = token := by
  unfold conclusion? at h
  split at h
  · obtain ⟨rfl, hresponse⟩ := Prod.mk.inj (Option.some.inj h)
    exact congrArg Response.token (Except.ok.inj hresponse).symm
  · split_ifs at h
    · obtain ⟨-, hresponse⟩ := Prod.mk.inj (Option.some.inj h)
      nomatch hresponse
    · obtain ⟨rfl, hresponse⟩ := Prod.mk.inj (Option.some.inj h)
      exact congrArg Response.token (Except.ok.inj hresponse).symm
  · nomatch h

/-- A result that carries no other token than the given one. -/
def Concerns (token : Token) (result : Except SessionError Response) : Prop :=
  ∀ response, result = .ok response → response.token = token

theorem concerns_error (token : Token) (e : SessionError) : Concerns token (.error e) :=
  fun _ h ↦ nomatch h

theorem Record.concerns_conclusion? {record : Record} {token : Token}
    {result : Except SessionError Response} (h : record.conclusion? = some (token, result)) :
    Concerns token result :=
  fun _ hresult ↦ token_of_conclusion? (hresult ▸ h)

theorem Handler.token_of_mem_responses {handler : Handler} {token : Token}
    {result : Except SessionError Response} (hconcerns : Concerns token result)
    {response : Response} (h : response ∈ handler.responses result) : response.token = token := by
  cases handler with
  | callback =>
    cases result with
    | ok given =>
      rw [List.mem_singleton.mp h]
      exact hconcerns given rfl
    | error e => nomatch h
  | waiter ticket => nomatch h

/-- What the ledger holds of a handler that was registered under a token: the handler itself as long
as its fate is open, and what it was told afterwards. -/
structure Follows (token : Token) (handler : Handler) (fate : Option Fate) (l : Ledger) : Prop where
  distinct : l.pending.Distinct
  held : l.pending.get? token = if fate.isSome then none else some handler
  /-- No other token has the same ticket. -/
  sole : ∀ other, handler ≠ .callback → l.pending.get? other = some handler → other = token
  called : handler = .callback →
    l.calls.filter (·.token = token) = fate.toList.flatMap Fate.calls
  told : ∀ ticket, handler = .waiter ticket →
    l.told.filter (·.1 = ticket) = fate.toList.map fun fate ↦ (ticket, fate.result)

namespace Follows

variable {token other : Token} {handler : Handler} {fate : Option Fate} {l : Ledger}
  {result : Except SessionError Response}

/-- The counters do not matter. -/
theorem renumber (h : Follows token handler fate l) (nextToken : Token) (nextTicket : Nat) :
    Follows token handler fate { l with nextToken, nextTicket } :=
  ⟨h.distinct, h.held, h.sole, h.called, h.told⟩

/-- What ends another command. -/
theorem conclude_other (h : Follows token handler fate l) (hother : other ≠ token)
    (hconcerns : Concerns other result) : Follows token handler fate (l.conclude other result) where
  distinct := h.distinct.take other
  held := by
    have hget : (l.conclude other result).pending.get? token = l.pending.get? token :=
      (PendingTable.get?_take _ _ _).trans (if_neg hother.symm)
    rw [hget, h.held]
  sole := by
    intro third hwaits hthird
    exact h.sole third hwaits (PendingTable.get?_take_eq_some_iff.mp hthird).2
  called := by
    intro hcallback
    have hnone : ((l.pending.get? other).toList.flatMap (Handler.responses result)).filter
        (·.token = token) = [] := by
      rw [List.filter_eq_nil_iff]
      intro response hresponse
      obtain ⟨found, -, hmem⟩ := List.mem_flatMap.mp hresponse
      have htoken := Handler.token_of_mem_responses hconcerns hmem
      simpa [htoken] using hother
    exact (List.filter_append _ _).trans (by rw [hnone, List.append_nil, h.called hcallback])
  told := by
    rintro ticket rfl
    have hfree : l.pending.get? other ≠ some (.waiter ticket) := fun hget ↦
      hother (h.sole other nofun hget)
    have htold : (l.conclude other result).told.filter (·.1 = ticket) = _ := List.filter_append _ _
    rw [htold, Handler.filter_notices, if_neg hfree, List.append_nil, h.told ticket rfl]

/-- What decides the fate of the command. -/
theorem conclude_self (h : Follows token handler none l) (decided : Fate)
    (hconcerns : Concerns token decided.result) :
    Follows token handler (some decided) (l.conclude token decided.result) where
  distinct := h.distinct.take token
  held := (PendingTable.get?_take _ _ _).trans (if_pos rfl)
  sole := by
    intro third hwaits hthird
    exact h.sole third hwaits (PendingTable.get?_take_eq_some_iff.mp hthird).2
  called := by
    rintro rfl
    have hcalls : (l.conclude token decided.result).calls = l.calls ++ decided.calls := by
      unfold Ledger.conclude Ledger.settle
      rw [h.held]
      exact congrArg (l.calls ++ ·) (List.append_nil _)
    have hall : decided.calls.filter (·.token = token) = decided.calls := by
      rw [List.filter_eq_self]
      intro response hresponse
      simpa using Handler.token_of_mem_responses hconcerns hresponse
    rw [hcalls, List.filter_append, hall, h.called rfl]
    simp
  told := by
    rintro ticket rfl
    have htold : (l.conclude token decided.result).told = l.told ++ [(ticket, decided.result)] := by
      unfold Ledger.conclude Ledger.settle
      rw [h.held]
      exact congrArg (l.told ++ ·) (List.append_nil _)
    rw [htold, List.filter_append, h.told ticket rfl]
    simp

/-- Once the fate is decided, nothing under the token has an effect. -/
theorem conclude_decided {decided : Fate} (h : Follows token handler (some decided) l) :
    l.conclude token result = l := by
  have hnone : l.pending.get? token = none := h.held
  unfold Ledger.conclude
  rw [hnone, PendingTable.take_of_get?_eq_none hnone]
  exact l.settle_none result

theorem conclude (h : Follows token handler fate l) (decided : Fate)
    (hconcerns : Concerns token decided.result) :
    Follows token handler (fate.or (some decided)) (l.conclude token decided.result) := by
  cases fate with
  | none => exact h.conclude_self decided hconcerns
  | some earlier =>
    rw [h.conclude_decided]
    exact h

theorem failAll (h : Follows token handler fate l) :
    Follows token handler (fate.or (some .ended)) l.failAll where
  distinct := PendingTable.distinct_empty
  held := by
    cases fate <;> rfl
  sole := fun _ _ hget ↦ nomatch hget
  called := by
    intro hcallback
    have hcalls := h.called hcallback
    cases fate with
    | none => exact hcalls
    | some decided => exact hcalls
  told := by
    rintro ticket rfl
    have hsole : ∀ third, l.pending.get? third = some (.waiter ticket) → third = token :=
      fun third ↦ h.sole third nofun
    have hlast : (l.pending.failAll.1.map fun ticket ↦
          (ticket, (.error .terminated : Except SessionError Response))).filter (·.1 = ticket) =
        (l.pending.failAll.1.filter (· = ticket)).map fun ticket ↦ (ticket, .error .terminated) :=
      List.filter_map
    have htold : l.failAll.told.filter (·.1 = ticket) = _ := List.filter_append _ _
    rw [htold, hlast, PendingTable.filter_failAll h.distinct hsole, h.told ticket rfl, h.held]
    cases fate <;> simp [Fate.result]

/-- The handler of another command, with a ticket of its own. -/
theorem register_other (h : Follows token handler fate l) (hother : other ≠ token)
    {handler' : Handler} (hnew : handler ≠ .callback → handler' ≠ handler) :
    Follows token handler fate (l.register other handler') := by
  have hdropped := h.conclude_other hother (concerns_error other .terminated)
  refine ⟨h.distinct.register other handler', ?_, ?_, hdropped.called, hdropped.told⟩
  · have hget : (l.register other handler').pending.get? token = l.pending.get? token :=
      (PendingTable.get?_register _ _ _ _).trans (if_neg hother.symm)
    rw [hget, h.held]
  · intro third hwaits hthird
    rcases PendingTable.get?_register_eq_some_iff.mp hthird with ⟨-, hsame⟩ | ⟨-, hold⟩
    · exact absurd hsame (hnew hwaits)
    · exact h.sole third hwaits hold

/-- A new handler under a token and a ticket that the ledger does not know. -/
theorem register_self (hdistinct : l.pending.Distinct) (hfree : l.pending.get? token = none)
    (hsole : ∀ other, handler ≠ .callback → l.pending.get? other ≠ some handler)
    (hcalls : handler = .callback → l.calls.filter (·.token = token) = [])
    (htold : ∀ ticket, handler = .waiter ticket → l.told.filter (·.1 = ticket) = []) :
    Follows token handler none (l.register token handler) := by
  have hregister : l.register token handler =
      { l with pending := (l.pending.register token handler).2 } := by
    unfold Ledger.register
    rw [hfree]
    exact Ledger.settle_none _ _
  rw [hregister]
  refine ⟨hdistinct.register token handler, ?_, ?_, hcalls, htold⟩
  · exact (PendingTable.get?_register _ _ _ _).trans (if_pos rfl)
  · intro third hwaits hthird
    rcases PendingTable.get?_register_eq_some_iff.mp hthird with ⟨heq, -⟩ | ⟨-, hold⟩
    · exact heq
    · exact absurd hold (hsole third hwaits)

theorem registerAny_other (h : Follows token handler fate l) (hother : other ≠ token)
    {handler' : Option Handler} (hnew : handler ≠ .callback → handler' ≠ some handler) :
    Follows token handler fate (l.registerAny other handler') := by
  cases handler' with
  | none => exact h
  | some handler' =>
    exact h.register_other hother fun hwaits heq ↦ hnew hwaits (congrArg some heq)

theorem submit_other (h : Follows token handler fate l) (hother : other ≠ token)
    {handler' : Option Handler} (hnew : handler ≠ .callback → handler' ≠ some handler)
    (admission : Admission) : Follows token handler fate (l.submit other handler' admission) := by
  have hnext := h.renumber (l.nextToken + 1) l.nextTicket
  cases admission with
  | refused => exact hnext
  | sent => exact hnext.registerAny_other hother hnew
  | unsent =>
    exact (hnext.registerAny_other hother hnew).conclude_other hother (concerns_error _ _)

theorem receive (h : Follows token handler fate l) (answer : Record) :
    Follows token handler (fate.or ((Occurrence.record answer).fate? token))
      (l.receive answer) := by
  unfold Ledger.receive Occurrence.fate?
  dsimp only
  cases hconclusion : answer.conclusion? with
  | none => rwa [Option.or_none]
  | some conclusion =>
    obtain ⟨other, result⟩ := conclusion
    have hconcerns := Record.concerns_conclusion? hconclusion
    dsimp only
    by_cases hother : other = token
    · subst hother
      rw [if_pos rfl]
      exact h.conclude (.answered result) hconcerns
    · rw [if_neg hother, Option.or_none]
      exact h.conclude_other hother hconcerns

/-- What an occurrence that gives out neither the token nor the ticket makes of a handler. -/
theorem after (h : Follows token handler fate l) {occurrence : Occurrence}
    (htoken : occurrence.token? ≠ some token)
    (hticket : ∀ ticket, handler = .waiter ticket → occurrence.ticket? ≠ some ticket) :
    Follows token handler (fate.or (occurrence.fate? token)) (l.after occurrence) := by
  cases occurrence with
  | submission other handler' admission =>
    have hother : other ≠ token := fun heq ↦ htoken (congrArg some heq)
    have hnew : handler ≠ .callback → handler' ≠ some handler := by
      rintro hwaits rfl
      cases handler with
      | callback => exact hwaits rfl
      | waiter ticket => exact hticket ticket rfl rfl
    rw [Occurrence.fate?, Option.or_none]
    exact (h.renumber l.nextToken _).submit_other hother hnew admission
  | record answer => exact h.receive answer
  | timeout other =>
    unfold Occurrence.fate?
    dsimp only
    by_cases hother : other = token
    · subst hother
      rw [if_pos rfl]
      exact h.conclude .expired (concerns_error _ _)
    · rw [if_neg hother, Option.or_none]
      exact h.conclude_other hother (concerns_error _ _)
  | ended => exact h.failAll
  | aside =>
    rw [Occurrence.fate?, Option.or_none]
    exact h

/-- What a history makes of a handler that gives out neither its token nor its ticket again. -/
theorem foldl {later : List Occurrence} (htoken : token ∉ allocated later)
    (hticket : ∀ ticket, handler = .waiter ticket → ticket ∉ ticketed later)
    (h : Follows token handler fate l) :
    Follows token handler (fate.or (fate? token later)) (later.foldl Ledger.after l) := by
  induction later generalizing fate l with
  | nil => rwa [fate?, List.findSome?_nil, Option.or_none]
  | cons occurrence rest ih =>
    have hstep : Follows token handler (fate.or (occurrence.fate? token)) (l.after occurrence) := by
      refine h.after (fun heq ↦ htoken ?_) fun ticket hwaiter heq ↦ hticket ticket hwaiter ?_
      · exact List.mem_filterMap.mpr ⟨occurrence, List.mem_cons_self, heq⟩
      · exact List.mem_filterMap.mpr ⟨occurrence, List.mem_cons_self, heq⟩
    have hfate : fate? token (occurrence :: rest) =
        (occurrence.fate? token).or (fate? token rest) := by
      rw [fate?, List.findSome?_cons]
      cases occurrence.fate? token <;> rfl
    rw [hfate, ← Option.or_assoc, List.foldl_cons]
    refine ih (fun hmem ↦ htoken ?_) (fun ticket hwaiter hmem ↦ hticket ticket hwaiter ?_) hstep
    · exact (List.sublist_cons_self occurrence rest).filterMap _ |>.subset hmem
    · exact (List.sublist_cons_self occurrence rest).filterMap _ |>.subset hmem

end Follows

end DebugLink
