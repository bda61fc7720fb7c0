import DebugLink.Proofs.Session.Fate
import DebugLink.Proofs.Session.Receiving
import DebugLink.Proofs.Session.Submission

/-!
Two sources of tokens. A command has the token that its caller chose, or the next number, and
nothing keeps the two apart: a handler is dropped when another one is registered under its token
while its answer is outstanding. If callers choose no token twice that happens only across the
sources, and only so, or by giving up, does someone who waits hear that the session has ended while
it has not (`displaced_only_across`).
-/

set_option autoImplicit false

namespace DebugLink

/-- What callers and the debugger do to a session that is open. -/
inductive Dealing
  /-- A command is submitted, perhaps with a handler. -/
  | submission (command : Command) (handler : Option Handler)
  | record (record : Record)
  /-- Whoever waits for the answer under a token gives up. -/
  | timeout (token : Token)

namespace Dealing

/-- The session after a dealing. -/
def apply (s : Session) : Dealing → Session
  | .submission command handler => (s.submit command handler).2
  | .record answer => s.receive answer
  | .timeout token => s.cancel token

/-- The token that a caller chooses. -/
def chosen? : Dealing → Option Token
  | submission command _ => command.token
  | _ => none

/-- Whether a command gets the next number as its token. -/
def isNumbered : Dealing → Bool
  | submission command _ => command.token.isNone
  | _ => false

end Dealing

/-- The tokens that callers choose, the first one first. -/
def chosen (dealings : List Dealing) : List Token :=
  dealings.filterMap Dealing.chosen?

/-- The number of tokens that the session gives out. -/
def numberedCount (dealings : List Dealing) : Nat :=
  dealings.countP Dealing.isNumbered

/-- The tokens that the session gives out, the first one first. -/
def numbered (options : SessionOptions) (dealings : List Dealing) : List Token :=
  (List.range (numberedCount dealings)).map fun i ↦ options.firstToken + UInt64.ofNat i

variable {options : SessionOptions} {dealings earlier later : List Dealing} {dealing : Dealing}
  {command : Command} {handler : Option Handler} {token : Token}

/-- The tokens that callers choose, over dealings in a row. -/
theorem chosen_append (dealings later : List Dealing) :
    chosen (dealings ++ later) = chosen dealings ++ chosen later :=
  List.filterMap_append

/-- The count of tokens given out, over dealings in a row. -/
theorem numberedCount_append (dealings later : List Dealing) :
    numberedCount (dealings ++ later) = numberedCount dealings + numberedCount later :=
  List.countP_append

/-- The tokens given out count up from the first one and run over at the end. -/
theorem mem_numbered_iff : token ∈ numbered options dealings ↔
    ∃ i < numberedCount dealings, options.firstToken + UInt64.ofNat i = token := by
  simp [numbered]

/-- As more tokens are given out none is taken back. -/
theorem numbered_mono (h : numberedCount earlier ≤ numberedCount dealings)
    (hmem : token ∈ numbered options earlier) : token ∈ numbered options dealings := by
  obtain ⟨i, hi, htoken⟩ := mem_numbered_iff.mp hmem
  exact mem_numbered_iff.mpr ⟨i, hi.trans_le h, htoken⟩

namespace Session

variable {s : Session}

/-- The session after dealings one after another, from the beginning. -/
def dealt (options : SessionOptions) (dealings : List Dealing) : Session :=
  dealings.foldl Dealing.apply (start options)

/-- The handler that the submission of a command drops: the one whose answer is outstanding under
the same token, if the command is admitted and has a handler itself. -/
def displaced (s : Session) (command : Command) (handler : Option Handler) : Option Handler :=
  match s.status.beginCommand (s.tokenFor command) command.resumesTarget, handler with
  | .ok _, some handler => (s.pending.register (s.tokenFor command) handler).1
  | _, _ => none

/-- Whether the token of a command that is submitted after some dealings may be one of the other
source: a caller chooses a token that was given out, or the next number is one that a caller chose.
That the numbers have run over is the only other way for one to come back. -/
def Collides (options : SessionOptions) (earlier : List Dealing) (command : Command) : Prop :=
  match command.token with
  | some token => token ∈ numbered options earlier
  | none => (dealt options earlier).nextToken ∈ chosen earlier ∨
      UInt64.size ≤ numberedCount earlier

/-- The handler that is dropped stands under the token of the command. -/
theorem get?_of_displaced {dropped : Handler} (h : s.displaced command handler = some dropped) :
    s.pending.get? (s.tokenFor command) = some dropped := by
  unfold displaced at h
  split at h
  · exact h
  · nomatch h

/-- A token that a caller chooses is among those that are chosen. -/
theorem mem_chosen (h : command.token = some token) (handler : Option Handler)
    (later : List Dealing) : token ∈ chosen (.submission command handler :: later) := by
  simp [chosen, Dealing.chosen?, h]

/-- A command without a token takes a number. -/
theorem numberedCount_submission (command : Command) (handler : Option Handler)
    (later : List Dealing) : numberedCount (.submission command handler :: later) =
      (if command.token = none then 1 else 0) + numberedCount later := by
  cases htoken : command.token <;> simp [numberedCount, Dealing.isNumbered, htoken, Nat.add_comm]

/-! ### One dealing -/

/-- A submission to an open session: the command is refused, or it is sent and its handler
registered. -/
theorem submit_open_cases (hopen : s.writable = true) (command : Command)
    (handler : Option Handler) :
    (∃ e, s.status.beginCommand (s.tokenFor command) command.resumesTarget = .error e ∧
      s.submit command handler = (.error e, { s with nextToken := s.tokenAfter command })) ∨
    ∃ status s', s.status.beginCommand (s.tokenFor command) command.resumesTarget = .ok status ∧
      s.submit command handler = (.ok (s.tokenFor command), s') ∧ s'.status = status ∧
      s'.writable = true ∧
      s'.ledger = { s.ledger with nextToken := s.tokenAfter command }.registerAny
        (s.tokenFor command) handler := by
  rcases submit_cases s command handler with
    hrefused | ⟨status, registered, hadmitted, rfl, ⟨-, heq⟩ | ⟨hclosed, -⟩⟩
  · exact .inl hrefused
  · refine .inr ⟨status, _, hadmitted, heq, ?_, ?_, ?_⟩
    · exact (tells_registerIfAny _ _ _).status_eq
    · exact (tells_registerIfAny _ _ _).writable_eq.trans hopen
    · exact ledger_registerIfAny _ _ _
  · rw [hopen] at hclosed
    nomatch hclosed

/-- What is in the pending table after a submission is the handler of its command, or it was there
before. -/
theorem pending_submit (hopen : s.writable = true) {found : Handler}
    (h : (s.submit command handler).2.pending.get? token = some found) :
    token = s.tokenFor command ∨ s.pending.get? token = some found := by
  rcases submit_open_cases hopen command handler with ⟨e, -, heq⟩ | ⟨_, s', -, heq, -, -, hledger⟩
  · rw [heq] at h
    exact .inr h
  · rw [heq] at h
    have hget : s'.ledger.pending.get? token = some found := h
    rw [hledger] at hget
    cases handler with
    | none => exact .inr hget
    | some handler =>
      exact (PendingTable.get?_register_eq_some_iff.mp hget).imp And.left And.right

/-- A submission moves the counter on unless the caller has chosen the token. -/
theorem nextToken_submit (hopen : s.writable = true) :
    (s.submit command handler).2.nextToken = s.tokenAfter command := by
  rcases submit_open_cases hopen command handler with
    ⟨e, -, heq⟩ | ⟨_, s', -, heq, -, -, hledger⟩
  · rw [heq]
  · rw [heq]
    have hnext := congrArg Ledger.nextToken hledger
    cases handler <;> exact hnext

/-- Whoever is told something by a submission had the handler that it drops. -/
theorem told_submit (hopen : s.writable = true) {ticket : Nat}
    {result : Except SessionError Response}
    (h : (ticket, result) ∈ (s.submit command handler).2.answers) :
    (ticket, result) ∈ s.answers ∨ s.displaced command handler = some (.waiter ticket) := by
  rcases submit_open_cases hopen command handler with
    ⟨e, -, heq⟩ | ⟨_, s', hadmitted, heq, -, -, hledger⟩
  · rw [heq] at h
    exact .inl h
  · rw [heq] at h
    have hmem : (ticket, result) ∈ s'.ledger.told := h
    rw [hledger] at hmem
    cases handler with
    | none => exact .inl hmem
    | some handler =>
      refine (Ledger.mem_told_conclude.mp hmem).imp_right fun hwaits ↦ ?_
      unfold displaced
      rw [hadmitted]
      exact hwaits.1

/-- A record tells nobody that the session has ended. -/
theorem conclusion?_ne_terminated (record : Record) (token : Token) :
    record.conclusion? ≠ some (token, .error .terminated) := by
  unfold Record.conclusion?
  split
  · simp
  · split_ifs <;> simp
  · nofun

/-- No record tells anyone that the session has ended. -/
theorem told_receive {record : Record} {ticket : Nat}
    (h : (ticket, .error .terminated) ∈ (s.receive record).answers) :
    (ticket, .error .terminated) ∈ s.answers := by
  have hmem : (ticket, .error .terminated) ∈ (s.receive record).ledger.told := h
  rw [ledger_receive, Ledger.receive] at hmem
  split at hmem
  · rename_i token result hconclusion
    rcases Ledger.mem_told_conclude.mp hmem with hold | ⟨-, rfl⟩
    · exact hold
    · exact absurd hconclusion (conclusion?_ne_terminated record token)
  · exact hmem

/-! ### Any number of dealings -/

/-- What holds of a session that was open all the time: handlers stand only under tokens that
callers chose and under numbers that were given out. -/
structure Dealt (options : SessionOptions) (dealings : List Dealing) (s : Session) : Prop where
  writable : s.writable = true
  live : s.status.state ≠ .terminated
  next : s.nextToken = options.firstToken + UInt64.ofNat (numberedCount dealings)
  pending : ∀ token found, s.pending.get? token = some found →
    token ∈ chosen dealings ∨ token ∈ numbered options dealings

namespace Dealt

/-- A new session has no handlers. -/
theorem start (options : SessionOptions) : Dealt options [] (Session.start options) :=
  ⟨rfl, nofun, (UInt64.add_zero _).symm, nofun⟩

/-- A handler stands under a token that was chosen or given out, whatever comes later. -/
theorem pending_mono (h : Dealt options dealings s) {found : Handler}
    (hget : s.pending.get? token = some found) (later : List Dealing) :
    token ∈ chosen (dealings ++ later) ∨ token ∈ numbered options (dealings ++ later) := by
  rw [chosen_append]
  refine (h.pending token found hget).imp (List.mem_append_left _) (numbered_mono ?_)
  rw [numberedCount_append]
  exact Nat.le_add_right _ _

/-- A submission puts a handler at most under its own token. -/
theorem submit (h : Dealt options dealings s) (command : Command) (handler : Option Handler) :
    Dealt options (dealings ++ [.submission command handler]) (s.submit command handler).2 where
  writable := by
    rcases submit_open_cases h.writable command handler with
      ⟨e, -, heq⟩ | ⟨_, s', -, heq, -, hwritable, -⟩
    · rw [heq]
      exact h.writable
    · rw [heq]
      exact hwritable
  live := by
    rcases submit_open_cases h.writable command handler with
      ⟨e, -, heq⟩ | ⟨_, s', hadmitted, heq, rfl, -, -⟩
    · rw [heq]
      exact h.live
    · rw [heq]
      exact fun hended ↦ nomatch (Status.state_of_beginCommand hadmitted).symm.trans hended
  next := by
    rw [nextToken_submit h.writable, numberedCount_append, numberedCount_submission, tokenAfter,
      h.next]
    cases command.token with
    | some token => rfl
    | none => simp [numberedCount, UInt64.add_assoc]
  pending token found hget := by
    rcases pending_submit h.writable hget with rfl | hold
    · unfold tokenFor
      cases htoken : command.token with
      | some token =>
        refine .inl ?_
        rw [chosen_append]
        exact List.mem_append_right _ (mem_chosen htoken handler [])
      | none =>
        refine .inr (mem_numbered_iff.mpr ⟨numberedCount dealings, ?_, h.next.symm⟩)
        rw [numberedCount_append, numberedCount_submission, if_pos htoken]
        omega
    · exact h.pending_mono hold _

/-- Something that is taken in and registers no handler. -/
theorem takes {s' : Session} (h : Dealt options dealings s) (htakes : s.Takes s')
    (hlive : s'.status.state ≠ .terminated)
    (hpending : ∀ token found, s'.pending.get? token = some found →
      s.pending.get? token = some found)
    (hnumber : dealing.isNumbered = false) : Dealt options (dealings ++ [dealing]) s' where
  writable := htakes.writable_eq.trans h.writable
  live := hlive
  next := by
    have hcount : numberedCount [dealing] = 0 := by simp [numberedCount, hnumber]
    rw [numberedCount_append, hcount]
    exact htakes.nextToken_eq.trans h.next
  pending token found hget := h.pending_mono (hpending token found hget) _

/-- A dealing puts handlers only under tokens that are chosen or given out by it. -/
theorem apply (h : Dealt options dealings s) (dealing : Dealing) :
    Dealt options (dealings ++ [dealing]) (dealing.apply s) := by
  cases dealing with
  | submission command handler => exact h.submit command handler
  | record answer =>
    have hlive := (not_congr (terminated_receive_iff s answer)).mpr h.live
    exact h.takes (takes_receive s answer) hlive (fun _ _ ↦ pending_receive) rfl
  | timeout token =>
    have hcancel := tells_cancel s token
    exact h.takes hcancel.takes (hcancel.status_eq ▸ h.live) (fun _ _ ↦ pending_cancel) rfl

end Dealt

/-- The last dealing applies to what the others leave. -/
theorem dealt_append_singleton (options : SessionOptions) (dealings : List Dealing)
    (dealing : Dealing) :
    dealt options (dealings ++ [dealing]) = dealing.apply (dealt options dealings) := by
  rw [dealt, List.foldl_append]
  rfl

/-- In every session that was open all the time handlers stand only where they should. By induction
on the dealings. -/
theorem dealt_dealings (options : SessionOptions) (dealings : List Dealing) :
    Dealt options dealings (dealt options dealings) := by
  induction dealings using List.reverseRecOn with
  | nil => exact .start options
  | append_singleton dealings dealing ih =>
    rw [dealt_append_singleton]
    exact ih.apply dealing

/-! ### Collisions -/

/-- A number comes back only when the numbers have run over. -/
theorem size_le_of_nextToken_mem
    (hmem : (dealt options earlier).nextToken ∈ numbered options earlier) :
    UInt64.size ≤ numberedCount earlier := by
  obtain ⟨i, hi, heq⟩ := mem_numbered_iff.mp hmem
  rw [(dealt_dealings options earlier).next] at heq
  have hmod := congrArg UInt64.toNat heq
  rw [UInt64.toNat_add, UInt64.toNat_add, UInt64.toNat_ofNat', UInt64.toNat_ofNat'] at hmod
  by_contra hsmall
  rw [UInt64.size] at hsmall
  omega

/-- If callers choose no token twice, a submission finds a handler under its token only where the
two sources meet. -/
theorem collides_of_get? (hchosen : (chosen (earlier ++ [.submission command handler])).Nodup)
    {found : Handler}
    (hget : (dealt options earlier).pending.get? ((dealt options earlier).tokenFor command) =
      some found) : Collides options earlier command := by
  have hsource := (dealt_dealings options earlier).pending _ _ hget
  rw [chosen_append, List.nodup_append] at hchosen
  unfold Collides
  unfold tokenFor at hsource
  cases htoken : command.token with
  | none =>
    rw [htoken] at hsource
    exact hsource.imp_right size_le_of_nextToken_mem
  | some token =>
    rw [htoken] at hsource
    exact hsource.resolve_left fun hmem ↦
      hchosen.2.2 token hmem token (mem_chosen htoken handler []) rfl

/-- If no caller chooses a number that is given out, and the numbers do not run over, the sources do
not meet. -/
theorem not_collides_of_apart {dealings : List Dealing}
    (hsplit : dealings = earlier ++ .submission command handler :: later)
    (hapart : ∀ token ∈ chosen dealings, token ∉ numbered options dealings)
    (hroom : numberedCount dealings ≤ UInt64.size) : ¬Collides options earlier command := by
  have hcount : numberedCount dealings =
      numberedCount earlier + numberedCount (.submission command handler :: later) :=
    hsplit ▸ numberedCount_append _ _
  have hchosen : chosen dealings =
      chosen earlier ++ chosen (.submission command handler :: later) := hsplit ▸ chosen_append _ _
  unfold Collides
  cases htoken : command.token with
  | some token =>
    refine fun hmem ↦ hapart token ?_ (numbered_mono (by omega) hmem)
    rw [hchosen]
    exact List.mem_append_right _ (mem_chosen htoken handler later)
  | none =>
    have hmore : numberedCount earlier < numberedCount dealings := by
      rw [hcount, numberedCount_submission, if_pos htoken]
      omega
    rintro (hmem | hover)
    · refine hapart _ (hchosen ▸ List.mem_append_left _ hmem) (mem_numbered_iff.mpr ?_)
      exact ⟨_, hmore, (dealt_dealings options earlier).next.symm⟩
    · omega

/-! ### Who is told that the session has ended -/

/-- Whether a dealing drops the handler of someone who waits: whoever waits gives up, or another
handler takes the place of his. -/
def Drops (s : Session) (ticket : Nat) : Dealing → Prop
  | .submission command handler => s.displaced command handler = some (.waiter ticket)
  | .record _ => False
  | .timeout token => s.pending.get? token = some (.waiter ticket)

/-- Someone who learns from a dealing that the session has ended had his handler dropped by it. -/
theorem told_apply (hopen : s.writable = true) {ticket : Nat}
    (h : (ticket, .error .terminated) ∈ (dealing.apply s).answers) :
    (ticket, .error .terminated) ∈ s.answers ∨ s.Drops ticket dealing := by
  cases dealing with
  | submission command handler => exact told_submit hopen h
  | record answer => exact .inl (told_receive h)
  | timeout token =>
    have hmem : (ticket, .error .terminated) ∈ (s.cancel token).ledger.told := h
    rw [ledger_cancel] at hmem
    exact (Ledger.mem_told_conclude.mp hmem).imp_right And.left

/-- Someone who was told that the session has ended had his handler dropped by a dealing. -/
theorem exists_drops_of_told {ticket : Nat}
    (h : (ticket, .error .terminated) ∈ (dealt options dealings).answers) :
    ∃ earlier dealing later, dealings = earlier ++ dealing :: later ∧
      (dealt options earlier).Drops ticket dealing := by
  induction dealings using List.reverseRecOn with
  | nil => nomatch h
  | append_singleton dealings dealing ih =>
    rw [dealt_append_singleton] at h
    rcases told_apply (dealt_dealings options dealings).writable h with hold | hdrops
    · obtain ⟨earlier, dealing', later, rfl, hdrops⟩ := ih hold
      exact ⟨earlier, dealing', later ++ [dealing], by simp, hdrops⟩
    · exact ⟨dealings, dealing, [], rfl, hdrops⟩

/-- A command to an open session may be refused, but not because the session has ended. -/
theorem submit_ne_terminated (options : SessionOptions) (earlier : List Dealing) (command : Command)
    (handler : Option Handler) :
    ((dealt options earlier).submit command handler).1 ≠ .error .terminated := by
  have hdealt := dealt_dealings options earlier
  by_cases hrefuses : (dealt options earlier).status.Refuses command.resumesTarget
  · rw [submit_of_refuses hrefuses, Status.refusal, if_neg hdealt.live]
    nofun
  · intro hfailed
    have hclosed := (submit_error_of_not_refuses hrefuses hfailed).2.1
    rw [hdealt.writable] at hclosed
    nomatch hclosed

/-- As long as the session is open and callers choose no token twice, a submission drops a handler
whose answer is outstanding only where the two sources of tokens meet, and whoever is told that the
session has ended has given up or lost his handler in this way. If no caller chooses a number that
is given out, and the numbers do not run over, no submission drops a handler. -/
theorem displaced_only_across (options : SessionOptions) (h : (chosen dealings).Nodup) :
    (∀ earlier command handler later, dealings = earlier ++ .submission command handler :: later →
      ((dealt options earlier).submit command handler).1 ≠ .error .terminated ∧
        ∀ dropped, (dealt options earlier).displaced command handler = some dropped →
          Collides options earlier command) ∧
    (∀ ticket, (ticket, .error .terminated) ∈ (dealt options dealings).answers →
      ∃ earlier dealing later, dealings = earlier ++ dealing :: later ∧
        (dealt options earlier).Drops ticket dealing ∧
          ∀ command handler, dealing = .submission command handler →
            Collides options earlier command) ∧
    ((∀ token ∈ chosen dealings, token ∉ numbered options dealings) →
      numberedCount dealings ≤ UInt64.size →
        (∀ earlier command handler later,
          dealings = earlier ++ .submission command handler :: later →
            (dealt options earlier).displaced command handler = none) ∧
        ∀ ticket, (ticket, .error .terminated) ∈ (dealt options dealings).answers →
          ∃ earlier token later, dealings = earlier ++ .timeout token :: later ∧
            (dealt options earlier).pending.get? token = some (.waiter ticket)) := by
  have hcollides : ∀ earlier command handler later dropped,
      dealings = earlier ++ .submission command handler :: later →
        (dealt options earlier).displaced command handler = some dropped →
          Collides options earlier command := by
    rintro earlier command handler later dropped rfl hdropped
    rw [List.append_cons, chosen_append] at h
    exact collides_of_get? h.of_append_left (get?_of_displaced hdropped)
  refine ⟨fun earlier command handler later hsplit ↦ ⟨submit_ne_terminated _ _ _ _,
      fun dropped ↦ hcollides earlier command handler later dropped hsplit⟩,
    fun ticket htold ↦ ?_, fun hapart hroom ↦ ?_⟩
  · obtain ⟨earlier, dealing, later, hsplit, hdrops⟩ := exists_drops_of_told htold
    refine ⟨earlier, dealing, later, hsplit, hdrops, ?_⟩
    rintro command handler rfl
    exact hcollides earlier command handler later _ hsplit hdrops
  · have hnone : ∀ earlier command handler later,
        dealings = earlier ++ .submission command handler :: later →
          (dealt options earlier).displaced command handler = none := by
      intro earlier command handler later hsplit
      rw [Option.eq_none_iff_forall_ne_some]
      intro dropped hdropped
      exact not_collides_of_apart hsplit hapart hroom
        (hcollides earlier command handler later dropped hsplit hdropped)
    refine ⟨hnone, fun ticket htold ↦ ?_⟩
    obtain ⟨earlier, dealing, later, hsplit, hdrops⟩ := exists_drops_of_told htold
    cases dealing with
    | submission command handler =>
      nomatch (hnone earlier command handler later hsplit).symm.trans hdrops
    | record answer => exact hdrops.elim
    | timeout token => exact ⟨earlier, token, later, hsplit, hdrops⟩

/-- Three callers wait. The first one has chosen the second of the numbers that are given out. -/
def crossing : List Dealing :=
  let command := Command.plain "-break-list" [] []
  [.submission (command.withToken 1000002) (some (.waiter 0)),
    .submission command (some (.waiter 1)), .submission command (some (.waiter 2))]

/-- The third submission drops the handler of the first caller, who is told that the session has
ended. -/
theorem displaced_only_across_of_crossing :
    (chosen crossing).Nodup ∧
      (dealt .standard (crossing.take 2)).displaced (.plain "-break-list" [] [])
        (some (.waiter 2)) = some (.waiter 0) ∧
      Collides .standard (crossing.take 2) (.plain "-break-list" [] []) ∧
      (0, .error .terminated) ∈ (dealt .standard crossing).answers ∧
      ∃ earlier dealing later, crossing = earlier ++ dealing :: later ∧
        (dealt .standard earlier).Drops 0 dealing := by
  have hnodup : (chosen crossing).Nodup := by decide
  obtain ⟨hsubmissions, htold, -⟩ := displaced_only_across .standard hnodup
  have hdropped : (dealt .standard (crossing.take 2)).displaced (.plain "-break-list" [] [])
      (some (.waiter 2)) = some (.waiter 0) := by decide
  have hcollides := (hsubmissions (crossing.take 2) _ _ [] rfl).2 _ hdropped
  have hmem : (0, .error .terminated) ∈ (dealt .standard crossing).answers := by
    have hanswers : (dealt .standard crossing).answers = [(0, .error .terminated)] := rfl
    rw [hanswers]
    exact List.mem_singleton_self _
  obtain ⟨earlier, dealing, later, hsplit, hdrops, -⟩ := htold 0 hmem
  exact ⟨hnodup, hdropped, hcollides, hmem, earlier, dealing, later, hsplit, hdrops⟩

/-- A submission may drop a handler although callers choose no token twice. -/
theorem not_always_kept :
    ¬ ∀ (options : SessionOptions) (dealings earlier later : List Dealing) (command : Command)
      (handler : Option Handler), (chosen dealings).Nodup →
        dealings = earlier ++ .submission command handler :: later →
          (dealt options earlier).displaced command handler = none := by
  intro h
  have hnone := h .standard crossing (crossing.take 2) [] (.plain "-break-list" [] [])
    (some (.waiter 2)) (by decide) rfl
  exact absurd hnone (by decide)

end Session

end DebugLink
