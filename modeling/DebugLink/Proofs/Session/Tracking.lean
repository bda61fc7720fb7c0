import DebugLink.Proofs.Session.Ledger

/-!
What the ledger of a session holds of one caller who waits, by his ticket: the token under which he
is registered, if he is, and what he was told (`Tracks`). A caller who is registered once is told
once at most (`Awaited`): as long as his handler is in the table he was told nothing, and afterwards
he has the answer under his token or the news that the session has ended.
-/

set_option autoImplicit false

namespace DebugLink

variable {ticket : Nat} {token : Token} {owner owner' registered : Option Token} {handler : Handler}
  {results results' : List (Except SessionError Response)} {result : Except SessionError Response}
  {heard heard' : List Record} {l l' : Ledger}

/-- What the ledger holds of a ticket: the token under which it stands, if any, and what was told to
it, the first one first. -/
structure Tracks (ticket : Nat) (owner : Option Token)
    (results : List (Except SessionError Response)) (l : Ledger) : Prop where
  distinct : l.pending.Distinct
  held : ∀ token, l.pending.get? token = some (.waiter ticket) ↔ owner = some token
  told : l.told.filter (·.1 = ticket) = results.map (ticket, ·)

namespace Tracks

theorem congr (h : Tracks ticket owner results l) (hpending : l'.pending = l.pending)
    (htold : l'.told = l.told) : Tracks ticket owner results l' :=
  ⟨hpending ▸ h.distinct, hpending ▸ h.held, htold ▸ h.told⟩

/-- What ends the command of the ticket. -/
theorem conclude_self (h : Tracks ticket (some token) results l)
    (result : Except SessionError Response) :
    Tracks ticket none (results ++ [result]) (l.conclude token result) where
  distinct := h.distinct.take token
  held other := by
    refine iff_of_false (fun hget ↦ ?_) nofun
    obtain ⟨hother, hget⟩ := PendingTable.get?_take_eq_some_iff.mp hget
    exact hother (Option.some.inj ((h.held other).mp hget)).symm
  told := by
    have htold : (l.conclude token result).told.filter (·.1 = ticket) = _ := List.filter_append _ _
    rw [htold, h.told, Handler.filter_notices, if_pos ((h.held token).mpr rfl), List.map_append]
    rfl

/-- What ends another command. -/
theorem conclude_other (h : Tracks ticket owner results l) (hother : owner ≠ some token)
    (result : Except SessionError Response) :
    Tracks ticket owner results (l.conclude token result) where
  distinct := h.distinct.take token
  held other := by
    refine PendingTable.get?_take_eq_some_iff.trans ?_
    rw [h.held other, and_iff_right_iff_imp]
    rintro howner rfl
    exact hother howner
  told := by
    have htold : (l.conclude token result).told.filter (·.1 = ticket) = _ := List.filter_append _ _
    have hfree : l.pending.get? token ≠ some (.waiter ticket) := fun hget ↦
      hother ((h.held token).mp hget)
    rw [htold, h.told, Handler.filter_notices, if_neg hfree, List.append_nil]

/-- To register the handler of another caller tells what it tells to end the command that stood
there. -/
theorem register_other (h : Tracks ticket owner results l) (hother : handler ≠ .waiter ticket)
    (hended : Tracks ticket owner' results' (l.conclude token (.error .terminated))) :
    Tracks ticket owner' results' (l.register token handler) where
  distinct := h.distinct.register token handler
  held other := by
    rw [← hended.held other]
    refine PendingTable.get?_register_eq_some_iff.trans
      (Iff.trans ?_ PendingTable.get?_take_eq_some_iff.symm)
    exact or_iff_right fun hself ↦ hother hself.2
  told := hended.told

/-- To register the ticket itself, which stands nowhere. -/
theorem register_self (h : Tracks ticket none results l) (token : Token) :
    Tracks ticket (some token) results (l.register token (.waiter ticket)) where
  distinct := h.distinct.register token _
  held other := by
    refine PendingTable.get?_register_eq_some_iff.trans ?_
    rw [h.held other]
    simp [eq_comm]
  told := (h.conclude_other nofun (.error .terminated)).told

theorem failAll (h : Tracks ticket owner results l) :
    Tracks ticket none (results ++ owner.toList.map fun _ ↦ .error .terminated) l.failAll where
  distinct := PendingTable.distinct_empty
  held _ := iff_of_false nofun nofun
  told := by
    have hlast : (l.pending.failAll.1.map fun ticket ↦
          (ticket, (.error .terminated : Except SessionError Response))).filter (·.1 = ticket) =
        (l.pending.failAll.1.filter (· = ticket)).map fun ticket ↦ (ticket, .error .terminated) :=
      List.filter_map
    have htold : l.failAll.told.filter (·.1 = ticket) = _ := List.filter_append _ _
    rw [htold, hlast, h.told, List.map_append]
    cases owner with
    | none =>
      have hnone : l.pending.failAll.1.filter (· = ticket) = [] := by
        rw [List.filter_eq_nil_iff]
        intro other hmem hticket
        obtain ⟨token, hget⟩ := PendingTable.exists_of_mem_failAll h.distinct hmem
        nomatch (h.held token).mp (of_decide_eq_true hticket ▸ hget)
      rw [hnone]
      rfl
    | some token =>
      have hsole : ∀ other, l.pending.get? other = some (.waiter ticket) → other = token :=
        fun other hget ↦ (Option.some.inj ((h.held other).mp hget)).symm
      rw [PendingTable.filter_failAll h.distinct hsole, if_pos ((h.held token).mpr rfl)]
      rfl

end Tracks

/-- Whether a result is one that a caller who waits under a token may be told: how a record that was
taken in concludes his command, or that the session has ended. -/
def Resolves (heard : List Record) (token : Token) (result : Except SessionError Response) : Prop :=
  result = .error .terminated ∨ ∃ record ∈ heard, record.conclusion? = some (token, result)

/-- What the ledger holds of a caller who waits, by the token under which he was registered, if he
was. -/
inductive Awaited (heard : List Record) (ticket : Nat) (registered : Option Token) (l : Ledger) :
    Prop
  /-- He was told nothing yet, and his handler is where it was registered. -/
  | outstanding (h : Tracks ticket registered [] l)
  /-- He was told once. -/
  | resolved {token : Token} {result : Except SessionError Response}
      (hregistered : registered = some token) (hresolves : Resolves heard token result)
      (h : Tracks ticket none [result] l)

namespace Awaited

theorem mono (h : Awaited heard ticket registered l) (hsubset : heard ⊆ heard') :
    Awaited heard' ticket registered l := by
  cases h with
  | outstanding h => exact .outstanding h
  | resolved hregistered hresolves h =>
    refine .resolved hregistered (hresolves.imp_right ?_) h
    rintro ⟨record, hmem, hconclusion⟩
    exact ⟨record, hsubset hmem, hconclusion⟩

theorem congr (h : Awaited heard ticket registered l) (hpending : l'.pending = l.pending)
    (htold : l'.told = l.told) : Awaited heard ticket registered l' := by
  cases h with
  | outstanding h => exact .outstanding (h.congr hpending htold)
  | resolved hregistered hresolves h =>
    exact .resolved hregistered hresolves (h.congr hpending htold)

theorem conclude (h : Awaited heard ticket registered l) (hresolves : Resolves heard token result) :
    Awaited heard ticket registered (l.conclude token result) := by
  cases h with
  | outstanding h =>
    by_cases hself : registered = some token
    · subst hself
      exact .resolved rfl hresolves (h.conclude_self result)
    · exact .outstanding (h.conclude_other hself result)
  | resolved hregistered hearlier h =>
    exact .resolved hregistered hearlier (h.conclude_other nofun result)

theorem register_other (h : Awaited heard ticket registered l) (hother : handler ≠ .waiter ticket) :
    Awaited heard ticket registered (l.register token handler) := by
  cases h with
  | outstanding h =>
    by_cases hself : registered = some token
    · subst hself
      exact .resolved rfl (.inl rfl) (h.register_other hother (h.conclude_self _))
    · exact .outstanding (h.register_other hother (h.conclude_other hself _))
  | resolved hregistered hearlier h =>
    exact .resolved hregistered hearlier (h.register_other hother (h.conclude_other nofun _))

theorem register_self (h : Awaited heard ticket none l) (token : Token) :
    Awaited heard ticket (some token) (l.register token (.waiter ticket)) := by
  cases h with
  | outstanding h => exact .outstanding (h.register_self token)
  | resolved hregistered => nomatch hregistered

theorem failAll (h : Awaited heard ticket registered l) :
    Awaited heard ticket registered l.failAll := by
  cases h with
  | outstanding h =>
    cases registered with
    | none => exact .outstanding h.failAll
    | some token => exact .resolved rfl (.inl rfl) h.failAll
  | resolved hregistered hearlier h => exact .resolved hregistered hearlier h.failAll

theorem receive (h : Awaited heard ticket registered l) (record : Record) :
    Awaited (heard ++ [record]) ticket registered (l.receive record) := by
  have hmore := h.mono (List.subset_append_left heard [record])
  unfold Ledger.receive
  split
  · rename_i token result hconclusion
    refine hmore.conclude (.inr ⟨record, ?_, hconclusion⟩)
    exact List.mem_append_right heard (List.mem_singleton_self record)
  · exact hmore

end Awaited

end DebugLink
