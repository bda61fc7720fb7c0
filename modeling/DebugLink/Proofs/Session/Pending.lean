import DebugLink.Pending
import DebugLink.Proofs.Table.Lookup

/-!
The laws of the pending table. Taking and registering change the handler of one token and no other
(`get?_take`, `get?_register`), and both keep the tokens distinct. When all handlers are removed,
each caller who waits is named once (`filter_failAll`).
-/

set_option autoImplicit false

namespace DebugLink

/-- The ticket of a handler, if someone waits. -/
def Handler.ticket? : Handler → Option Nat
  | .callback => none
  | .waiter ticket => some ticket

theorem Handler.ticket?_eq_some_iff {handler : Handler} {ticket : Nat} :
    handler.ticket? = some ticket ↔ handler = .waiter ticket := by
  cases handler <;> simp [Handler.ticket?]

namespace PendingTable

variable {table : PendingTable} {token : Token} {handler : Handler} {ticket : Nat}

/-! ### Look-up -/

theorem get?_take (table : PendingTable) (token other : Token) :
    (table.take token).2.get? other = if other = token then none else table.get? other :=
  Entries.lookup_filter_ne table.handlers token other

theorem get?_register (table : PendingTable) (token other : Token) (handler : Handler) :
    (table.register token handler).2.get? other =
      if other = token then some handler else table.get? other := by
  have happend : (table.register token handler).2.get? other =
      ((table.take token).2.get? other).or ([(token, handler)].lookup other) :=
    List.lookup_append
  rw [happend, get?_take, List.lookup_cons]
  by_cases hother : other = token
  · rw [if_pos hother, if_pos hother, hother, beq_self_eq_true, Option.none_or]
  · rw [if_neg hother, if_neg hother, beq_false_of_ne hother, List.lookup_nil, Option.or_none]

theorem get?_take_eq_some_iff {other : Token} :
    (table.take token).2.get? other = some handler ↔
      other ≠ token ∧ table.get? other = some handler := by
  rw [get?_take]
  by_cases hother : other = token
  · simp [hother]
  · simp [hother]

theorem get?_register_eq_some_iff {other : Token} {handler' : Handler} :
    (table.register token handler').2.get? other = some handler ↔
      (other = token ∧ handler' = handler) ∨ (other ≠ token ∧ table.get? other = some handler) := by
  rw [get?_register]
  by_cases hother : other = token
  · simp [hother]
  · simp [hother]

theorem mem_of_get? (h : table.get? token = some handler) : (token, handler) ∈ table.handlers :=
  Entries.mem_of_lookup h

/-- Nothing is taken where nothing is. -/
theorem take_of_get?_eq_none (h : table.get? token = none) : (table.take token).2 = table := by
  have hkeep : table.handlers.filter (fun entry ↦ entry.1 ≠ token) = table.handlers := by
    rw [List.filter_eq_self]
    intro entry hentry
    have hne := List.lookup_eq_none_iff.mp h entry hentry
    rw [bne_iff_ne] at hne
    simpa using hne.symm
  exact congrArg PendingTable.mk hkeep

theorem eq_empty_iff : table = empty ↔ ∀ token, table.get? token = none := by
  refine ⟨fun h _ ↦ h ▸ rfl, fun h ↦ ?_⟩
  obtain ⟨_ | ⟨⟨token, handler⟩, rest⟩⟩ := table
  · rfl
  · have hhead := h token
    rw [get?, List.lookup_cons, beq_self_eq_true] at hhead
    nomatch hhead

theorem take_eq_self_iff : (table.take token).2 = table ↔ table.get? token = none := by
  refine ⟨fun heq ↦ ?_, take_of_get?_eq_none⟩
  rw [← heq, get?_take, if_pos rfl]

/-- What is registered and taken again might as well not have been registered. -/
theorem take_register (table : PendingTable) (token : Token) (handler : Handler) :
    ((table.register token handler).2.take token).2 = (table.take token).2 := by
  have hself : [(token, handler)].filter (fun entry ↦ entry.1 ≠ token) = [] := by simp
  refine congrArg PendingTable.mk ?_
  show (_ ++ [(token, handler)]).filter _ = _
  rw [List.filter_append, hself, List.append_nil, List.filter_filter]
  simp

/-! ### Distinct tokens -/

/-- No token stands twice. -/
def Distinct (table : PendingTable) : Prop :=
  (table.handlers.map Prod.fst).Nodup

theorem distinct_empty : empty.Distinct :=
  List.nodup_nil

theorem Distinct.take (h : table.Distinct) (token : Token) : (table.take token).2.Distinct :=
  List.Nodup.sublist (List.filter_sublist.map Prod.fst) h

theorem Distinct.register (h : table.Distinct) (token : Token) (handler : Handler) :
    (table.register token handler).2.Distinct := by
  have hafter : (table.register token handler).2.handlers.map Prod.fst =
      (table.take token).2.handlers.map Prod.fst ++ [token] := List.map_append
  have habsent : token ∉ (table.take token).2.handlers.map Prod.fst := by
    intro hmem
    obtain ⟨entry, hentry, heq⟩ := List.mem_map.mp hmem
    have hne := (List.mem_filter.mp hentry).2
    simp [heq] at hne
  unfold Distinct
  rw [hafter, List.nodup_append]
  refine ⟨h.take token, List.nodup_singleton token, ?_⟩
  intro a ha b hb hab
  rw [List.mem_singleton] at hb
  rw [hab, hb] at ha
  exact habsent ha

theorem get?_of_mem (h : table.Distinct) (hmem : (token, handler) ∈ table.handlers) :
    table.get? token = some handler :=
  Entries.lookup_of_mem h hmem

/-! ### The removal of all handlers -/

theorem failAll_fst (table : PendingTable) :
    table.failAll.1 = table.handlers.filterMap fun entry ↦ entry.2.ticket? := by
  refine List.filterMap_congr fun entry _ ↦ ?_
  obtain ⟨key, value⟩ := entry
  cases value <;> rfl

theorem exists_of_mem_failAll (h : table.Distinct) (hmem : ticket ∈ table.failAll.1) :
    ∃ token, table.get? token = some (.waiter ticket) := by
  rw [failAll_fst] at hmem
  obtain ⟨⟨token, handler⟩, hentry, hticket⟩ := List.mem_filterMap.mp hmem
  have hwaiter : handler = .waiter ticket := Handler.ticket?_eq_some_iff.mp hticket
  exact ⟨token, get?_of_mem h (hwaiter ▸ hentry)⟩

/-- If no token but one can have a ticket, the ticket is named once if that token has it, and not at
all otherwise. -/
theorem filter_failAll (h : table.Distinct)
    (hsole : ∀ other, table.get? other = some (.waiter ticket) → other = token) :
    table.failAll.1.filter (· = ticket) =
      if table.get? token = some (.waiter ticket) then [ticket] else [] := by
  have hnone : ∀ entries : List (Token × Handler), (∀ entry ∈ entries, entry.2 ≠ .waiter ticket) →
      (entries.filterMap fun entry ↦ entry.2.ticket?).filter (· = ticket) = [] := by
    intro entries hentries
    rw [List.filter_eq_nil_iff]
    intro n hn
    obtain ⟨entry, hentry, heq⟩ := List.mem_filterMap.mp hn
    have hne := hentries entry hentry
    simpa using fun hticket : n = ticket ↦ hne (Handler.ticket?_eq_some_iff.mp (hticket ▸ heq))
  have honly : ∀ entry ∈ table.handlers, entry.2 = .waiter ticket → entry.1 = token := by
    intro entry hentry hwaiter
    exact hsole entry.1 (get?_of_mem h (hwaiter ▸ hentry))
  rw [failAll_fst]
  by_cases hget : table.get? token = some (.waiter ticket)
  · rw [if_pos hget]
    obtain ⟨earlier, later, hsplit⟩ := List.append_of_mem (mem_of_get? hget)
    have hkeys := h
    unfold Distinct at hkeys
    rw [hsplit, List.map_append, List.map_cons, List.nodup_middle, List.nodup_cons] at hkeys
    -- A second entry with this ticket would be a second one with this token.
    have hrest : ∀ entry ∈ earlier ++ later, entry.2 ≠ .waiter ticket := by
      intro entry hentry hwaiter
      have hmem : entry ∈ table.handlers := by
        rw [hsplit]
        rcases List.mem_append.mp hentry with hleft | hright
        · exact List.mem_append_left _ hleft
        · exact List.mem_append_right _ (List.mem_cons_of_mem _ hright)
      have hkey := honly entry hmem hwaiter
      refine hkeys.1 ?_
      rw [← List.map_append]
      exact List.mem_map.mpr ⟨entry, hentry, hkey⟩
    have hhead : (((token, Handler.waiter ticket) :: later).filterMap fun entry ↦ entry.2.ticket?) =
        ticket :: later.filterMap fun entry ↦ entry.2.ticket? := List.filterMap_cons_some rfl
    rw [hsplit, List.filterMap_append, List.filter_append, hhead, List.filter_cons_of_pos (by simp),
      hnone earlier fun entry hentry ↦ hrest entry (List.mem_append_left _ hentry),
      hnone later fun entry hentry ↦ hrest entry (List.mem_append_right _ hentry), List.nil_append]
  · rw [if_neg hget]
    refine hnone table.handlers fun entry hentry hwaiter ↦ hget ?_
    exact honly entry hentry hwaiter ▸ get?_of_mem h (hwaiter ▸ hentry)

end PendingTable

end DebugLink
