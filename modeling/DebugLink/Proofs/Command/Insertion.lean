import DebugLink.Proofs.Command.Splitting

/-!
Which breakpoints are asked for with the same line. A line gives back the operation and the
arguments of its command (`Command.arguments_eq_of_render_eq`). The options of a breakpoint stand in
a fixed order, and each begins with a flag of its own and takes a fixed number of values, so the
arguments give back the options and what follows them as long as this does not begin with a flag
itself (`BreakRequest.eq_of_fills`). A location is set apart only from options that stand in front
of it. So there is one exception: a location alone that is spelled like a flag without a value is
written as the request for this option alone (`BreakRequest.render_eq_iff`).
-/

set_option autoImplicit false

namespace DebugLink

/-- Commands that are written alike have the same operation and the same arguments. -/
theorem Command.arguments_eq_of_render_eq {command other : Command} {token : Token}
    (hcommand : IsOperation command.operation.toList) (hother : IsOperation other.operation.toList)
    (hverbatim : command.verbatim = false) (hverbatim' : other.verbatim = false)
    (h : command.render token = other.render token) :
    command.operation = other.operation ∧ command.arguments = other.arguments := by
  have hbody : command.body = other.body := by
    rw [← dropWhile_render hcommand.endsToken token, h, dropWhile_render hother.endsToken]
  have hpieces := pieces?_body hverbatim hcommand
  rw [hbody, pieces?_body hverbatim' hother] at hpieces
  exact (List.cons.inj (Option.some.inj hpieces)).imp Eq.symm Eq.symm

namespace BreakRequest

/-! ### Options in a fixed order -/

section Slots

variable {slot : String × Nat} {slots : List (String × Nat)} {part : List String}
  {parts parts' : List (List String)} {rest rest' : List String}

/-- What is written for an option, which has a flag and takes a number of values: nothing, or the
flag and as many values. -/
def Fills (slot : String × Nat) (part : List String) : Prop :=
  part = [] ∨ ∃ values : List String, part = slot.1 :: values ∧ values.length = slot.2

/-- The first argument is a flag, or no option is written. -/
theorem head?_of_fills (h : List.Forall₂ Fills slots parts) {argument : String}
    (hhead : (parts.flatten ++ rest).head? = some argument) :
    argument ∈ slots.map Prod.fst ∨ rest.head? = some argument := by
  induction h with
  | nil => exact .inr hhead
  | cons hpart _ ih =>
    rcases hpart with rfl | ⟨values, rfl, -⟩
    · exact (ih hhead).imp_left (List.mem_cons_of_mem _)
    · cases hhead
      exact .inl List.mem_cons_self

/-- If options with different flags are written alike, and what follows them does not begin with a
flag, then each of them is written alike, and so is what follows. -/
theorem eq_of_fills (hslots : (slots.map Prod.fst).Nodup) (h : List.Forall₂ Fills slots parts)
    (h' : List.Forall₂ Fills slots parts')
    (hrest : ∀ argument, rest.head? = some argument → argument ∉ slots.map Prod.fst)
    (hrest' : ∀ argument, rest'.head? = some argument → argument ∉ slots.map Prod.fst)
    (heq : parts.flatten ++ rest = parts'.flatten ++ rest') : parts = parts' ∧ rest = rest' := by
  induction h generalizing parts' with
  | nil =>
    cases h'
    exact ⟨rfl, heq⟩
  | @cons slot part slots parts hpart hparts ih =>
    obtain _ | @⟨_, part', _, others, hpart', hparts'⟩ := h'
    rw [List.map_cons, List.nodup_cons] at hslots
    have hlater : ∀ argument, argument ∉ slot.1 :: slots.map Prod.fst →
        argument ∉ slots.map Prod.fst := fun _ hnot hmem ↦ hnot (List.mem_cons_of_mem _ hmem)
    -- The flag of the option that is left out cannot be the next argument.
    have hnext : ∀ {parts : List (List String)} {rest : List String},
        List.Forall₂ Fills slots parts →
          (∀ argument, rest.head? = some argument → argument ∉ slot.1 :: slots.map Prod.fst) →
            (parts.flatten ++ rest).head? ≠ some slot.1 := by
      intro parts rest hparts hrest hhead
      rcases head?_of_fills hparts hhead with hmem | hhead
      · exact hslots.1 hmem
      · exact hrest slot.1 hhead List.mem_cons_self
    have hothers : parts.flatten ++ rest = others.flatten ++ rest' →
        parts = others ∧ rest = rest' :=
      ih hslots.2 hparts' (fun a ha ↦ hlater a (hrest a ha)) (fun a ha ↦ hlater a (hrest' a ha))
    rw [List.flatten_cons, List.flatten_cons, List.append_assoc, List.append_assoc] at heq
    rcases hpart with rfl | ⟨values, rfl, hvalues⟩ <;>
      rcases hpart' with rfl | ⟨values', rfl, hvalues'⟩
    · exact (hothers heq).imp_left (congrArg _)
    · exact absurd (congrArg List.head? heq) (hnext hparts hrest)
    · exact absurd (congrArg List.head? heq).symm (hnext hparts' hrest')
    · obtain ⟨hflag, htail⟩ := List.append_inj heq (by simp [hvalues, hvalues'])
      exact (hothers htail).imp_left (congrArg₂ _ hflag)

/-- A single argument is the flag of an option without a value. -/
theorem mem_of_fills_singleton (h : List.Forall₂ Fills slots parts) {argument : String}
    (heq : parts.flatten = [argument]) : (argument, 0) ∈ slots := by
  induction h with
  | nil => cases heq
  | @cons slot part slots parts hpart _ ih =>
    rcases hpart with rfl | ⟨values, rfl, hvalues⟩
    · exact List.mem_cons_of_mem _ (ih heq)
    · rw [List.flatten_cons, List.cons_append] at heq
      obtain ⟨hflag, htail⟩ := List.cons.inj heq
      have hnone : values = [] := (List.append_eq_nil_iff.mp htail).1
      rw [hnone] at hvalues
      rw [← hflag, show (0 : Nat) = slot.2 from hvalues]
      exact List.mem_cons_self

end Slots

/-! ### The options of a breakpoint -/

variable {request other : BreakRequest} {location : String}

/-- The flags of the options of a breakpoint, in order, and how many values each takes. -/
def slots : List (String × Nat) :=
  [("-t", 0), ("-h", 0), ("-f", 0), ("-c", 1), ("-i", 1), ("-p", 1)]

/-- The flag of an option that is asked for. -/
def switched (flag : String) (on : Bool) : List String :=
  if on then [flag] else []

/-- What is written for each option. -/
def optionParts (request : BreakRequest) : List (List String) :=
  [switched "-t" request.temporary, switched "-h" request.hardware, switched "-f" request.force,
    valued "-c" request.condition, valued "-i" (request.ignoreCount.map toString),
    valued "-p" (request.thread.map toString)]

theorem fills_switched (flag : String) (on : Bool) : Fills (flag, 0) (switched flag on) := by
  cases on with
  | false => exact .inl rfl
  | true => exact .inr ⟨[], rfl, rfl⟩

theorem fills_valued (flag : String) (value : Option String) :
    Fills (flag, 1) (valued flag value) := by
  cases value with
  | none => exact .inl rfl
  | some value => exact .inr ⟨[value], rfl, rfl⟩

theorem fills_optionParts (request : BreakRequest) :
    List.Forall₂ Fills slots request.optionParts :=
  .cons (fills_switched _ _) <| .cons (fills_switched _ _) <| .cons (fills_switched _ _) <|
    .cons (fills_valued _ _) <| .cons (fills_valued _ _) <| .cons (fills_valued _ _) .nil

theorem options_eq (request : BreakRequest) : request.options = request.optionParts.flatten := by
  simp [options, optionParts, switched]

theorem switched_injective (flag : String) : Function.Injective (switched flag) := by
  intro on on' h
  cases on <;> cases on' <;> simp_all [switched]

theorem valued_injective (flag : String) : Function.Injective (valued flag) := by
  intro value value' h
  cases value <;> cases value' <;> simp_all [valued]

theorem toString_injective : Function.Injective (toString : Nat → String) := by
  intro n n' h
  have hdigits := Numeral.digits?_toString n
  rw [h, Numeral.digits?_toString] at hdigits
  exact (Option.some.inj hdigits).symm

/-- The options and the location say all that there is to say of a breakpoint. -/
theorem eq_of_optionParts_eq (hparts : request.optionParts = other.optionParts)
    (hlocation : request.location = other.location) : request = other := by
  obtain ⟨htemporary, hhardware, hforce, hcondition, hcount, hthread, -⟩ :
      _ ∧ _ ∧ _ ∧ _ ∧ _ ∧ _ ∧ _ := by
    simpa only [optionParts, List.cons.injEq] using hparts
  have hnumber : Function.Injective (Option.map (toString : Nat → String)) :=
    Option.map_injective toString_injective
  cases request
  cases other
  simp only [mk.injEq]
  exact ⟨hlocation, valued_injective _ hcondition, switched_injective _ htemporary,
    switched_injective _ hhardware, switched_injective _ hforce,
    hnumber (valued_injective _ hcount), hnumber (valued_injective _ hthread)⟩

/-- Nothing is written between two options, so the options tell what is written for each. -/
theorem eq_of_options_eq (hoptions : request.options = other.options)
    (hlocation : request.location = other.location) : request = other := by
  have heq : request.optionParts.flatten ++ [] = other.optionParts.flatten ++ [] := by
    rw [← options_eq, ← options_eq, hoptions]
  have hparts := (eq_of_fills (by decide) (fills_optionParts request) (fills_optionParts other)
    (by simp) (by simp) heq).1
  exact eq_of_optionParts_eq hparts hlocation

/-! ### The location -/

/-- What is written after the options: the location, perhaps behind two hyphens. -/
def target (request : BreakRequest) : List String :=
  (if (Request.breakInsert request).command.needsSeparator then ["--"] else []) ++
    request.location.toList

theorem arguments_eq (request : BreakRequest) :
    (Request.breakInsert request).command.arguments =
      request.optionParts.flatten ++ request.target := by
  rw [← options_eq]
  exact List.append_assoc _ _ _

/-- Two hyphens are written behind options and in front of another hyphen. -/
theorem needsSeparator_eq (request : BreakRequest) :
    (Request.breakInsert request).command.needsSeparator =
      (!request.options.isEmpty &&
        request.location.any fun location ↦ location.toList.head? = some '-') := by
  cases hlocation : request.location <;>
    simp [Request.command, Request.parts, Command.plain, Command.needsSeparator, hlocation]

theorem getLast?_target (request : BreakRequest) : request.target.getLast? = request.location := by
  rw [target, needsSeparator_eq]
  cases request.location with
  | none => simp
  | some location => simp [List.getLast?_append]

/-- A location that begins with a hyphen and has no options in front of it. -/
def Exposed (request : BreakRequest) (location : String) : Prop :=
  request.options = [] ∧ request.location = some location ∧ location.toList.head? = some '-'

/-- Unless it is exposed, a location is not written so that it begins as a flag does. -/
theorem notMem_of_head?_target (hexposed : ∀ location, ¬ request.Exposed location)
    {argument : String} (hhead : request.target.head? = some argument) :
    argument ∉ slots.map Prod.fst := by
  have hflags : ∀ flag ∈ slots.map Prod.fst, flag.toList.head? = some '-' := by decide
  rw [target] at hhead
  split_ifs at hhead with hapart
  · cases hhead
    decide
  · rw [List.nil_append, Option.head?_toList] at hhead
    intro hmem
    have hhyphen := hflags _ hmem
    refine hexposed argument ⟨?_, hhead, hhyphen⟩
    simpa [needsSeparator_eq, hhead, hhyphen] using hapart

/-- Breakpoints whose locations are not exposed are told apart by their arguments. -/
theorem eq_of_arguments_eq (hrequest : ∀ location, ¬ request.Exposed location)
    (hother : ∀ location, ¬ other.Exposed location)
    (h : request.optionParts.flatten ++ request.target =
      other.optionParts.flatten ++ other.target) :
    request = other := by
  obtain ⟨hparts, htarget⟩ := eq_of_fills (by decide) (fills_optionParts request)
    (fills_optionParts other) (fun _ ↦ notMem_of_head?_target hrequest)
    (fun _ ↦ notMem_of_head?_target hother) h
  refine eq_of_optionParts_eq hparts ?_
  rw [← getLast?_target request, htarget, getLast?_target]

/-! ### Requests that are written alike -/

/-- The options of a breakpoint that take no value. -/
inductive Switch
  | temporary | hardware | force
  deriving DecidableEq

/-- The flag of an option. -/
def Switch.flag : Switch → String
  | temporary => "-t"
  | hardware => "-h"
  | force => "-f"

/-- A breakpoint of which nothing is said but one option. -/
def only (switch : Switch) : BreakRequest :=
  ⟨none, none, switch = .temporary, switch = .hardware, switch = .force, none, none⟩

/-- The first request is for a location alone that is spelled as an option, and the second one for
this option alone. -/
def Mistaken (request other : BreakRequest) : Prop :=
  ∃ switch : Switch, request = atLocation switch.flag ∧ other = only switch

theorem arguments_of_exposed (h : request.Exposed location) :
    request.optionParts.flatten ++ request.target = [location] := by
  obtain ⟨hoptions, hlocation, -⟩ := h
  rw [← options_eq, target, needsSeparator_eq, hlocation, hoptions]
  rfl

/-- An exposed location is found in the arguments of another request only as the flag of an
option. -/
theorem mistaken_of_exposed (hrequest : request.Exposed location)
    (hother : ∀ location, ¬ other.Exposed location)
    (h : [location] = other.optionParts.flatten ++ other.target) : Mistaken request other := by
  rcases List.singleton_eq_append_iff.mp h with ⟨hnone, htarget⟩ | ⟨hflag, htarget⟩
  · -- Without options the other request has the same location, and it is exposed as well.
    have hlocation := getLast?_target other
    rw [htarget] at hlocation
    rw [← options_eq] at hnone
    exact absurd ⟨hnone, hlocation.symm, hrequest.2.2⟩ (hother location)
  · have hslot : (location, 0) ∈ slots := mem_of_fills_singleton (fills_optionParts other) hflag
    obtain ⟨switch, rfl⟩ : ∃ switch : Switch, location = switch.flag := by
      simp only [slots, List.mem_cons, Prod.mk.injEq] at hslot
      rcases hslot with ⟨rfl, -⟩ | ⟨rfl, -⟩ | ⟨rfl, -⟩ | hvalued
      · exact ⟨.temporary, rfl⟩
      · exact ⟨.hardware, rfl⟩
      · exact ⟨.force, rfl⟩
      · simp at hvalued
    refine ⟨switch, eq_of_options_eq hrequest.1 hrequest.2.1, ?_⟩
    refine eq_of_arguments_eq hother (fun location hexposed ↦ ?_) ?_
    · cases hexposed.2.1
    · rw [← h]
      cases switch <;> rfl

/-- Two requests for breakpoints are written alike under a token exactly if they are the same, or
one is for a location alone that is spelled like an option without a value, and the other for this
option alone. -/
theorem render_eq_iff (request other : BreakRequest) (token : Token) :
    (Request.breakInsert request).command.render token =
        (Request.breakInsert other).command.render token ↔
      request = other ∨ Mistaken request other ∨ Mistaken other request := by
  constructor
  · intro h
    have hnamed : Command.IsOperation "-break-insert".toList :=
      Request.isOperation_of_isNamed (by decide)
    have hoperation : ∀ request, Command.IsOperation
        (Request.breakInsert request).command.operation.toList := fun _ ↦ hnamed
    have heq := (Command.arguments_eq_of_render_eq (hoperation request) (hoperation other) rfl rfl
      h).2
    rw [arguments_eq, arguments_eq] at heq
    by_cases hrequest : ∃ location, request.Exposed location <;>
      by_cases hother : ∃ location, other.Exposed location
    · obtain ⟨location, hrequest⟩ := hrequest
      obtain ⟨location', hother⟩ := hother
      rw [arguments_of_exposed hrequest, arguments_of_exposed hother] at heq
      refine .inl (eq_of_options_eq (hrequest.1.trans hother.1.symm) ?_)
      rw [hrequest.2.1, hother.2.1, List.singleton_inj.mp heq]
    · obtain ⟨location, hrequest⟩ := hrequest
      rw [arguments_of_exposed hrequest] at heq
      exact .inr (.inl (mistaken_of_exposed hrequest (not_exists.mp hother) heq))
    · obtain ⟨location, hother⟩ := hother
      rw [arguments_of_exposed hother] at heq
      exact .inr (.inr (mistaken_of_exposed hother (not_exists.mp hrequest) heq.symm))
    · exact .inl (eq_of_arguments_eq (not_exists.mp hrequest) (not_exists.mp hother) heq)
  · have halike : ∀ switch : Switch,
        (Request.breakInsert (atLocation switch.flag)).command.body =
          (Request.breakInsert (only switch)).command.body := by
      intro switch
      cases switch <;> rfl
    rintro (rfl | ⟨switch, rfl, rfl⟩ | ⟨switch, rfl, rfl⟩)
    · rfl
    · rw [Command.render, Command.render, halike]
    · rw [Command.render, Command.render, halike]

/-- A breakpoint at the location `-t` and a temporary one without a location are written alike. -/
theorem not_always_told_apart :
    ¬ ∀ (request other : BreakRequest) (token : Token),
      (Request.breakInsert request).command.render token =
        (Request.breakInsert other).command.render token → request = other := by
  intro h
  have halike : (Request.breakInsert (atLocation "-t")).command.render 1 =
      (Request.breakInsert (only .temporary)).command.render 1 := by decide
  exact absurd (h (atLocation "-t") (only .temporary) 1 halike) (by decide)

end BreakRequest

end DebugLink
