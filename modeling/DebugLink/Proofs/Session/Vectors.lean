import DebugLink.Proofs.Session.Listing
import DebugLink.Proofs.Watch.Lengths

/-!
Vectors of scalar type. A watch on a vector asks for its length and, if there is anything to show,
for an array of its first elements. The debugger lists the elements in whatever order it likes; they
are sorted by their positions (`Session.mergeSort_childIndex`), so the watch decodes to the elements
in the order of the vector. A length that is no positive number makes an empty list, and nothing
else is asked for (`Session.addWatch_vector`).
-/

set_option autoImplicit false

namespace DebugLink

/-- Whether objects are the elements of a vector of scalar type: each has its position as its
expression. -/
structure Elements (elements : List Variable) : Prop where
  positions : elements.map Variable.expression = (List.range elements.length).map toString
  scalar : ∀ v ∈ elements, v.scalar?.isSome

namespace Informant

/-- Whether a debugger shows a vector and its length. -/
structure ShowsVector (informant : Informant) (expression : String) (base length : Variable) :
    Prop where
  shown : informant.replies.object expression = .ok base
  isVector : base.type.map Shape.classify = some .vector
  measured : informant.replies.object (Expression.vectorLength expression) = .ok length

/-- Whether a debugger lists elements of a vector as the children of an array of just so many. -/
structure ListsArray (informant : Informant) (expression : String) (array : Variable)
    (listed : List Variable) : Prop where
  shown : informant.replies.object (Expression.vectorArray expression listed.length) = .ok array
  listing : informant.listing array.name = .ok listed

/-- Whether a debugger shows a vector with the given elements and lists the first ones in some
order, as many as the limit says, all objects under different names. Where there are none it need
not have an array. -/
structure ShowsElements (informant : Informant) (limit : Nat) (expression : String)
    (elements listed : List Variable) : Prop where
  order : listed.Perm (elements.take limit)
  shown : ∃ base length, informant.ShowsVector expression base length ∧
    length.count? = some (elements.length : Int) ∧
      (listed ≠ [] → ∃ array, informant.ListsArray expression array listed ∧
        (base.name :: length.name :: array.name :: listed.map Variable.name).Nodup)

end Informant

/-! ### Positions -/

namespace Elements

variable {elements : List Variable}

theorem take (h : Elements elements) (limit : Nat) : Elements (elements.take limit) where
  positions := by
    rw [List.map_take, h.positions, ← List.map_take, List.take_range, List.length_take]
  scalar v hv := h.scalar v (List.mem_of_mem_take hv)

end Elements

namespace Session

open Expression

variable {informant : Informant} {expression : String} {base length array v : Variable}
  {elements listed : List Variable} {limit depth : Nat} {list : List String}
  {trace : List Exchange} {s : Session}

theorem childIndex_of_position {i : Nat} (h : v.expression = toString i) (hi : i < UInt64.size) :
    childIndex v = i := by
  rw [childIndex, h, Numeral.unsigned?_toString, if_pos hi, Option.getD_some]

/-- Whatever the order in which elements are listed, sorting brings them into that of the vector. -/
theorem mergeSort_childIndex (h : Elements elements) (hfits : elements.length < UInt64.size)
    (horder : listed.Perm elements) :
    listed.mergeSort (fun a b ↦ childIndex a ≤ childIndex b) = elements := by
  have hindices : elements.map childIndex = List.range elements.length := by
    refine List.ext_getElem (by simp) fun i hi _ ↦ ?_
    have hposition := congrArg (·[i]?) h.positions
    simp only [List.length_map] at hi
    simp only [List.getElem?_map, List.getElem?_eq_getElem hi, List.getElem?_range hi,
      Option.map_some, Option.some.injEq] at hposition
    simp [childIndex_of_position hposition (hi.trans hfits)]
  have hincreasing : elements.Pairwise fun a b ↦ childIndex a < childIndex b := by
    rw [← List.pairwise_map (f := childIndex) (R := (· < ·)), hindices]
    exact List.pairwise_lt_range
  have hsorted : (listed.mergeSort fun a b ↦ childIndex a ≤ childIndex b).Pairwise
      fun a b ↦ childIndex a ≤ childIndex b :=
    (List.pairwise_mergeSort (fun _ _ _ hab hbc ↦ decide_eq_true
      ((of_decide_eq_true hab).trans (of_decide_eq_true hbc)))
      (fun a b ↦ by simpa using Nat.le_total (childIndex a) (childIndex b)) _).imp of_decide_eq_true
  have hperm := (List.mergeSort_perm listed fun a b ↦ childIndex a ≤ childIndex b).trans horder
  refine List.Perm.eq_of_pairwise (fun a b ha hb hab hba ↦ ?_) hsorted
    (hincreasing.imp Nat.le_of_lt) hperm
  -- Two elements with the same position are the same.
  have hdistinct : (elements.map childIndex).Nodup := hindices ▸ List.nodup_range
  exact List.inj_on_of_nodup_map hdistinct (hperm.mem_iff.mp ha) hb (Nat.le_antisymm hab hba)

/-! ### Building -/

/-- The full expression of an element. -/
def elementPath (expression : String) (child : Variable) : String :=
  child.pathExpression.getD
    (grouped expression ++ "._M_impl._M_start[" ++ child.expression ++ "]")

/-- Elements of scalar type take no further objects. -/
theorem buildElements_of_scalar (h : ∀ v ∈ elements, v.scalar?.isSome) :
    buildElements (build limit (depth + 1)) expression elements =
      pure (elements.map fun v ↦ v.watch (elementPath expression v)) := by
  induction elements with
  | nil => rfl
  | cons v rest ih =>
    obtain ⟨hv, hrest⟩ := List.forall_mem_cons.mp h
    rw [buildElements, build_of_scalar hv, ih hrest]
    rfl

theorem ensures_createShown (hobject : informant.replies.object expression = .ok v)
    (list : List String) (trace : List Exchange) (s : Session) :
    Keeping.Ensures informant.responder (createTracked expression) list trace s
      fun result _ trace' s' ↦ result = .ok v ∧ s'.objects = s.objects.insert v ∧
        asked trace' = asked trace ++ [expression] := by
  refine (ensures_createTracked_of_spokenBy informant.replies
    (informant.spokenBy_responder trace expression) list s).mono ?_
  rintro result _ trace' s' ⟨hresult, hasks⟩
  exact ⟨hresult.trans hobject, hasks.stored v hobject, hasks.asked⟩

/-- The decoder of a vector that is shown: its elements in their order, each with a watch. -/
theorem ensures_buildVector (h : Elements elements) (hfits : elements.length < UInt64.size)
    (hlength : informant.replies.object (vectorLength expression) = .ok length)
    (hcount : elementCount limit length.value = elements.length)
    (horder : listed.Perm elements) (hne : listed ≠ [])
    (hlists : informant.ListsArray expression array listed) :
    Keeping.Ensures informant.responder
      (buildVector (build limit (depth + 1)) limit expression) list trace s
      fun result _ _ s' ↦ result = .ok (.vector length.name (some array.name)
          (elements.map fun v ↦ v.watch (elementPath expression v))) ∧
        s'.objects =
          ((s.objects.insert length).insert array).addChildren array.name listed := by
  refine Keeping.ensures_bind (ensures_createShown hlength list trace s) ?_ (by simp)
  rintro _ list₁ trace₁ s₁ ⟨⟨⟩, hobjects₁, -⟩
  have hsome : elements.length ≠ 0 := by
    rw [← horder.length_eq]
    exact mt List.length_eq_zero_iff.mp hne
  dsimp only
  rw [hcount, if_neg hsome, ← horder.length_eq]
  refine Keeping.ensures_bind (ensures_createShown hlists.shown list₁ trace₁ s₁) ?_ (by simp)
  rintro _ list₂ trace₂ s₂ ⟨⟨⟩, hobjects₂, -⟩
  rw [hobjects₁] at hobjects₂
  have hstored : s₂.objects.get? array.name = some array := by
    rw [hobjects₂, VariableTable.get?_insert, if_pos rfl]
  refine Keeping.ensures_bind (Keeping.ensures_inBuild (ensures_listChildren hlists.listing hstored
    (Replies.newborn_of_object hlists.shown).2)) ?_ (by simp)
  rintro _ _ trace₃ s₃ ⟨-, ⟨⟩, hobjects₃⟩
  rw [mergeSort_childIndex h hfits horder, buildElements_of_scalar h.scalar]
  exact Keeping.ensures_pure ⟨rfl, hobjects₂ ▸ hobjects₃⟩

/-- Where there are no elements to show no array is asked for. -/
theorem ensures_buildVector_of_empty
    (hlength : informant.replies.object (vectorLength expression) = .ok length)
    (hcount : elementCount limit length.value = 0) :
    Keeping.Ensures informant.responder
      (buildVector (build limit (depth + 1)) limit expression) list trace s
      fun result _ trace' s' ↦ result = .ok (.vector length.name none []) ∧
        s'.objects = s.objects.insert length ∧
        asked trace' = asked trace ++ [vectorLength expression] := by
  refine Keeping.ensures_bind (ensures_createShown hlength list trace s) ?_ (by simp)
  rintro _ list₁ trace₁ s₁ ⟨⟨⟩, hobjects, hasked⟩
  dsimp only
  rw [hcount, if_pos rfl]
  exact Keeping.ensures_pure ⟨rfl, hobjects, hasked⟩

/-- A watch on an object of vector type has the decoder that is built for the vector. -/
theorem ensures_buildFrom_vector {P : Decoder → List Exchange → Session → Prop}
    (h : informant.ShowsVector expression base length)
    (hdecoder : ∀ list₁ trace₁ s₁, s₁.objects = s.objects.insert base →
      asked trace₁ = asked trace ++ [expression] →
        Keeping.Ensures informant.responder
          (buildVector (build limit (depth + 1)) limit expression) list₁ trace₁ s₁
          fun result _ trace' s' ↦ ∃ decoder, result = .ok decoder ∧ P decoder trace' s') :
    Keeping.Ensures informant.responder (buildFrom (build limit (depth + 2)) expression) list
      trace s fun result _ trace' s' ↦
        ∃ decoder, result = .ok ⟨base.name, expression, decoder⟩ ∧ P decoder trace' s' := by
  refine Keeping.ensures_bind (ensures_createShown h.shown list trace s) ?_ (by simp)
  rintro _ list₁ trace₁ s₁ ⟨⟨⟩, hobjects, hasked⟩
  simp only [build, h.isVector, Option.getD_some]
  refine Keeping.ensures_bind (hdecoder list₁ trace₁ s₁ hobjects hasked) ?_ (by simp)
  rintro decoder _ trace₂ s₂ ⟨_, ⟨⟩, hP⟩
  exact Keeping.ensures_pure ⟨decoder, rfl, hP⟩

/-- A watch that can be built is registered, and then its value can be had. -/
theorem ensures_addWatch {responder : Responder} {P : Native → List Exchange → Prop}
    (h : Keeping.Ensures responder (buildFrom (build s.options.maxElements depth) expression) []
      trace s fun result _ trace' s' ↦ ∃ w, result = .ok w ∧ P (w.decode s'.objects) trace') :
    (addWatch depth expression).run.Ensures responder (fun result trace' s' ↦
      ∃ id value, result = .ok id ∧ s'.watchValue? id = some value ∧ P value trace') trace s := by
  refine Operation.ensures_bind_lift (P := fun limit trace' s' ↦ limit = s.options.maxElements ∧
    trace' = trace ∧ s' = s) (show Task.Ensures _ _ (Task.query _) _ _ from ⟨rfl, rfl, rfl⟩) ?_
  rintro _ _ _ ⟨rfl, rfl, rfl⟩
  refine Operation.ensures_bind_lift h ?_
  rintro ⟨_, created⟩ trace' s' ⟨w, ⟨⟩, hP⟩
  exact ⟨s'.nextWatch, w.decode s'.objects, rfl, s'.watchValue?_registerWatch w, hP⟩

/-! ### Decoding -/

/-- A vector decodes to its elements, as many as its length says, if they are stored. -/
theorem decode_vector {table : VariableTable} {var length : String} {array : Option String}
    (hget : table.get? var = some v) (hscope : v.inScope)
    (hstored : ∀ v ∈ elements, table.get? v.name = some v ∧ v.inScope) :
    (Watch.mk var expression (.vector length array
      (elements.map fun v ↦ v.watch (elementPath expression v)))).decode table =
        .list ((elements.map Variable.native).take (table.countOf length)) := by
  unfold Watch.decode
  rw [hget]
  dsimp only
  rw [if_pos hscope]
  unfold Watch.decodeWith
  rw [Watch.decodeAll_eq_map, List.map_map]
  have hvalues : ∀ v ∈ elements,
      (Watch.decode table ∘ fun v ↦ v.watch (elementPath expression v)) v = v.native :=
    fun v hv ↦ Watch.decode_watch (hstored v hv).1 (hstored v hv).2 _
  rw [List.map_congr_left hvalues]

/-- Where there are no elements to show the value is the empty list, and nothing but the vector and
its length is asked for. -/
theorem ensures_addWatch_of_empty (depth : Nat) (trace : List Exchange)
    (hvector : informant.ShowsVector expression base length)
    (hcount : elementCount s.options.maxElements length.value = 0) :
    (addWatch (depth + 2) expression).run.Ensures informant.responder (fun result trace' s' ↦
      ∃ id, result = .ok id ∧ s'.watchValue? id = some (.list []) ∧
        asked trace' = asked trace ++ [expression, vectorLength expression]) trace s := by
  refine (ensures_addWatch (P := fun value trace' ↦ value = .list [] ∧
    asked trace' = asked trace ++ [expression, vectorLength expression])
    ((ensures_buildFrom_vector hvector (P := fun decoder trace' s' ↦
      decoder = .vector length.name none [] ∧
        s'.objects = (s.objects.insert base).insert length ∧
        asked trace' = asked trace ++ [expression, vectorLength expression]) ?_).mono ?_)).mono
    fun _ _ _ ⟨id, _, hid, hvalue, hempty, hasked⟩ ↦ ⟨id, hid, hempty ▸ hvalue, hasked⟩
  · intro list₁ trace₁ s₁ hobjects hasked
    refine (ensures_buildVector_of_empty hvector.measured hcount).mono ?_
    rintro _ _ trace₂ s₂ ⟨rfl, hobjects₂, hasked₂⟩
    refine ⟨_, rfl, rfl, hobjects ▸ hobjects₂, ?_⟩
    rw [hasked₂, hasked, List.append_assoc]
    rfl
  · rintro _ _ trace' s' ⟨_, rfl, rfl, hobjects, hasked⟩
    -- The two objects may even have the same name.
    have hget : ∃ v, s'.objects.get? base.name = some v ∧ v.inScope := by
      rw [hobjects, VariableTable.get?_insert, VariableTable.get?_insert, if_pos rfl]
      split_ifs
      · exact ⟨length, rfl, (Replies.newborn_of_object hvector.measured).1⟩
      · exact ⟨base, rfl, (Replies.newborn_of_object hvector.shown).1⟩
    obtain ⟨v, hv, hscope⟩ := hget
    have hvalue : (Watch.mk base.name expression (.vector length.name none
        (([] : List Variable).map fun v ↦ v.watch (elementPath expression v)))).decode s'.objects =
          .list (([].map Variable.native).take (s'.objects.countOf length.name)) :=
      decode_vector hv hscope (List.forall_mem_nil _)
    exact ⟨_, rfl, hvalue.trans (by rw [List.map_nil, List.take_nil]), hasked⟩

/-- Where all names are different the children of the array hide neither each other nor the vector
and its length. -/
theorem stored_of_distinct (table : VariableTable)
    (hnames : (base.name :: length.name :: array.name :: listed.map Variable.name).Nodup) :
    let stored := (((table.insert base).insert length).insert array).addChildren array.name listed
    stored.get? base.name = some base ∧ stored.get? length.name = some length ∧
      ∀ v ∈ listed, stored.get? v.name = some v := by
  obtain ⟨hbase, hmore⟩ := List.nodup_cons.mp hnames
  obtain ⟨hlength, hchildren⟩ := List.nodup_cons.mp hmore
  obtain ⟨hne, hbase⟩ := not_or.mp (mt List.mem_cons.mpr hbase)
  refine ⟨?_, ?_, fun v hv ↦ VariableTable.get?_addChildren_of_mem hchildren hv⟩
  · rw [VariableTable.get?_addChildren_of_notMem hbase, VariableTable.get?_insert,
      if_neg (List.ne_of_not_mem_cons hbase), VariableTable.get?_insert, if_neg hne,
      VariableTable.get?_insert, if_pos rfl]
  · rw [VariableTable.get?_addChildren_of_notMem hlength, VariableTable.get?_insert,
      if_neg (List.ne_of_not_mem_cons hlength), VariableTable.get?_insert, if_pos rfl]

/-- The elements that are listed are the value, in the order of the vector. -/
theorem ensures_addWatch_of_listed (h : Elements elements) (hfits : elements.length < UInt64.size)
    (hvector : informant.ShowsVector expression base length)
    (hcount : elementCount s.options.maxElements length.value = elements.length)
    (horder : listed.Perm elements) (hne : listed ≠ [])
    (hlists : informant.ListsArray expression array listed)
    (hnames : (base.name :: length.name :: array.name :: listed.map Variable.name).Nodup) :
    (addWatch (depth + 2) expression).run.Ensures informant.responder (fun result _ s' ↦
      ∃ id, result = .ok id ∧ s'.watchValue? id = some (.list (elements.map Variable.native)))
        trace s := by
  refine (ensures_addWatch (P := fun value _ ↦ value = .list (elements.map Variable.native))
    ((ensures_buildFrom_vector hvector (P := fun decoder _ s' ↦
      decoder = .vector length.name (some array.name)
          (elements.map fun v ↦ v.watch (elementPath expression v)) ∧
        s'.objects = (((s.objects.insert base).insert length).insert array).addChildren array.name
          listed) ?_).mono ?_)).mono
    fun _ _ _ ⟨id, _, hid, hvalue, helements⟩ ↦ ⟨id, hid, helements ▸ hvalue⟩
  · intro list₁ trace₁ s₁ hobjects _
    refine (ensures_buildVector h hfits hvector.measured hcount horder hne hlists).mono ?_
    rintro _ _ trace₂ s₂ ⟨rfl, hobjects₂⟩
    exact ⟨_, rfl, rfl, hobjects ▸ hobjects₂⟩
  · rintro _ _ _ s' ⟨_, rfl, rfl, hobjects⟩
    obtain ⟨hbase, hlength, hchildren⟩ := stored_of_distinct s.objects hnames
    rw [← hobjects] at hbase hlength hchildren
    have hstored : ∀ v ∈ elements, s'.objects.get? v.name = some v ∧ v.inScope := by
      intro v hv
      have hlisted := horder.mem_iff.mpr hv
      exact ⟨hchildren v hlisted, Informant.inScope_of_listing hlists.listing v hlisted⟩
    have hall : elements.length ≤ s'.objects.countOf length.name := by
      rw [VariableTable.countOf_eq hlength, ← hcount, elementCount_eq]
      exact Nat.min_le_left _ _
    refine ⟨_, rfl, ?_⟩
    rw [decode_vector hbase (Replies.newborn_of_object hvector.shown).1 hstored,
      List.take_of_length_le (by simpa using hall)]

/-- A vector that is shown is watched: its value is made of the first elements in order, whatever
the order in which the debugger lists them. -/
theorem ensures_addWatch_vector (h : Elements elements)
    (hshows : informant.ShowsElements s.options.maxElements expression elements listed) :
    (addWatch (depth + 2) expression).run.Ensures informant.responder (fun result _ s' ↦
      ∃ id, result = .ok id ∧ s'.watchValue? id =
        some (.list ((elements.take s.options.maxElements).map Variable.native))) [] s := by
  obtain ⟨horder, base, length, hvector, hlength, harray⟩ := hshows
  have hcount : elementCount s.options.maxElements length.value =
      (elements.take s.options.maxElements).length := by
    rw [elementCount_eq, hlength, List.length_take, Nat.min_comm]
    rfl
  by_cases hne : listed = []
  · subst hne
    have hnone := horder.nil_eq.symm
    refine (ensures_addWatch_of_empty depth [] hvector (by rw [hcount, hnone]; rfl)).mono ?_
    rintro _ _ _ ⟨id, hid, hvalue, -⟩
    exact ⟨id, hid, by rw [hvalue, hnone]; rfl⟩
  · obtain ⟨array, hlists, hnames⟩ := harray hne
    have hfits : (elements.take s.options.maxElements).length < UInt64.size := by
      have hle := Variable.count?_le hlength
      have hbound : Int64.maxValue.toInt < UInt64.size := by decide
      simp only [List.length_take]
      omega
    exact ensures_addWatch_of_listed (h.take _) hfits hvector hcount horder hne hlists hnames

/-- Watching a vector of scalar type. The value is made of its first elements in the order of the
vector, as many as the limit says, whatever the order in which the debugger lists them, and so it is
the same for any two orders. A length that is not a positive number of 64 bits with its sign, or no
number at all, makes an empty list, and no object is created for an array. -/
theorem addWatch_vector (expression : String) (depth : Nat) :
    (∀ (informant : Informant) (elements listed : List Variable) (s : Session),
      Elements elements →
      informant.ShowsElements s.options.maxElements expression elements listed →
        (addWatch (depth + 2) expression).run.Ensures informant.responder (fun result _ s' ↦
          ∃ id, result = .ok id ∧ s'.watchValue? id =
            some (.list ((elements.take s.options.maxElements).map Variable.native))) [] s) ∧
    (∀ (informant informant' : Informant) (elements listed listed' : List Variable)
      (s s' s₁ s₁' : Session) trace trace' id id', Elements elements →
      s.options.maxElements = s'.options.maxElements →
      informant.ShowsElements s.options.maxElements expression elements listed →
      informant'.ShowsElements s'.options.maxElements expression elements listed' →
      (addWatch (depth + 2) expression).run.Runs s trace (.ok id) s₁ →
      (addWatch (depth + 2) expression).run.Runs s' trace' (.ok id') s₁' →
      informant.responder.Answers [] trace → informant'.responder.Answers [] trace' →
        s₁.watchValue? id = s₁'.watchValue? id') ∧
    ∀ (informant : Informant) (base length : Variable) (s : Session),
      informant.ShowsVector expression base length →
      (length.CountsNothing ∨
        ∃ z : Int, length.value = some (toString z) ∧ (z ≤ 0 ∨ Int64.maxValue.toInt < z)) →
        (addWatch (depth + 2) expression).run.Ensures informant.responder
          (fun result trace s' ↦ ∃ id, result = .ok id ∧ s'.watchValue? id = some (.list []) ∧
            asked trace = [expression, vectorLength expression]) [] s := by
  refine ⟨fun _ _ _ _ h hshows ↦ ensures_addWatch_vector h hshows, ?_, ?_⟩
  · intro informant informant' elements listed listed' s s' s₁ s₁' trace trace' id id' h hlimit
      hshows hshows' hrun hrun' hanswers hanswers'
    obtain ⟨_, hid, hvalue⟩ := (ensures_addWatch_vector h hshows).of_runs hrun hanswers
    obtain ⟨_, hid', hvalue'⟩ := (ensures_addWatch_vector h hshows').of_runs hrun' hanswers'
    rw [Except.ok.inj hid, Except.ok.inj hid', hvalue, hvalue', hlimit]
  · intro informant base length s hvector hlength
    have hnothing : length.CountsNothing :=
      hlength.elim id fun ⟨z, hvalue, hz⟩ ↦ Variable.countsNothing_of_decimal hvalue hz
    have hcount : elementCount s.options.maxElements length.value = 0 := by
      rw [elementCount_eq, hnothing.toNat_eq, Nat.zero_min]
    simpa only [asked_nil, List.nil_append] using
      ensures_addWatch_of_empty depth [] hvector hcount

/-- The answer that lists elements of an array of numbers in a given order. Each is ten times its
position. -/
def listedAs (order : List Nat) : Except SessionError Response :=
  .ok ⟨1, "done", NamedTable.ofList [("children", .results (order.map fun i ↦
    ("child", .tuple (NamedTable.ofList [("name", .text ("var3." ++ toString i)),
      ("exp", .text (toString i)), ("type", .text "int"),
      ("value", .text (toString (10 * i)))]))))]⟩

/-- A debugger that shows a vector with a given length and lists two of its elements in a given
order. -/
def shuffled (length : String) (order : List Nat) : Informant := fun command ↦
  ([((Request.varCreate none none "v").command,
      described "var1" "std::vector<int, std::allocator<int> >" "\x7b...\x7d"),
    ((Request.varCreate none none (vectorLength "v")).command, described "var2" "long" length),
    ((Request.varCreate none none (vectorArray "v" 2)).command, described "var3" "int [2]" "[2]"),
    ((Request.varListChildren "var3" .allValues).command, listedAs order)].lookup command).getD
      (answered [])

/-- An element of the vector. -/
def tenfold (i : Nat) : Variable :=
  ⟨"var3." ++ toString i, toString i, some "int", some (toString (10 * i)), 0, true, none, none⟩

theorem elements_tenfold (n : Nat) : Elements ((List.range n).map tenfold) where
  positions := by
    rw [List.map_map, List.length_map, List.length_range]
    rfl
  scalar v hv := by
    obtain ⟨i, -, rfl⟩ := List.mem_map.mp hv
    rw [Variable.scalar?_of_int rfl]
    rfl

theorem classify_vector :
    Shape.classify "std::vector<int, std::allocator<int> >" = .vector := by
  have hvector : (match Shape.classify "std::vector<int, std::allocator<int> >" with
      | .vector => true
      | _ => false) = true := by
    decide +kernel
  cases hshape : Shape.classify "std::vector<int, std::allocator<int> >" <;>
    rw [hshape] at hvector <;> first | rfl | nomatch hvector

theorem showsVector_shuffled (length : String) (order : List Nat) :
    (shuffled length order).ShowsVector "v"
      ⟨"var1", "v", some "std::vector<int, std::allocator<int> >", some "\x7b...\x7d", 0, true,
        none, none⟩
      ⟨"var2", vectorLength "v", some "long", some length, 0, true, none, none⟩ where
  shown := rfl
  isVector := congrArg some classify_vector
  measured := rfl

theorem showsElements_shuffled {order : List Nat} (h : order = [0, 1] ∨ order = [1, 0]) :
    (shuffled "3" order).ShowsElements 2 "v" ((List.range 3).map tenfold) (order.map tenfold) where
  order := by rcases h with rfl | rfl <;> exact List.isPerm_iff.mp (by decide +kernel)
  shown := by
    refine ⟨_, _, showsVector_shuffled "3" order, ?_, fun _ ↦ ⟨⟨"var3", vectorArray "v" 2,
      some "int [2]", some "[2]", 0, true, none, none⟩, ⟨?_, ?_⟩, ?_⟩⟩
    · exact (Variable.count?_of_decimal (z := 3) rfl).trans (if_pos (by decide))
    all_goals rcases h with rfl | rfl
    · rfl
    · rfl
    · rfl
    · rfl
    · decide +kernel
    · decide +kernel

/-- Two debuggers list the first two of three elements, one of them from the back. A third one gives
a length that is out of range. -/
theorem addWatch_vector_of_shuffled : ∃ s trace₁ s₁ id₁ trace₂ s₂ id₂ trace₃ s₃ id₃,
    s.options.maxElements = 2 ∧
    (addWatch 2 "v").run.Runs s trace₁ (.ok id₁) s₁ ∧
    s₁.watchValue? id₁ = some (.list [.int 0, .int 10]) ∧
    (addWatch 2 "v").run.Runs s trace₂ (.ok id₂) s₂ ∧
    s₂.watchValue? id₂ = s₁.watchValue? id₁ ∧
    (addWatch 2 "v").run.Runs s trace₃ (.ok id₃) s₃ ∧ s₃.watchValue? id₃ = some (.list []) ∧
    asked trace₃ = ["v", "(v)._M_impl._M_finish - (v)._M_impl._M_start"] := by
  obtain ⟨hshown, hsame, hempty⟩ := addWatch_vector "v" 0
  let s := start { SessionOptions.standard with maxElements := 2 }
  have hback := showsElements_shuffled (.inr rfl : [1, 0] = [0, 1] ∨ [1, 0] = [1, 0])
  have hfront := showsElements_shuffled (.inl rfl : [0, 1] = [0, 1] ∨ [0, 1] = [1, 0])
  obtain ⟨trace₁, _, s₁, hrun₁, hanswers₁, id₁, rfl, hvalue₁⟩ :=
    (hshown _ _ _ s (elements_tenfold 3) hback).exists_runs
  obtain ⟨trace₂, _, s₂, hrun₂, hanswers₂, id₂, rfl, -⟩ :=
    (hshown _ _ _ s (elements_tenfold 3) hfront).exists_runs
  obtain ⟨trace₃, _, s₃, hrun₃, -, id₃, rfl, hvalue₃, hasked⟩ :=
    (hempty _ _ _ s (showsVector_shuffled "9223372036854775808" [])
      (.inr ⟨Int64.maxValue.toInt + 1, rfl, .inr (by decide)⟩)).exists_runs
  refine ⟨s, trace₁, s₁, id₁, trace₂, s₂, id₂, trace₃, s₃, id₃, rfl, hrun₁, ?_, hrun₂, ?_, hrun₃,
    hvalue₃, hasked.trans (by decide +kernel)⟩
  · have hnative : ∀ i n, Printed.int? (toString (10 * i)) = some n → (tenfold i).native = .int n :=
      fun i n h ↦ Variable.native_of_int rfl h
    rw [hvalue₁]
    show some (Native.list [(tenfold 0).native, (tenfold 1).native]) = _
    rw [hnative 0 0 (by decide +kernel), hnative 1 10 (by decide +kernel)]
  · exact hsame _ _ _ _ _ s s _ _ _ _ _ _ (elements_tenfold 3) rfl hfront hback hrun₂ hrun₁
      hanswers₂ hanswers₁

end Session

end DebugLink
