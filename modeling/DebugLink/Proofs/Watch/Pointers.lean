import DebugLink.Proofs.TypeName.Characters
import DebugLink.Proofs.Watch.Addresses
import DebugLink.Proofs.Watch.Kinship

/-!
Printed pointers with and without their type. A bare address is decoded with what the declared type
points to, which is that type with one star less. From a type in parentheses every star at the end
is taken off, and the first number in base sixteen counts as the address even if it stands inside
the type. So the two agree exactly for pointers of one level whose type holds no such number
(`Watch.decode_cast_eq_iff`).
-/

set_option autoImplicit false

namespace DebugLink

/-! ### The type in parentheses -/

namespace TypeName

/-- The type without the pointers at its end. -/
def withoutPointers (ty : TypeName) : TypeName :=
  ⟨ty.specifiers, ty.path, (ty.declarators.reverse.dropWhile (· = .pointer)).reverse⟩

variable {ty : TypeName}

theorem stem_withoutPointers (ty : TypeName) : ty.withoutPointers.stem = ty.stem := rfl

/-- The markers of a type are those of the type without its pointers, and the pointers. -/
theorem exists_pointers (ty : TypeName) : ∃ stars : List Marker,
    ty.declarators = ty.withoutPointers.declarators ++ stars ∧
      ∀ marker ∈ stars, marker = .pointer := by
  refine ⟨(ty.declarators.reverse.takeWhile (· = .pointer)).reverse, ?_, fun marker hmarker ↦ ?_⟩
  · show ty.declarators = List.reverse _ ++ List.reverse _
    rw [← List.reverse_append, List.takeWhile_append_dropWhile, List.reverse_reverse]
  · have hrun := List.mem_takeWhile_imp (List.mem_reverse.mp hmarker)
    exact of_decide_eq_true hrun

theorem getLast?_withoutPointers (ty : TypeName) :
    ty.withoutPointers.declarators.getLast? ≠ some .pointer := by
  show (List.reverse _).getLast? ≠ _
  rw [List.getLast?_reverse]
  intro hhead
  have hnot := List.head?_dropWhile_not (fun marker ↦ decide (marker = Marker.pointer))
    ty.declarators.reverse
  rw [hhead] at hnot
  simp at hnot

theorem getLast?_stem (h : ty.Spellable) {c : Char} (hc : ty.stem.getLast? = some c) :
    isWhitespace c = false ∧ c ≠ '*' := by
  obtain ⟨d, hd, hend⟩ := (bounded_stem h).2
  obtain rfl : d = c := Option.some.inj (hd.symm.trans hc)
  rcases hend with hword | rfl
  · refine ⟨isWhitespace_of_isWordChar hword, ?_⟩
    rintro rfl
    exact absurd hword (by decide)
  · decide

theorem toList_text_of_ne_nil (h : ty.declarators ≠ []) :
    ty.text.toList = ty.stem ++ ' ' :: ty.declarators.map Marker.char := by
  rw [toList_text, List.isEmpty_eq_false_iff.mpr h]
  rfl

theorem getLast?_declarators (hpointer : ty.isPointer = true) :
    ty.declarators.getLast? = some .pointer :=
  of_decide_eq_true hpointer

theorem declarators_ne_nil (hpointer : ty.isPointer = true) : ty.declarators ≠ [] := by
  intro hnil
  have hlast := getLast?_declarators hpointer
  rw [hnil] at hlast
  cases hlast

/-- The spelling of a pointer ends in a star. -/
theorem getLast?_text (hpointer : ty.isPointer = true) : ty.text.toList.getLast? = some '*' := by
  rw [toList_text_of_ne_nil (declarators_ne_nil hpointer), ← List.singleton_append,
    List.getLast?_append, List.getLast?_append, List.getLast?_map, getLast?_declarators hpointer]
  rfl

/-- Neither white space nor a star ends a spelling without pointers at its end. -/
theorem getLast?_text_withoutPointers (h : ty.Spellable) {c : Char}
    (hc : ty.withoutPointers.text.toList.getLast? = some c) :
    isWhitespace c = false ∧ c ≠ '*' := by
  by_cases hnil : ty.withoutPointers.declarators = []
  · rw [toList_text, hnil, stem_withoutPointers] at hc
    exact getLast?_stem h (by simpa using hc)
  · have hmarker := getLast?_withoutPointers ty
    rw [toList_text_of_ne_nil hnil, ← List.singleton_append, List.getLast?_append,
      List.getLast?_append, List.getLast?_map] at hc
    rw [List.getLast?_eq_some_getLast hnil] at hmarker hc
    cases hlast : ty.withoutPointers.declarators.getLast hnil with
    | pointer => exact absurd (congrArg some hlast) hmarker
    | reference =>
      rw [hlast] at hc
      cases hc
      decide

theorem pointee?_eq_some_iff {pointee : TypeName} : ty.pointee? = some pointee ↔
    ty.isPointer = true ∧ pointee = ⟨ty.specifiers, ty.path, ty.declarators.dropLast⟩ := by
  rw [pointee?]
  split_ifs with hpointer
  · simp [hpointer, eq_comm]
  · simp [hpointer]

/-- Below a pointer of one level there is no pointer left to take off. -/
theorem withoutPointers_eq {pointee : TypeName} (hpointee : ty.pointee? = some pointee)
    (h : pointee.isPointer = false) : ty.withoutPointers = pointee := by
  obtain ⟨hpointer, rfl⟩ := pointee?_eq_some_iff.mp hpointee
  have hlast : ty.declarators.dropLast.getLast? ≠ some .pointer := of_decide_eq_false h
  obtain ⟨front, hfront⟩ := List.getLast?_eq_some_iff.mp (getLast?_declarators hpointer)
  rw [hfront, List.dropLast_concat] at hlast
  have hnone : front.reverse.dropWhile (· = Marker.pointer) = front.reverse := by
    cases hreverse : front.reverse with
    | nil => rfl
    | cons marker others =>
      have hmarker : marker ≠ .pointer := by
        rintro rfl
        exact hlast (by rw [← List.head?_reverse, hreverse]; rfl)
      rw [List.dropWhile_cons_of_neg (by simpa using hmarker)]
  rw [withoutPointers, hfront, List.dropLast_concat, List.reverse_concat,
    List.dropWhile_cons_of_pos (by simp), hnone, List.reverse_reverse]

theorem text_withoutPointers_eq_iff {pointee : TypeName} (hspellable : ty.Spellable)
    (hpointee : ty.pointee? = some pointee) :
    ty.withoutPointers.text = pointee.text ↔ pointee.isPointer = false := by
  refine ⟨fun htext ↦ ?_, fun h ↦ congrArg text (withoutPointers_eq hpointee h)⟩
  rw [Bool.eq_false_iff]
  intro hpointer
  have hlast := getLast?_text hpointer
  rw [← htext] at hlast
  exact (getLast?_text_withoutPointers hspellable hlast).2 rfl

end TypeName

namespace Printed

variable {ty : TypeName}

theorem toList_cast (type value : String) :
    ("(" ++ type ++ ") " ++ value).toList = '(' :: (type.toList ++ ')' :: ' ' :: value.toList) := by
  simp [String.toList_append]

/-- A number that is found ends where no digit of it follows. -/
theorem addressDigits?_append_of_some {front digits : List Char}
    (hfront : addressDigits? front = some digits) {c : Char}
    (hdigit : Numeral.isDigit 16 c = false) (rest : List Char) :
    addressDigits? (front ++ c :: rest) = some digits := by
  have hstop : ∀ d, (c :: rest).head? = some d → Numeral.isDigit 16 d = false := by
    rintro d hd
    cases hd
    exact hdigit
  fun_induction addressDigits? front with
  | case1 tail hnone ih =>
    have hnone' : (tail ++ c :: rest).takeWhile (Numeral.isDigit 16) = [] := by
      rw [Text.takeWhile_append_of_head hstop, hnone]
    rw [← ih hfront]
    show addressDigits? ('0' :: 'x' :: (tail ++ c :: rest)) = _
    rw [addressDigits?.eq_def]
    simp only [hnone']
    rfl
  | case2 tail hfound =>
    have hrun : (tail ++ c :: rest).takeWhile (Numeral.isDigit 16) = digits := by
      rw [Text.takeWhile_append_of_head hstop, Option.some.inj hfront]
    cases digits with
    | nil => exact absurd (Option.some.inj hfront) hfound
    | cons first others => exact addressDigits?_mark hrun
  | case3 d tail hother ih =>
    rw [← ih hfront]
    refine addressDigits?_cons fun hd hhead ↦ ?_
    cases tail with
    | nil => nomatch hfront
    | cons e others =>
      obtain rfl : e = 'x' := Option.some.inj hhead
      exact hother others hd rfl
  | case4 => nomatch hfront

/-- What is left of a spelling when the stars at its end and the space before them are dropped. -/
theorem trimEnd_dropEndWhile_text (h : ty.Spellable) (hpointer : ty.isPointer = true) :
    Text.trimEnd (Text.dropEndWhile (· = '*') ty.text.toList) =
      ty.withoutPointers.text.toList := by
  obtain ⟨stars, hstars, hall⟩ := ty.exists_pointers
  have hrun : ∀ c ∈ stars.map Marker.char, decide (c = '*') = true := by
    intro c hc
    obtain ⟨marker, hmarker, rfl⟩ := List.mem_map.mp hc
    rw [hall marker hmarker]
    rfl
  have htext : ty.text.toList =
      (ty.stem ++ ' ' :: ty.withoutPointers.declarators.map Marker.char) ++
        stars.map Marker.char := by
    rw [TypeName.toList_text_of_ne_nil (TypeName.declarators_ne_nil hpointer), hstars,
      List.map_append, List.append_assoc, List.cons_append]
  rw [htext]
  by_cases hnil : ty.withoutPointers.declarators = []
  · -- Nothing but pointers: the space goes with them.
    have hspace : ∀ c, (ty.stem ++ [' ']).getLast? = some c → decide (c = '*') = false := by
      intro c hc
      rw [List.getLast?_append] at hc
      cases hc
      rfl
    have hstem : ∀ c, ty.stem.getLast? = some c → isWhitespace c = false :=
      fun c hc ↦ (TypeName.getLast?_stem h hc).1
    have hblank : ∀ c ∈ [' '], isWhitespace c = true := List.forall_mem_singleton.mpr (by decide)
    rw [hnil, List.map_nil, Text.dropEndWhile_append hrun hspace, Text.trimEnd,
      Text.dropEndWhile_append hblank hstem, TypeName.toList_text, hnil]
    simp [TypeName.stem_withoutPointers]
  · have hlast := fun c ↦ TypeName.getLast?_text_withoutPointers (c := c) h
    rw [TypeName.toList_text_of_ne_nil hnil, TypeName.stem_withoutPointers] at hlast ⊢
    have hstar := Text.dropEndWhile_append hrun fun c hc ↦ decide_eq_false (hlast c hc).2
    have hnone : ∀ c ∈ ([] : List Char), isWhitespace c = true := by simp
    have hend := Text.dropEndWhile_append hnone fun c hc ↦ (hlast c hc).1
    rw [List.append_nil] at hend
    rw [hstar, Text.trimEnd, hend]

theorem trim_text (h : ty.Spellable) (hpointer : ty.isPointer = true) :
    Text.trim ty.text.toList = ty.text.toList := by
  refine Text.trim_eq_self (fun c hc ↦ ?_) fun c hc ↦ ?_
  · obtain ⟨first, hfirst, hword⟩ := (TypeName.bounded_stem h).1
    rw [TypeName.toList_text, List.head?_append, hfirst] at hc
    cases hc
    exact TypeName.isWhitespace_of_isWordChar hword
  · rw [TypeName.getLast?_text hpointer] at hc
    cases hc
    decide

/-- The type in parentheses before an address is read without the pointers at its end. -/
theorem castType?_cast (h : ty.Everywhere TypeName.Spellable) (hpointer : ty.isPointer = true)
    (address : Address) :
    castType? ("(" ++ ty.text ++ ") " ++ Address.text address) = some ty.withoutPointers.text := by
  obtain ⟨hspellable, -⟩ := id h
  have hrun : ∀ c ∈ ty.text.toList, decide (c ≠ ')') = true := by
    intro c hc
    rw [decide_eq_true_eq]
    rintro rfl
    exact absurd (TypeName.isTypeChar_of_mem_text h ')' hc) (by decide)
  have hstop : ∀ c, (')' :: ' ' :: (Address.text address).toList).head? = some c →
      decide (c ≠ ')') = false := by
    rintro c hc
    cases hc
    rfl
  obtain ⟨htake, hdrop⟩ := Text.run_append hrun hstop
  have hopen (rest : List Char) : Text.trimStart ('(' :: rest) = '(' :: rest := rfl
  unfold castType?
  rw [toList_cast, hopen]
  simp only
  rw [hdrop, htake, trim_text hspellable hpointer]
  show some (String.ofList _) = _
  rw [trimEnd_dropEndWhile_text hspellable hpointer, String.ofList_toList]

theorem castType?_bare (address : Address) : castType? (Address.text address) = none := by
  have htext : (Address.text address).toList = '0' :: 'x' :: Nat.toDigits 16 address.toNat := by
    simp [Address.text, Numeral.hex]
  unfold castType?
  rw [htext]
  rfl

/-- A number in base sixteen inside the type is taken for the address. -/
theorem address?_of_typed (address : Address) (h : addressDigits? ty.text.toList ≠ none) :
    address? ("(" ++ ty.text ++ ") " ++ Address.text address) = address? ty.text := by
  obtain ⟨digits, hdigits⟩ := Option.ne_none_iff_exists'.mp h
  unfold address?
  rw [toList_cast, addressDigits?_cons fun h ↦ absurd h (by decide),
    addressDigits?_append_of_some hdigits (by decide), hdigits]

end Printed

/-! ### Decoding -/

namespace Watch

open Printed

variable {table : VariableTable} {name : String}

theorem decode_pointer {printed : String}
    (h : table.reading? name = some (some printed, true)) (expression pointee : String) :
    decode table ⟨name, expression, .pointer pointee⟩ =
      (pointer? printed pointee).getD (.raw printed) := by
  rw [decode_of_reading? h, decodeWith]
  rfl

/-- A bare address and the same address behind its type, when both are decoded as pointers. The bare
one is a pointer to what the type points to, one level down. The other one is a pointer to the type
without any pointer at its end, if the type holds no number in base sixteen. So they are equal
exactly if there is one level only, and the type holds no such number or the address itself. -/
theorem decode_cast_eq_iff {input : String} {ty pointee : TypeName}
    (hparse : TypeName.parse? input = some ty) (hpointee : ty.pointee? = some pointee)
    (address : Address) (expression fallback : String) {bare cast : String}
    (hbare : table.reading? bare = some (some (Address.text address), true))
    (hcast : table.reading? cast =
      some (some ("(" ++ ty.text ++ ") " ++ Address.text address), true)) :
    decode table ⟨bare, expression, .pointer pointee.text⟩ = .pointer address pointee.text ∧
      (addressDigits? ty.text.toList = none →
        decode table ⟨cast, expression, .pointer fallback⟩ =
          .pointer address ty.withoutPointers.text) ∧
      (decode table ⟨cast, expression, .pointer fallback⟩ =
          decode table ⟨bare, expression, .pointer pointee.text⟩ ↔
        pointee.isPointer = false ∧
          (addressDigits? ty.text.toList = none ∨ address? ty.text = some address)) := by
  have hspellable := TypeName.spellable_of_parse? hparse
  obtain ⟨hlevel, -⟩ := id hspellable
  obtain ⟨hpointer, -⟩ := TypeName.pointee?_eq_some_iff.mp hpointee
  have hread : decode table ⟨bare, expression, .pointer pointee.text⟩ =
      .pointer address pointee.text := by
    have haddress : address? (Address.text address) = some address := by
      simpa using address?_of_cast .none address
    rw [decode_pointer hbare, pointer?, haddress, castType?_bare]
    rfl
  have hreadCast : ∀ found, address? ("(" ++ ty.text ++ ") " ++ Address.text address) = found →
      decode table ⟨cast, expression, .pointer fallback⟩ =
        (found.map fun address ↦ .pointer address ty.withoutPointers.text).getD
          (.raw ("(" ++ ty.text ++ ") " ++ Address.text address)) := by
    rintro found rfl
    rw [decode_pointer hcast, pointer?, castType?_cast hspellable hpointer]
    rfl
  have htext := TypeName.text_withoutPointers_eq_iff hlevel hpointee
  rw [hread]
  cases hdigits : addressDigits? ty.text.toList with
  | none =>
    have hcastRead := hreadCast _ (address?_of_cast (.type ty.text hdigits) address)
    rw [hcastRead]
    refine ⟨rfl, fun _ ↦ rfl, ?_⟩
    simp [htext]
  | some digits =>
    have hcastRead := hreadCast _ (address?_of_typed address (by simp [hdigits]))
    rw [hcastRead]
    refine ⟨rfl, fun h ↦ (nomatch h), ?_⟩
    cases address? ty.text with
    | none => simp
    | some found => simp [htext, and_comm]

/-! ### One level and two -/

/-- Pointers to an object at one address: bare, behind a type of one level, behind one of two
levels, and behind one whose name holds a number. -/
def pointerTable : VariableTable :=
  let object (name type value : String) : Variable :=
    ⟨name, "p", some type, some value, 1, true, none, none⟩
  [object "var1" "point *" "0x602010", object "var2" "point *" "(point *) 0x602010",
    object "var3" "int **" "(int **) 0x602010",
    object "var4" "box0x1f *" "(box0x1f *) 0x602010"].foldl .insert .empty

/-- A type with a plain name and pointers to it is read from its spelling. -/
theorem parse?_pointers {name input : String} {markers : List Marker}
    (hname : TypeName.IsName name) (hinput : TypeName.text ⟨[], [⟨name, none⟩], markers⟩ = input) :
    TypeName.parse? input = some ⟨[], [⟨name, none⟩], markers⟩ := by
  rw [← hinput]
  refine TypeName.parse?_text ?_
  simp [TypeName.everywhere_mk_iff, TypeName.Spellable, TypeName.Worded, TypeName.path,
    TypeName.specifiers, hname]

theorem decode_cast_eq_iff_of_point :
    TypeName.parse? "point *" = some ⟨[], [⟨"point", none⟩], [.pointer]⟩ ∧
      pointerTable.reading? "var1" = some (some "0x602010", true) ∧
      pointerTable.reading? "var2" = some (some "(point *) 0x602010", true) ∧
      decode pointerTable ⟨"var2", "p", .pointer "ignored"⟩ =
        decode pointerTable ⟨"var1", "p", .pointer "point"⟩ := by
  have hparse : TypeName.parse? "point *" = some ⟨[], [⟨"point", none⟩], [.pointer]⟩ :=
    parse?_pointers (by decide +kernel) (by decide +kernel)
  have hbare : pointerTable.reading? "var1" = some (some "0x602010", true) := by decide +kernel
  have hcast : pointerTable.reading? "var2" = some (some "(point *) 0x602010", true) := by
    decide +kernel
  have hagree := (decode_cast_eq_iff hparse rfl 0x602010 "p" "ignored" hbare hcast).2.2
  exact ⟨hparse, hbare, hcast, hagree.mpr ⟨by decide, .inl (by decide +kernel)⟩⟩

/-- Behind `int **` an address points to `int`, not to `int *`, and behind `box0x1f *` it is taken
to be 31. -/
theorem not_always_same_pointer :
    TypeName.parse? "int **" = some ⟨[], [⟨"int", none⟩], [.pointer, .pointer]⟩ ∧
      TypeName.parse? "box0x1f *" = some ⟨[], [⟨"box0x1f", none⟩], [.pointer]⟩ ∧
      (TypeName.pointee? ⟨[], [⟨"int", none⟩], [.pointer, .pointer]⟩).map TypeName.text =
        some "int *" ∧
      decode pointerTable ⟨"var1", "p", .pointer "int *"⟩ = .pointer 0x602010 "int *" ∧
      decode pointerTable ⟨"var3", "p", .pointer "int *"⟩ = .pointer 0x602010 "int" ∧
      decode pointerTable ⟨"var4", "p", .pointer "box0x1f"⟩ = .pointer 0x1f "box0x1f" := by
  have hint : TypeName.parse? "int **" = some ⟨[], [⟨"int", none⟩], [.pointer, .pointer]⟩ :=
    parse?_pointers (by decide +kernel) (by decide +kernel)
  have hbox : TypeName.parse? "box0x1f *" = some ⟨[], [⟨"box0x1f", none⟩], [.pointer]⟩ :=
    parse?_pointers (by decide +kernel) (by decide +kernel)
  have hdecode : ∀ (printed : String) {name pointee found : String} {address : Address},
      pointerTable.reading? name = some (some printed, true) → address? printed = some address →
        (castType? printed).getD pointee = found →
          decode pointerTable ⟨name, "p", .pointer pointee⟩ = .pointer address found := by
    intro printed name pointee found address hreading haddress hfound
    rw [decode_pointer hreading, pointer?, haddress, ← hfound]
    rfl
  refine ⟨hint, hbox, by decide +kernel, ?_, ?_, ?_⟩
  · exact hdecode "0x602010" (by decide +kernel) (by decide +kernel)
      (by decide +kernel)
  · exact hdecode "(int **) 0x602010" (by decide +kernel) (by decide +kernel)
      (by decide +kernel)
  · exact hdecode "(box0x1f *) 0x602010" (by decide +kernel) (by decide +kernel)
      (by decide +kernel)

end Watch

end DebugLink
