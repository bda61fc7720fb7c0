import DebugLink.Proofs.Record.Parse
import Mathlib.Data.Finset.Card

/-!
Names in fields. Fields that come about by insertions have each name once, in the order of first
insertion and with the value that was inserted last. The only fields in a record that was read are
those that the grammar collapses, for a tuple or for the record itself, while the names in a list
are all kept. So every table of fields that a record holds, at any depth, has each name once
(`Value.Distinct`): every production keeps that (`Derives.distinct`), and with it every record that
is read from a line (`Fields.insertion_ordered`).
-/

set_option autoImplicit false

namespace DebugLink

/-! ### Pairs that collapse -/

namespace NamedTable

variable {α : Type} {pairs : List (String × α)} {table : NamedTable α}

theorem Collapses.nodup_names (h : Collapses pairs table) : table.names.Nodup := by
  rw [collapses_iff.mp h]
  exact nodup_names_ofList pairs

/-- What is left of the pairs are some of them. -/
theorem Collapses.mem_of_mem_entries (h : Collapses pairs table) {entry : String × α}
    (hentry : entry ∈ table.entries) : entry ∈ pairs := by
  have hlast := (h.get?_eq entry.1).symm.trans (get?_of_mem_entries h.nodup_names hentry)
  exact List.mem_reverse.mp (Entries.mem_of_lookup hlast)

/-- The value of a name is the one that it had last. -/
theorem Collapses.get?_of_last (h : Collapses pairs table) {earlier later : List (String × α)}
    {name : String} {value : α} (hpairs : pairs = earlier ++ (name, value) :: later)
    (hlast : name ∉ later.map Prod.fst) : table.get? name = some value := by
  have hnone : later.reverse.lookup name = none := by
    refine List.lookup_eq_none_iff.mpr fun pair hpair ↦ ?_
    have hne : name ≠ pair.1 := fun heq ↦
      hlast (heq ▸ List.mem_map_of_mem (List.mem_reverse.mp hpair))
    simpa using hne
  rw [h.get?_eq, hpairs, List.reverse_append, List.reverse_cons, List.append_assoc,
    List.lookup_append, hnone, Option.none_or, List.singleton_append, List.lookup_cons_self]

theorem Collapses.get?_of_notMem (h : Collapses pairs table) {name : String}
    (hname : name ∉ pairs.map Prod.fst) : table.get? name = none := by
  have hnew : name ∉ table.names := by
    rwa [h.names_eq, List.mem_eraseDups]
  exact Option.not_isSome_iff_eq_none.mp fun hsome ↦ hnew (isSome_get?_iff.mp hsome)

/-- There are as many entries as different names. -/
theorem Collapses.size_eq (h : Collapses pairs table) :
    table.size = (pairs.map Prod.fst).toFinset.card := by
  have hsame : (pairs.map Prod.fst).toFinset = table.names.toFinset := by
    ext name
    rw [List.mem_toFinset, List.mem_toFinset, h.names_eq, List.mem_eraseDups]
  rw [hsame, List.toFinset_card_of_nodup h.nodup_names, names, List.length_map, size]

end NamedTable

/-! ### Fields at any depth -/

namespace Value

/-- Whether fields occur in a value, at any depth: in tuples as these themselves or within the value
of a field, and in lists within an item. -/
inductive Holds : Value → Fields → Prop
  | self (fields : Fields) : Holds (.tuple fields) fields
  | ofField {outer inner : Fields} {entry : String × Value} :
    entry ∈ outer.entries → Holds entry.2 inner → Holds (.tuple outer) inner
  | ofItem {items : List Value} {item : Value} {inner : Fields} :
    item ∈ items → Holds item inner → Holds (.values items) inner
  | ofNamedItem {items : List (String × Value)} {item : String × Value} {inner : Fields} :
    item ∈ items → Holds item.2 inner → Holds (.results items) inner

/-- Whether all fields in a value have each name once. -/
def Distinct (v : Value) : Prop :=
  ∀ fields, v.Holds fields → fields.names.Nodup

theorem distinct_text (s : String) : (text s).Distinct :=
  fun _ h ↦ nomatch h

theorem distinct_tuple {fields : Fields} (hnames : fields.names.Nodup)
    (hvalues : ∀ entry ∈ fields.entries, entry.2.Distinct) : (tuple fields).Distinct := by
  intro inner hholds
  cases hholds with
  | self => exact hnames
  | ofField hentry hinside => exact hvalues _ hentry inner hinside

theorem distinct_values {items : List Value} (h : ∀ item ∈ items, item.Distinct) :
    (values items).Distinct := by
  intro inner hholds
  cases hholds with
  | ofItem hitem hinside => exact h _ hitem inner hinside

theorem distinct_results {items : List (String × Value)} (h : ∀ item ∈ items, item.2.Distinct) :
    (results items).Distinct := by
  intro inner hholds
  cases hholds with
  | ofNamedItem hitem hinside => exact h _ hitem inner hinside

end Value

/-- Where pairs collapse to fields, each name is there once. -/
theorem Value.distinct_of_collapses {pairs : List (String × Value)} {fields : Fields}
    (h : NamedTable.Collapses pairs fields) (hvalues : ∀ pair ∈ pairs, pair.2.Distinct) :
    (tuple fields).Distinct :=
  distinct_tuple h.nodup_names fun entry hentry ↦ hvalues entry (h.mem_of_mem_entries hentry)

namespace Record

/-- Whether fields occur in a record, at any depth. -/
def Holds (record : Record) (fields : Fields) : Prop :=
  ∃ top, record.fields? = some top ∧ (Value.tuple top).Holds fields

/-! ### Derivations -/

/-- Whether all fields in what is derived have each name once. -/
def Nonterminal.Distinct : (n : Nonterminal) → n.Meaning → Prop
  | .value, v => v.Distinct
  | .values, items => ∀ item ∈ items, item.Distinct
  | .namedValue, pair => pair.2.Distinct
  | .namedValues, pairs => ∀ pair ∈ pairs, pair.2.Distinct

/-- Every production keeps the names apart: braces collapse, and brackets hold what is distinct. -/
theorem Derives.distinct {n : Nonterminal} {lexemes : List (Lexeme Symbol)} {meaning : n.Meaning}
    (h : Derives n lexemes meaning) : n.Distinct meaning := by
  induction h with
  | text => exact Value.distinct_text _
  | emptyTuple => exact Value.distinct_tuple List.nodup_nil nofun
  | tuple _ _ _ hcollapses ih => exact Value.distinct_of_collapses hcollapses ih
  | emptyList => exact Value.distinct_values nofun
  | bareList _ _ _ ih => exact Value.distinct_values ih
  | namedList _ _ _ ih => exact Value.distinct_results ih
  | lastValue _ ih => exact List.forall_mem_singleton.mpr ih
  | moreValues _ _ _ ih ihothers => exact List.forall_mem_cons.mpr ⟨ih, ihothers⟩
  | namedValue _ _ _ ih => exact ih
  | lastNamedValue _ ih => exact List.forall_mem_singleton.mpr ih
  | moreNamedValues _ _ _ ih ihothers => exact List.forall_mem_cons.mpr ⟨ih, ihothers⟩

theorem DerivesFields.distinct {lexemes : List (Lexeme Symbol)} {fields : Fields}
    (h : DerivesFields lexemes fields) : (Value.tuple fields).Distinct := by
  cases h with
  | missing => exact Value.distinct_tuple List.nodup_nil nofun
  | listed _ hnamed hcollapses => exact Value.distinct_of_collapses hcollapses hnamed.distinct

/-- All fields in a record that is derived have each name once. -/
theorem DerivesLine.nodup_names {lexemes : List (Lexeme Symbol)} {record : Record} {fields : Fields}
    (h : DerivesLine lexemes record) (hholds : record.Holds fields) : fields.names.Nodup := by
  obtain ⟨hrecord, -⟩ := h
  obtain ⟨top, htop, hinside⟩ := hholds
  cases hrecord with
  | async _ _ _ hfields => exact hfields.distinct fields (Option.some.inj htop ▸ hinside)
  | stream => nomatch htop
  | result _ _ _ hfields => exact hfields.distinct fields (Option.some.inj htop ▸ hinside)
  | prompt => nomatch htop

end Record

/-- Fields keep the order of insertion. After any insertions, and equally when a list is collected,
each name is there once, the names stand in the order in which they were first inserted, a name has
the value that was inserted last under it, other names have none, and there are as many entries as
different names. So in every record that is read from a line, all fields at any depth have each name
once. -/
theorem Fields.insertion_ordered :
    (∀ pairs : List (String × Value),
      let fields : Fields := pairs.foldl (fun fields pair ↦ fields.insert pair.1 pair.2) .empty
      NamedTable.ofList pairs = fields ∧
      fields.names.Nodup ∧
      fields.names = (pairs.map Prod.fst).eraseDups ∧
      (∀ earlier name value later, pairs = earlier ++ (name, value) :: later →
        name ∉ later.map Prod.fst → fields.get? name = some value) ∧
      (∀ name, name ∉ pairs.map Prod.fst → fields.get? name = none) ∧
      fields.size = (pairs.map Prod.fst).toFinset.card) ∧
    ∀ input record, Record.parse input = .ok record →
      ∀ fields, record.Holds fields → fields.names.Nodup := by
  refine ⟨fun pairs ↦ ?_, fun input record hparse fields hholds ↦ ?_⟩
  · have hcollapses := NamedTable.collapses_ofList pairs
    exact ⟨rfl, hcollapses.nodup_names, hcollapses.names_eq,
      fun _ _ _ _ hpairs hlast ↦ hcollapses.get?_of_last hpairs hlast,
      fun _ hname ↦ hcollapses.get?_of_notMem hname, hcollapses.size_eq⟩
  · obtain ⟨lexemes, -, hderives⟩ := Record.parse_eq_ok_iff.mp hparse
    exact hderives.nodup_names hholds

/-- A tuple in which a name is repeated, within the fields of a record. -/
theorem Fields.insertion_ordered_of_nested :
    let inner : Fields := ⟨[("c", .tuple .empty)]⟩
    let record : Record := .result none "a" ⟨[("b", .tuple inner)]⟩
    Record.parse "^a,b=\x7bc=[],c=\x7b\x7d\x7d\n" = .ok record ∧ record.Holds inner ∧
      inner.names.Nodup ∧
      (NamedTable.ofList [("x", Value.text "1"), ("y", .text "2"), ("x", .text "3")]).get? "x" =
        some (.text "3") := by
  intro inner record
  have hlex : Symbol.lex "^a,b=\x7bc=[],c=\x7b\x7d\x7d\n" = .ok [⟨.caret, "^", 0⟩,
      ⟨.identifier, "a", 1⟩, ⟨.comma, ",", 2⟩, ⟨.identifier, "b", 3⟩, ⟨.equals, "=", 4⟩,
      ⟨.leftBrace, "\x7b", 5⟩, ⟨.identifier, "c", 6⟩, ⟨.equals, "=", 7⟩, ⟨.leftBracket, "[", 8⟩,
      ⟨.rightBracket, "]", 9⟩, ⟨.comma, ",", 10⟩, ⟨.identifier, "c", 11⟩, ⟨.equals, "=", 12⟩,
      ⟨.leftBrace, "\x7b", 13⟩, ⟨.rightBrace, "\x7d", 14⟩, ⟨.rightBrace, "\x7d", 15⟩,
      ⟨.lineEnd, "\n", 16⟩] := by
    rw [Symbol.lex_eq_ok_iff]
    repeat refine .lexeme ((Symbol.first?_eq_scan _).trans rfl) ?_
    exact .done
  have hlist : Record.Derives .namedValue [⟨.identifier, "c", 6⟩, ⟨.equals, "=", 7⟩,
      ⟨.leftBracket, "[", 8⟩, ⟨.rightBracket, "]", 9⟩] ("c", .values []) :=
    .namedValue rfl rfl (.emptyList rfl rfl)
  have htuple : Record.Derives .namedValue [⟨.identifier, "c", 11⟩, ⟨.equals, "=", 12⟩,
      ⟨.leftBrace, "\x7b", 13⟩, ⟨.rightBrace, "\x7d", 14⟩] ("c", .tuple .empty) :=
    .namedValue rfl rfl (.emptyTuple rfl rfl)
  have hcomma : (⟨.comma, ",", 10⟩ : Lexeme Symbol).kind = .comma := rfl
  have hinner : NamedTable.Collapses [("c", .values []), ("c", .tuple .empty)] inner :=
    NamedTable.collapses_iff.mpr rfl
  have hopening : (⟨.leftBrace, "\x7b", 5⟩ : Lexeme Symbol).kind = .leftBrace := rfl
  have hclosing : (⟨.rightBrace, "\x7d", 15⟩ : Lexeme Symbol).kind = .rightBrace := rfl
  have hvalue := Record.Derives.tuple hopening
    (.moreNamedValues hlist hcomma (.lastNamedValue htuple)) hclosing hinner
  have hnamed : Record.Derives .namedValue (⟨.identifier, "b", 3⟩ :: ⟨.equals, "=", 4⟩ :: _)
      ("b", .tuple inner) := .namedValue rfl rfl hvalue
  have hcomma' : (⟨.comma, ",", 2⟩ : Lexeme Symbol).kind = .comma := rfl
  have hfields := Record.DerivesFields.listed hcomma' (.lastNamedValue hnamed)
    (NamedTable.collapses_iff.mpr rfl)
  have hmark : (⟨.caret, "^", 0⟩ : Lexeme Symbol).kind = .caret := rfl
  have hcls : (⟨.identifier, "a", 1⟩ : Lexeme Symbol).kind = .identifier := rfl
  have hending : (⟨.lineEnd, "\n", 16⟩ : Lexeme Symbol).kind = .lineEnd := rfl
  have hline := Record.DerivesLine.mk (Record.DerivesRecord.result .missing hmark hcls hfields)
    hending
  have hparse : Record.parse "^a,b=\x7bc=[],c=\x7b\x7d\x7d\n" = .ok record :=
    Record.parse_eq_ok_iff.mpr ⟨_, hlex, hline⟩
  have hholds : record.Holds inner := ⟨_, rfl, .ofField List.mem_cons_self (.self inner)⟩
  obtain ⟨hinserted, hread⟩ := insertion_ordered
  obtain ⟨-, -, -, hlast, -⟩ :=
    hinserted [("x", Value.text "1"), ("y", .text "2"), ("x", .text "3")]
  exact ⟨hparse, hholds, hread _ _ hparse inner hholds,
    hlast [("x", .text "1"), ("y", .text "2")] "x" (.text "3") [] rfl List.not_mem_nil⟩

end DebugLink
