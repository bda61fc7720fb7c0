import DebugLink.Proofs.Text.Numeral
import DebugLink.Watch.Expression
import DebugLink.Watch.Printed
import Mathlib.Data.List.TakeWhile

/-!
Addresses in texts. A pointer is printed as its address, perhaps with its type in parentheses before
it, and the address can be read off (`Printed.address?_of_cast`). The expressions that a walk
through the tree of a map asks for name the address and the part of the node
(`NodePart.expression`), and no two of them are the same (`NodePart.expression_inj`), so to ask for
an expression once is to ask for a part of a node once.
-/

set_option autoImplicit false

namespace DebugLink

/-! ### Numbers in base sixteen -/

namespace Numeral

/-- A hexadecimal digit is read as it was printed. -/
theorem digit?_digitChar : ∀ d < 16, digit? 16 (Nat.digitChar d) = some d := by
  decide

/-- Digits are read one stretch after the other. -/
theorem digitsFrom?_append (base value : Nat) (cs cs' : List Char) :
    digitsFrom? base value (cs ++ cs') =
      (digitsFrom? base value cs).bind (digitsFrom? base · cs') := by
  induction cs generalizing value with
  | nil => rfl
  | cons c rest ih =>
    simp only [List.cons_append, digitsFrom?]
    cases digit? base c with
    | none => rfl
    | some d => exact ih _

/-- The digits of a number are read as that number. -/
theorem digitsFrom?_toDigits (n : Nat) : digitsFrom? 16 0 (Nat.toDigits 16 n) = some n := by
  induction n using Nat.strongRecOn with
  | ind n ih =>
    by_cases hsmall : n < 16
    · rw [Nat.toDigits_of_lt_base hsmall]
      simp [digitsFrom?, digit?_digitChar n hsmall]
    · have hlast := digit?_digitChar (n % 16) (Nat.mod_lt n (by decide))
      rw [Nat.toDigits_of_base_le (by decide) (Nat.not_lt.mp hsmall), digitsFrom?_append,
        ih (n / 16) (by omega)]
      simp only [Option.bind_some, digitsFrom?, hlast]
      exact congrArg some (by omega)

/-- A number is printed in digits only. -/
theorem isDigit_of_mem_toDigits {n : Nat} {c : Char} (h : c ∈ Nat.toDigits 16 n) :
    isDigit 16 c := by
  obtain ⟨d, hd, rfl⟩ := mem_toDigits (by decide) h
  rw [isDigit, digit?_digitChar d hd]
  rfl

/-- A number has digits, and they are read as that number. -/
theorem digits?_toDigits (n : Nat) : digits? 16 (Nat.toDigits 16 n) = some n := by
  rw [digits?]
  · exact digitsFrom?_toDigits n
  · exact Nat.toDigits_ne_nil

/-- A number within bounds is read as it was printed. -/
theorem unsigned?_toDigits {n bound : Nat} (h : n < bound) :
    unsigned? 16 bound (Nat.toDigits 16 n) = some n := by
  rw [unsigned?_of_digits? (digits?_toDigits n), if_pos h]

end Numeral

/-! ### Printed pointers -/

namespace Printed

variable {front : List Char}

/-- A character that does not begin an address is passed over. -/
theorem addressDigits?_cons {c : Char} {rest : List Char} (h : c = '0' → rest.head? ≠ some 'x') :
    addressDigits? (c :: rest) = addressDigits? rest := by
  rw [addressDigits?.eq_def]
  split
  · rename_i heq
    obtain ⟨rfl, rfl⟩ := List.cons.inj heq
    exact absurd rfl (h rfl)
  · rename_i heq
    rw [(List.cons.inj heq).2]
  · rename_i heq
    nomatch heq

/-- Where no address is at the front, the search goes on behind a character that no address has. -/
theorem addressDigits?_append {c : Char} {rest : List Char} (hfront : addressDigits? front = none)
    (hdigit : Numeral.isDigit 16 c = false) (hx : c ≠ 'x') :
    addressDigits? (front ++ c :: rest) = addressDigits? (c :: rest) := by
  fun_induction addressDigits? front with
  | case1 tail hnone ih =>
    have hnone' : (tail ++ c :: rest).takeWhile (Numeral.isDigit 16) = [] := by
      cases tail with
      | nil => simp [hdigit]
      | cons d others =>
        cases hd : Numeral.isDigit 16 d <;> simp_all
    rw [← ih hfront]
    show addressDigits? ('0' :: 'x' :: (tail ++ c :: rest)) = _
    rw [addressDigits?.eq_def]
    simp only [hnone']
    rfl
  | case2 => nomatch hfront
  | case3 d tail hother ih =>
    rw [← ih hfront]
    refine addressDigits?_cons fun hd hhead ↦ ?_
    cases tail with
    | nil => exact hx (Option.some.inj hhead)
    | cons e others =>
      obtain rfl : e = 'x' := Option.some.inj hhead
      exact hother others hd rfl
  | case4 => rfl

/-- An address begins at the first mark with a digit behind it. -/
theorem addressDigits?_mark {c : Char} {digits rest : List Char}
    (h : rest.takeWhile (Numeral.isDigit 16) = c :: digits) :
    addressDigits? ('0' :: 'x' :: rest) = some (c :: digits) := by
  rw [addressDigits?.eq_def]
  simp only [h]

/-- The digits of a printed address are found. -/
theorem addressDigits?_text (address : Address) :
    addressDigits? (Address.text address).toList = some (Nat.toDigits 16 address.toNat) := by
  have hall : (Nat.toDigits 16 address.toNat).takeWhile (Numeral.isDigit 16) =
      Nat.toDigits 16 address.toNat :=
    List.takeWhile_eq_self_iff.mpr fun c hc ↦ Numeral.isDigit_of_mem_toDigits hc
  have htext : (Address.text address).toList = '0' :: 'x' :: Nat.toDigits 16 address.toNat := by
    simp [Address.text, Numeral.hex]
  obtain ⟨c, rest, hdigits⟩ :=
    List.exists_cons_of_ne_nil (Nat.toDigits_ne_nil (b := 16) (n := address.toNat))
  rw [htext, hdigits, addressDigits?_mark (hdigits ▸ hall)]

/-- What may stand before the address of a printed pointer: nothing, or a type in parentheses. A
type that itself holds `0x` before a hexadecimal digit is left out, because an address is read from
the first place that looks like one. The links of a tree are never printed with such a type: all of
them are declared as `std::_Rb_tree_node_base *`, whatever the keys and values of the map are. -/
inductive Cast : String → Prop
  | none : Cast ""
  | type (text : String) (h : addressDigits? text.toList = none) : Cast ("(" ++ text ++ ") ")

example : addressDigits? "std::_Rb_tree_node_base *".toList = none := by decide

/-- The address of a printed pointer, with or without a cast, is the one that it holds. -/
theorem address?_of_cast {cast : String} (h : Cast cast) (address : Address) :
    address? (cast ++ Address.text address) = some address := by
  have hdigits : addressDigits? (cast ++ Address.text address).toList =
      some (Nat.toDigits 16 address.toNat) := by
    rw [String.toList_append]
    cases h with
    | none => exact addressDigits?_text address
    | type text htext =>
      have hcast : ("(" ++ text ++ ") ").toList ++ (Address.text address).toList =
          '(' :: (text.toList ++ ')' :: ' ' :: (Address.text address).toList) := by
        simp [String.toList_append]
      rw [hcast, addressDigits?_cons fun h ↦ absurd h (by decide),
        addressDigits?_append htext (by decide) (by decide),
        addressDigits?_cons fun h ↦ absurd h (by decide),
        addressDigits?_cons fun h ↦ absurd h (by decide), addressDigits?_text]
  unfold address?
  rw [hdigits]
  show (Numeral.unsigned? 16 UInt64.size _).bind _ = _
  rw [Numeral.unsigned?_toDigits address.toNat_lt]
  exact congrArg some (UInt64.ofNat_toNat)

end Printed

/-- Different addresses are printed differently. -/
theorem Address.text_injective : Function.Injective Address.text := fun address address' h ↦ by
  have hread := Printed.address?_of_cast .none address
  rw [h, Printed.address?_of_cast .none address'] at hread
  exact (Option.some.inj hread).symm

/-! ### Expressions for the parts of nodes -/

/-- What a walk through the tree of a map asks about a node. -/
inductive NodePart
  | left
  | first
  | second
  | right
  deriving DecidableEq, Repr

namespace NodePart

/-- How a part is called. -/
def text : NodePart → String
  | left => "left"
  | first => "first"
  | second => "second"
  | right => "right"

/-- The expression for a part of the node at an address. -/
def expression (key value : TypeName) (address : Address) : NodePart → String
  | left => Expression.treeChild address Expression.Side.left.text
  | first => Expression.mapNodeMember address key value "first"
  | second => Expression.mapNodeMember address key value "second"
  | right => Expression.treeChild address Expression.Side.right.text

/-- The last characters of a text, enough to tell parts from each other. -/
def ending (s : String) : List Char :=
  s.toList.reverse.take 3

/-- The last three characters are those of the text at the end. -/
theorem ending_append (s : String) {t : String} (h : 3 ≤ t.toList.length) :
    ending (s ++ t) = ending t := by
  unfold ending
  rw [String.toList_append, List.reverse_append, List.take_append_of_le_length (by simpa using h)]

variable {key value : TypeName} {address address' : Address} {part part' : NodePart}

/-- An expression about a node ends with the name of the part. -/
theorem ending_expression (key value : TypeName) (address : Address) (part : NodePart) :
    ending (part.expression key value address) = ending part.text := by
  have hend : ∃ front, part.expression key value address = front ++ part.text := by
    cases part <;> exact ⟨_, rfl⟩
  obtain ⟨front, hfront⟩ := hend
  rw [hfront, ending_append]
  cases part <;> decide

/-- The address stands between two texts that do not depend on it. -/
theorem exists_expression_eq (key value : TypeName) (part : NodePart) : ∃ front back : String,
    ∀ address, part.expression key value address = front ++ Address.text address ++ back := by
  cases part with
  | left | right => exact ⟨_, _, fun address ↦ String.append_assoc⟩
  | first | second => exact ⟨_, _, fun address ↦ String.append_assoc⟩

/-- No part of a node is asked for as the root is. -/
theorem expression_ne_mapRoot (base : String) :
    part.expression key value address ≠ Expression.mapRoot base := by
  intro h
  have hending := congrArg ending h
  rw [ending_expression, Expression.mapRoot, ending_append _ (by decide)] at hending
  cases part <;> exact absurd hending (by decide)

/-- No part of a node is asked for as the number of entries is. -/
theorem expression_ne_mapCount (base : String) :
    part.expression key value address ≠ Expression.mapCount base := by
  intro h
  have hending := congrArg ending h
  rw [ending_expression, Expression.mapCount, ending_append _ (by decide)] at hending
  cases part <;> exact absurd hending (by decide)

/-- An expression tells the node and the part. -/
theorem expression_inj :
    part.expression key value address = part'.expression key value address' ↔
      address = address' ∧ part = part' := by
  refine ⟨fun h ↦ ?_, fun h ↦ by rw [h.1, h.2]⟩
  obtain rfl : part = part' := by
    have hending := congrArg ending h
    rw [ending_expression, ending_expression] at hending
    cases part <;> cases part' <;> first | rfl | exact absurd hending (by decide)
  obtain ⟨front, back, hexpression⟩ := exists_expression_eq key value part
  rw [hexpression, hexpression, String.append_left_inj, String.append_right_inj] at h
  exact ⟨Address.text_injective h, rfl⟩

end NodePart

/-- The root is not asked for as the number of entries is. -/
theorem Expression.mapRoot_ne_mapCount (base base' : String) : mapRoot base ≠ mapCount base' := by
  intro h
  have hending := congrArg NodePart.ending h
  rw [mapRoot, mapCount, NodePart.ending_append _ (by decide),
    NodePart.ending_append _ (by decide)] at hending
  exact absurd hending (by decide)

end DebugLink
