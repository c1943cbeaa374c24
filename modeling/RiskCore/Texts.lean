import Mathlib.Data.List.TakeWhile
import RiskCore.Digits

/-!
# Texts as the server reads them

`str.strip`, and `int` of a text: blanks around it, a sign, and decimal digits of any
script with single underscores between them.
-/

namespace Texts

/-- The text without the characters of a kind at both ends. -/
def strip (space : Char → Bool) (cs : List Char) : List Char :=
  ((cs.dropWhile space).reverse.dropWhile space).reverse

theorem mem_dropWhile {space : Char → Bool} {c : Char} (hc : space c = false) (cs : List Char) :
    c ∈ cs.dropWhile space ↔ c ∈ cs := by
  conv_rhs => rw [← List.takeWhile_append_dropWhile (p := space) (l := cs)]
  rw [List.mem_append, or_iff_right]
  intro hmem
  rw [List.mem_takeWhile_imp hmem] at hc
  cases hc

theorem mem_strip {space : Char → Bool} {c : Char} (hc : space c = false) (cs : List Char) :
    c ∈ strip space cs ↔ c ∈ cs := by
  rw [strip, List.mem_reverse, mem_dropWhile hc, List.mem_reverse, mem_dropWhile hc]

theorem dropWhile_eq_self {space : Char → Bool} {cs : List Char} (h : ∀ c ∈ cs, space c = false) :
    cs.dropWhile space = cs := by
  cases cs with
  | nil => rfl
  | cons c cs => rw [List.dropWhile_cons_of_neg (by simp [h c List.mem_cons_self])]

theorem strip_eq_self {space : Char → Bool} {cs : List Char} (h : ∀ c ∈ cs, space c = false) :
    strip space cs = cs := by
  have reversed : ∀ c ∈ cs.reverse, space c = false := fun c hc => h c (List.mem_reverse.mp hc)
  rw [strip, dropWhile_eq_self h, dropWhile_eq_self reversed, List.reverse_reverse]

/-! ## Integers -/

/-- The blanks `int` takes away. -/
def isBlank (c : Char) : Bool :=
  let n := c.toNat
  (0x9 ≤ n && n ≤ 0xd) || n = 0x20 || n = 0x85 || n = 0xa0 || n = 0x1680 ||
    (0x2000 ≤ n && n ≤ 0x200a) || n = 0x2028 || n = 0x2029 || n = 0x202f || n = 0x205f ||
    n = 0x3000

/-- The zeros of Unicode 15.1; the nine characters behind each are its other digits. -/
def zeros : List Nat :=
  [0x30, 0x660, 0x6f0, 0x7c0, 0x966, 0x9e6, 0xa66, 0xae6, 0xb66, 0xbe6, 0xc66, 0xce6, 0xd66,
    0xde6, 0xe50, 0xed0, 0xf20, 0x1040, 0x1090, 0x17e0, 0x1810, 0x1946, 0x19d0, 0x1a80, 0x1a90,
    0x1b50, 0x1bb0, 0x1c40, 0x1c50, 0xa620, 0xa8d0, 0xa900, 0xa9d0, 0xa9f0, 0xaa50, 0xabf0, 0xff10,
    0x104a0, 0x10d30, 0x11066, 0x110f0, 0x11136, 0x111d0, 0x112f0, 0x11450, 0x114d0, 0x11650,
    0x116c0, 0x11730, 0x118e0, 0x11950, 0x11c50, 0x11d50, 0x11da0, 0x11f50, 0x16a60, 0x16ac0,
    0x16b50, 0x1d7ce, 0x1d7d8, 0x1d7e2, 0x1d7ec, 0x1d7f6, 0x1e140, 0x1e2f0, 0x1e4f0, 0x1e950,
    0x1fbf0]

def digit (c : Char) : Option Nat :=
  (zeros.find? (fun z => z ≤ c.toNat && c.toNat ≤ z + 9)).map (fun z => c.toNat - z)

/-- Digits with underscores between two of them; `after` says that a digit came last. -/
def digits (after : Bool) : List Char → Option (List Nat)
  | [] => if after then some [] else none
  | c :: cs =>
    match digit c with
    | some d => (digits true cs).map (fun ds => d :: ds)
    | none => if c = '_' ∧ after then digits false cs else none

/-- `int(text)` of a text without a minus sign and with at most 4300 digits. -/
def int (text : List Char) : Option Nat :=
  let body := strip isBlank text
  let numeral := if body.head? = some '+' then body.tail else body
  (digits false numeral).map (fun ds => ds.foldl (fun n d => 10 * n + d) 0)

example : int " +1_0\u0663 ".toList = some 103 ∧ int "1__0".toList = none ∧
    int "+".toList = none := by
  decide

theorem toNat_of_isDigit {c : Char} (h : c.isDigit = true) : 48 ≤ c.toNat ∧ c.toNat ≤ 57 :=
  Char.isDigit_iff_toNat.mp h

theorem digit_of_isDigit {c : Char} (h : c.isDigit = true) :
    digit c = some (c.toNat - '0'.toNat) := by
  obtain ⟨low, high⟩ := toNat_of_isDigit h
  have first : (decide (48 ≤ c.toNat) && decide (c.toNat ≤ 48 + 9)) = true := by
    simp [low, high]
  simp only [digit, zeros, List.find?_cons, first, Option.map_some]
  rfl

theorem digits_of_isDigit {cs : List Char} (h : ∀ c ∈ cs, c.isDigit = true) {after : Bool}
    (some_digit : after = true ∨ cs ≠ []) :
    digits after cs = some (cs.map (fun c => c.toNat - '0'.toNat)) := by
  induction cs generalizing after with
  | nil =>
    have ends : after = true := some_digit.resolve_right (fun hne => hne rfl)
    rw [digits, if_pos ends, List.map_nil]
  | cons c cs ih =>
    have rest := ih (fun d hd => h d (List.mem_cons_of_mem c hd)) (Or.inl rfl)
    simp only [digits, digit_of_isDigit (h c List.mem_cons_self), rest, Option.map_some,
      List.map_cons]

/-- On plain digits `int` reads the decimal numeral. -/
theorem int_of_decimal {cs : List Char} {n : Nat} (h : Digits.decimal cs = some n) :
    int cs = some n := by
  obtain ⟨⟨nonempty, all⟩, heq⟩ := Option.ite_none_right_eq_some.mp h
  have hdigit : ∀ c ∈ cs, c.isDigit = true := List.all_eq_true.mp all
  have notBlank : ∀ c ∈ cs, isBlank c = false := by
    intro c hc
    obtain ⟨low, high⟩ := toNat_of_isDigit (hdigit c hc)
    simp only [isBlank, Bool.or_eq_false_iff, Bool.and_eq_false_iff, decide_eq_false_iff_not]
    omega
  have unsigned : cs.head? ≠ some '+' := by
    intro hplus
    exact absurd (hdigit '+' (List.mem_of_mem_head? hplus)) (by decide)
  simp only [int, strip_eq_self notBlank, if_neg unsigned,
    digits_of_isDigit hdigit (Or.inr nonempty), Option.map_some, List.foldl_map]
  exact heq

end Texts
