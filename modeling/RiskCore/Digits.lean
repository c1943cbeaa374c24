import Mathlib.Data.List.Basic
import Mathlib.Tactic.Ring

/-!
# Positional numerals as characters

Numerals of a fixed width in any base up to sixteen, and decimal numerals padded
with zeros to a minimal width. Fixed-width numerals are injective below
the power of the base and come in the order of their values there, unpadded
decimal numerals are injective everywhere, and padded ones read back.
-/

namespace Digits

/-- The `w` last digits of `n`, most significant first. -/
def fixed (base : Nat) : Nat → Nat → List Char
  | 0, _ => []
  | w + 1, n => fixed base w (n / base) ++ [Nat.digitChar (n % base)]

/-- Decimal numeral with zeros in front up to at least `w` characters. -/
def padded (w n : Nat) : List Char :=
  List.replicate (w - (Nat.toDigits 10 n).length) '0' ++ Nat.toDigits 10 n

/-- The number a decimal numeral without sign stands for. -/
def decimal (cs : List Char) : Option Nat :=
  if cs ≠ [] ∧ cs.all Char.isDigit then some (Nat.ofDigitChars 10 cs 0) else none

@[simp] theorem fixed_length (base w n : Nat) : (fixed base w n).length = w := by
  induction w generalizing n with
  | zero => rfl
  | succ w ih => simp [fixed, ih]

theorem mem_fixed {base w n : Nat} {c : Char} (hpos : 0 < base) (h : c ∈ fixed base w n) :
    ∃ d < base, c = Nat.digitChar d := by
  induction w generalizing n with
  | zero => cases h
  | succ w ih =>
    rcases List.mem_append.mp h with h | h
    · exact ih h
    · exact ⟨n % base, Nat.mod_lt n hpos, List.mem_singleton.mp h⟩

theorem digitChar_inj {a b : Nat} (ha : a < 16) (hb : b < 16)
    (h : Nat.digitChar a = Nat.digitChar b) : a = b := by
  have all : ∀ a b : Fin 16, Nat.digitChar a = Nat.digitChar b → a = b := by decide
  exact congrArg Fin.val (all ⟨a, ha⟩ ⟨b, hb⟩ h)

theorem fixed_inj {base w n m : Nat} (hpos : 0 < base) (hbase : base ≤ 16)
    (hn : n < base ^ w) (hm : m < base ^ w) (h : fixed base w n = fixed base w m) : n = m := by
  induction w generalizing n m with
  | zero =>
    simp only [pow_zero] at hn hm
    omega
  | succ w ih =>
    obtain ⟨hinit, hlast⟩ := List.append_inj' h rfl
    have hmod : n % base = m % base := by
      apply digitChar_inj
      · exact lt_of_lt_of_le (Nat.mod_lt _ hpos) hbase
      · exact lt_of_lt_of_le (Nat.mod_lt _ hpos) hbase
      · exact List.head_eq_of_cons_eq hlast
    have hdiv : n / base = m / base := by
      refine ih ?_ ?_ hinit
      · exact Nat.div_lt_of_lt_mul (by rw [Nat.mul_comm, ← Nat.pow_succ]; exact hn)
      · exact Nat.div_lt_of_lt_mul (by rw [Nat.mul_comm, ← Nat.pow_succ]; exact hm)
    rw [← Nat.div_add_mod n base, ← Nat.div_add_mod m base, hdiv, hmod]

theorem toDigits_inj {n m : Nat} (h : Nat.toDigits 10 n = Nat.toDigits 10 m) : n = m := by
  have hn := Nat.ofDigitChars_ten_toDigits (n := n)
  rw [h, Nat.ofDigitChars_ten_toDigits] at hn
  exact hn.symm

theorem not_mem_toDigits {c : Char} (hc : c.isDigit = false) (n : Nat) :
    c ∉ Nat.toDigits 10 n := by
  intro h
  have hd := Nat.isDigit_of_mem_toDigits (by omega) (by omega) h
  rw [hc] at hd
  cases hd

/-! ## Order, padding and reading back -/

theorem digitChar_lt {a b : Nat} (hb : b < 16) (h : a < b) : Nat.digitChar a < Nat.digitChar b := by
  have all : ∀ a b : Fin 16, a < b → Nat.digitChar a < Nat.digitChar b := by decide
  exact all ⟨a, by omega⟩ ⟨b, hb⟩ h

/-- A difference before the end decides the order of texts of one length. -/
theorem append_lt_append {xs ys : List Char} (hlen : xs.length = ys.length) (h : xs < ys)
    (s t : List Char) : xs ++ s < ys ++ t := by
  induction h with
  | nil => cases hlen
  | cons _ ih => exact .cons (ih (Nat.succ.inj hlen))
  | rel hr => exact .rel hr

theorem append_lt_append_left {s t : List Char} (h : s < t) (xs : List Char) :
    xs ++ s < xs ++ t := by
  induction xs with
  | nil => exact h
  | cons x xs ih => exact .cons ih

/-- Numerals of one width come in the order of their values. -/
theorem fixed_lt {base w n m : Nat} (hpos : 0 < base) (hbase : base ≤ 16) (hm : m < base ^ w)
    (h : n < m) : fixed base w n < fixed base w m := by
  induction w generalizing n m with
  | zero =>
    simp only [pow_zero] at hm
    omega
  | succ w ih =>
    have hdiv : m / base < base ^ w :=
      Nat.div_lt_of_lt_mul (by rw [Nat.mul_comm, ← Nat.pow_succ]; exact hm)
    by_cases hsame : n / base = m / base
    · have hmod : n % base < m % base := by
        have hn := Nat.div_add_mod n base
        have hm := Nat.div_add_mod m base
        rw [hsame] at hn
        omega
      have hlast : m % base < 16 := Nat.lt_of_lt_of_le (Nat.mod_lt m hpos) hbase
      rw [fixed, fixed, hsame]
      exact append_lt_append_left (.rel (digitChar_lt hlast hmod)) _
    · have hle : n / base ≤ m / base := Nat.div_le_div_right (Nat.le_of_lt h)
      exact append_lt_append (by simp) (ih hdiv (by omega)) _ _

theorem fixed_zero (base w : Nat) : fixed base w 0 = List.replicate w '0' := by
  induction w with
  | zero => rfl
  | succ w ih => simp [fixed, ih, List.replicate_succ']

/-- Padding to a width that is enough gives the numeral of that width. -/
theorem padded_eq_fixed {w n : Nat} (hw : 0 < w) (h : n < 10 ^ w) : padded w n = fixed 10 w n := by
  induction w generalizing n with
  | zero => cases hw
  | succ w ih =>
    by_cases hsmall : n < 10
    · simp [padded, fixed, Nat.toDigits_of_lt_base hsmall, Nat.div_eq_of_lt hsmall, fixed_zero,
        Nat.mod_eq_of_lt hsmall]
    · have hwide : 0 < w := by
        rcases w with _ | w
        · simp at h
          omega
        · omega
      have hdiv : n / 10 < 10 ^ w := by
        rw [Nat.pow_succ] at h
        omega
      rw [fixed, ← ih hwide hdiv, padded, padded, Nat.toDigits_of_base_le (by omega) (by omega),
        List.length_append, List.append_assoc]
      simp

theorem mem_padded {w n : Nat} {c : Char} (h : c ∈ padded w n) : c.isDigit = true := by
  rcases List.mem_append.mp h with hc | hc
  · rw [List.eq_of_mem_replicate hc]
    rfl
  · exact Nat.isDigit_of_mem_toDigits (by omega) (by omega) hc

theorem padded_length_le {w k n : Nat} (hw : w ≤ k) (hk : 0 < k) (h : n < 10 ^ k) :
    (padded w n).length ≤ k := by
  have digits : (Nat.toDigits 10 n).length ≤ k := (Nat.length_toDigits_le_iff (by omega) hk).mpr h
  simp only [padded, List.length_append, List.length_replicate]
  omega

theorem padded_ne_nil (w n : Nat) : padded w n ≠ [] := by
  simp [padded, Nat.toDigits_ne_nil]

/-- Reading a padded numeral gives the number back. -/
theorem decimal_padded (w n : Nat) : decimal (padded w n) = some n := by
  have hall : (padded w n).all Char.isDigit = true := List.all_eq_true.mpr (fun c => mem_padded)
  rw [decimal, if_pos ⟨padded_ne_nil w n, hall⟩, padded, Nat.ofDigitChars_append,
    Nat.ofDigitChars_replicate_zero, Nat.mul_zero, Nat.ofDigitChars_ten_toDigits]

end Digits
