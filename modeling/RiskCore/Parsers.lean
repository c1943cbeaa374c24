import RiskCore.Payloads

/-!
# Identifiers and instants read back

`uuid.UUID` and `parse_datetime` on the texts `str()` and `isoformat()` write.
What the consumers rely on is that they read back what was written; the parsers
here do, for every identifier and every instant.
-/

namespace Parsers

open Values Payloads

/-- What a runtime owes: identifiers and instants read back from their texts. -/
structure Faithful (rt : Runtime) : Prop where
  uuid : ∀ u : UUID, rt.parseUuid u.str = some u
  datetime : ∀ t : DateTime, rt.parseDatetime t.isoformat = some (some t)

/-! ## Numerals -/

def digitValue (c : Char) : Option Nat :=
  if c.isDigit then some (c.toNat - '0'.toNat)
  else if 'a' ≤ c ∧ c ≤ 'f' then some (c.toNat - 'a'.toNat + 10)
  else if 'A' ≤ c ∧ c ≤ 'F' then some (c.toNat - 'A'.toNat + 10)
  else none

def numeral (base : Nat) (cs : List Char) : Option Nat :=
  cs.foldlM (fun n c => (digitValue c).bind (fun d =>
    if d < base then some (n * base + d) else none)) 0

theorem digitValue_digitChar {d : Nat} (h : d < 16) : digitValue (Nat.digitChar d) = some d := by
  have all : ∀ d : Fin 16, digitValue (Nat.digitChar d) = some d.val := by decide
  exact all ⟨d, h⟩

theorem numeral_fixed {base w n : Nat} (hpos : 0 < base) (hbase : base ≤ 16)
    (h : n < base ^ w) : numeral base (Digits.fixed base w n) = some n := by
  induction w generalizing n with
  | zero =>
    simp only [pow_zero] at h
    have hzero : n = 0 := by omega
    rw [hzero]
    rfl
  | succ w ih =>
    have hdiv : n / base < base ^ w :=
      Nat.div_lt_of_lt_mul (by rw [Nat.mul_comm, ← Nat.pow_succ]; exact h)
    have hmod : n % base < base := Nat.mod_lt n hpos
    have hinit := ih hdiv
    unfold numeral at hinit ⊢
    rw [Digits.fixed, List.foldlM_append, hinit]
    simp [digitValue_digitChar (Nat.lt_of_lt_of_le hmod hbase), hmod, Nat.div_add_mod']

/-! ## Identifiers -/

/-- `uuid.UUID(hex)`; hyphens are left out. -/
def parseUuid (s : String) : Option UUID :=
  let hex := s.toList.filter (fun c => c ≠ '-')
  if hex.length = 32 then (numeral 16 hex).map (fun n => ⟨BitVec.ofNat 128 n⟩) else none

theorem mem_fixed_ne_hyphen {w n : Nat} : ∀ c ∈ Digits.fixed 16 w n, c ≠ '-' := by
  intro c hc
  obtain ⟨d, hd, rfl⟩ := Digits.mem_fixed (by decide) hc
  have all : ∀ d : Fin 16, Nat.digitChar d ≠ '-' := by decide
  exact all ⟨d, hd⟩

theorem filter_str (u : UUID) :
    u.str.toList.filter (fun c => c ≠ '-') = Digits.fixed 16 32 u.bits.toNat := by
  -- no piece of the hexadecimal numeral loses a character
  have kept : ∀ cs : List Char, (∀ c ∈ cs, c ∈ Digits.fixed 16 32 u.bits.toNat) →
      cs.filter (fun c => c ≠ '-') = cs := by
    intro cs hcs
    exact List.filter_eq_self.mpr (fun c hc => by simpa using mem_fixed_ne_hyphen c (hcs c hc))
  have hyphen : ∀ cs : List Char, ('-' :: cs).filter (fun c => c ≠ '-') =
      cs.filter (fun c => c ≠ '-') := fun cs => List.filter_cons_of_neg (by simp)
  simp only [UUID.str, String.toList_ofList, List.filter_append, hyphen]
  rw [kept _ (fun c hc => List.mem_of_mem_take hc),
    kept _ (fun c hc => List.mem_of_mem_drop (List.mem_of_mem_take hc)),
    kept _ (fun c hc => List.mem_of_mem_drop (List.mem_of_mem_take hc)),
    kept _ (fun c hc => List.mem_of_mem_drop (List.mem_of_mem_take hc)),
    kept _ (fun c hc => List.mem_of_mem_drop hc)]
  have join : ∀ (cs : List Char) (i j : Nat),
      (cs.drop i).take j ++ cs.drop (i + j) = cs.drop i := by
    intro cs i j
    rw [← List.drop_drop, List.take_append_drop]
  simp only [List.append_assoc]
  rw [join _ 16 4, join _ 12 4, join _ 8 4, List.take_append_drop]

theorem parseUuid_str (u : UUID) : parseUuid u.str = some u := by
  have hbits : u.bits.toNat < 16 ^ 32 := u.bits.isLt
  simp only [parseUuid, filter_str, Digits.fixed_length, if_true,
    numeral_fixed (by decide) (by decide) hbits, Option.map_some]
  rw [BitVec.ofNat_toNat, BitVec.setWidth_eq]

/-! ## Instants -/

/-- `w` digits in front. -/
def digits (w : Nat) (cs : List Char) : Option (Nat × List Char) :=
  (numeral 10 (cs.take w)).map (fun n => (n, cs.drop w))

/-- This character in front. -/
def char (c : Char) : List Char → Option (List Char)
  | [] => none
  | c' :: cs => if c' = c then some cs else none

/-- The microseconds, if there are any. -/
def fraction (cs : List Char) : Option (Nat × List Char) :=
  match char '.' cs with
  | some cs => digits 6 cs
  | none => some (0, cs)

/-- The fields of an instant in UTC, as `isoformat` lays them out. -/
def fields (cs : List Char) : Option (List Nat) := do
  let (year, cs) ← digits 4 cs
  let (month, cs) ← digits 2 (← char '-' cs)
  let (day, cs) ← digits 2 (← char '-' cs)
  let (hour, cs) ← digits 2 (← char 'T' cs)
  let (minute, cs) ← digits 2 (← char ':' cs)
  let (second, cs) ← digits 2 (← char ':' cs)
  let (microsecond, cs) ← fraction cs
  if cs = "+00:00".toList then return [year, month, day, hour, minute, second, microsecond]
  else none

/-- `datetime(...)`; `none` where it raises. -/
def datetime (year month day hour minute second microsecond : Nat) : Option DateTime :=
  if hdate : 1 ≤ year ∧ year ≤ 9999 ∧ 1 ≤ month ∧ month ≤ 12 ∧ 1 ≤ day ∧
      day ≤ daysInMonth year month then
    if htime : hour < 24 ∧ minute < 60 ∧ second < 60 ∧ microsecond < 1000000 then
      some ⟨⟨year, month, day, hdate⟩, ⟨hour, htime.1⟩, ⟨minute, htime.2.1⟩,
        ⟨second, htime.2.2.1⟩, ⟨microsecond, htime.2.2.2⟩⟩
    else none
  else none

/-- `parse_datetime`, on this layout: no value for another text, an exception for
fields out of range. -/
def parseDatetime (s : String) : Option (Option DateTime) :=
  match fields s.toList with
  | some [year, month, day, hour, minute, second, microsecond] =>
    (datetime year month day hour minute second microsecond).map some
  | _ => some none

theorem digits_fixed {w n : Nat} (h : n < 10 ^ w) (cs : List Char) :
    digits w (Digits.fixed 10 w n ++ cs) = some (n, cs) := by
  have htake : (Digits.fixed 10 w n ++ cs).take w = Digits.fixed 10 w n :=
    List.take_left' (Digits.fixed_length 10 w n)
  have hdrop : (Digits.fixed 10 w n ++ cs).drop w = cs :=
    List.drop_left' (Digits.fixed_length 10 w n)
  rw [digits, htake, hdrop, numeral_fixed (by decide) (by decide) h]
  rfl

@[simp] theorem char_cons (c : Char) (cs : List Char) : char c (c :: cs) = some cs := by
  simp [char]

theorem fraction_chars (t : DateTime) (cs : List Char) (hcs : char '.' cs = none) :
    fraction ((if t.microsecond = 0 then [] else '.' :: Digits.fixed 10 6 t.microsecond) ++ cs) =
      some (t.microsecond.val, cs) := by
  by_cases hzero : t.microsecond = 0
  · rw [if_pos hzero, List.nil_append, fraction, hcs, hzero]
    rfl
  · rw [if_neg hzero, fraction, List.cons_append, char_cons]
    exact digits_fixed t.microsecond.isLt cs

theorem parseDatetime_isoformat (t : DateTime) : parseDatetime t.isoformat = some (some t) := by
  have hvalid := t.date.valid
  have hdays := daysInMonth_le t.date.year t.date.month
  have hfields : fields t.isoformat.toList = some [t.date.year, t.date.month, t.date.day,
      t.hour.val, t.minute.val, t.second.val, t.microsecond.val] := by
    simp only [DateTime.isoformat, Date.chars, String.toList_ofList, List.append_assoc,
      List.cons_append]
    have hyear : t.date.year < 10 ^ 4 := by omega
    have hmonth : t.date.month < 10 ^ 2 := by omega
    have hday : t.date.day < 10 ^ 2 := by omega
    have hhour : t.hour.val < 10 ^ 2 := by omega
    have hminute : t.minute.val < 10 ^ 2 := by omega
    have hsecond : t.second.val < 10 ^ 2 := by omega
    simp only [fields, digits_fixed hyear, digits_fixed hmonth, digits_fixed hday,
      digits_fixed hhour, digits_fixed hminute, digits_fixed hsecond, bind, Option.bind, char_cons]
    rw [fraction_chars t _ rfl]
    rfl
  simp only [parseDatetime, hfields, datetime]
  rw [dif_pos hvalid, dif_pos ⟨t.hour.isLt, t.minute.isLt, t.second.isLt, t.microsecond.isLt⟩]
  rfl

/-- A runtime with these parsers; other values than strings are not rendered. -/
def runtime : Runtime where
  str _ := ""
  parseDatetime := parseDatetime
  parseUuid := parseUuid

@[simp] theorem runtime_parseUuid : runtime.parseUuid = parseUuid := rfl

@[simp] theorem runtime_parseDatetime : runtime.parseDatetime = parseDatetime := rfl

theorem runtime_faithful : Faithful runtime := by
  constructor
  · intro u
    rw [runtime_parseUuid, parseUuid_str]
  · intro t
    rw [runtime_parseDatetime, parseDatetime_isoformat]

theorem str_inj {u v : UUID} (h : u.str = v.str) : u = v := by
  have hu := parseUuid_str u
  rw [h, parseUuid_str] at hu
  exact (Option.some.inj hu).symm

theorem str_ne_empty (u : UUID) : u.str ≠ "" := by
  intro h
  have hlen := congrArg List.length (filter_str u)
  rw [h, Digits.fixed_length] at hlen
  simp at hlen

end Parsers
