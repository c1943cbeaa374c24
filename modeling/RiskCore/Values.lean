import RiskCore.Digits

/-!
# Python values and the text they are rendered to

Identifiers, money, dates, instants and JSON documents as the services handle
them, with `str()` and `isoformat()` as the rendering functions. Money is a
`DecimalField(max_digits=12, decimal_places=2)`: a number of cents below 10^12,
so a decimal of another scale cannot be built. Instants are aware datetimes in
UTC with microseconds, which is what `timezone.now()` returns.
-/

namespace Values

/-- A `uuid.UUID`. -/
structure UUID where
  bits : BitVec 128
deriving DecidableEq

def UUID.str (u : UUID) : String :=
  let hex := Digits.fixed 16 32 u.bits.toNat
  String.ofList (hex.take 8 ++ '-' :: (hex.drop 8).take 4 ++ '-' :: (hex.drop 12).take 4 ++
    '-' :: (hex.drop 16).take 4 ++ '-' :: hex.drop 20)

structure Amount where
  cents : Int
  fits : cents.natAbs < 10 ^ 12
deriving DecidableEq

/-- The characters of `str(Decimal)` at scale two. -/
def Amount.chars (a : Amount) : List Char :=
  (if a.cents < 0 then ['-'] else []) ++
    (Nat.toDigits 10 (a.cents.natAbs / 100) ++ '.' :: Digits.fixed 10 2 (a.cents.natAbs % 100))

def Amount.str (a : Amount) : String := String.ofList a.chars

def isLeap (year : Nat) : Bool :=
  year % 4 = 0 && (year % 100 ≠ 0 || year % 400 = 0)

def daysInMonth (year month : Nat) : Nat :=
  if month = 2 then (if isLeap year then 29 else 28)
  else if month = 4 ∨ month = 6 ∨ month = 9 ∨ month = 11 then 30 else 31

/-- A `datetime.date`. -/
structure Date where
  year : Nat
  month : Nat
  day : Nat
  valid : 1 ≤ year ∧ year ≤ 9999 ∧ 1 ≤ month ∧ month ≤ 12 ∧
    1 ≤ day ∧ day ≤ daysInMonth year month
deriving DecidableEq

/-- Dates compare by year, then month, then day; the weights leave room for
every month and day. -/
def Date.key (d : Date) : Nat := (d.year * 16 + d.month) * 32 + d.day

instance : LT Date := ⟨fun a b => a.key < b.key⟩
instance : LE Date := ⟨fun a b => a.key ≤ b.key⟩
instance (a b : Date) : Decidable (a < b) := inferInstanceAs (Decidable (a.key < b.key))
instance (a b : Date) : Decidable (a ≤ b) := inferInstanceAs (Decidable (a.key ≤ b.key))

theorem Date.not_le {a b : Date} : ¬ a ≤ b ↔ b < a := Nat.not_le

def Date.chars (d : Date) : List Char :=
  Digits.fixed 10 4 d.year ++ '-' :: (Digits.fixed 10 2 d.month ++ '-' :: Digits.fixed 10 2 d.day)

def Date.isoformat (d : Date) : String := String.ofList d.chars

structure DateTime where
  date : Date
  hour : Fin 24
  minute : Fin 60
  second : Fin 60
  microsecond : Fin 1000000
deriving DecidableEq

def DateTime.key (t : DateTime) : Nat :=
  (((t.date.key * 24 + t.hour) * 60 + t.minute) * 60 + t.second) * 1000000 + t.microsecond

instance : LT DateTime := ⟨fun a b => a.key < b.key⟩
instance : LE DateTime := ⟨fun a b => a.key ≤ b.key⟩
instance (a b : DateTime) : Decidable (a < b) := inferInstanceAs (Decidable (a.key < b.key))
instance (a b : DateTime) : Decidable (a ≤ b) := inferInstanceAs (Decidable (a.key ≤ b.key))

/-- Microseconds are left out when they are zero, as `isoformat` does. -/
def DateTime.isoformat (t : DateTime) : String :=
  String.ofList (t.date.chars ++ 'T' :: Digits.fixed 10 2 t.hour ++ ':' ::
    Digits.fixed 10 2 t.minute ++ ':' :: Digits.fixed 10 2 t.second ++
    (if t.microsecond = 0 then [] else '.' :: Digits.fixed 10 6 t.microsecond) ++
    "+00:00".toList)

/-- A JSON document; an object keeps its keys in insertion order. -/
inductive Json where
  | null
  | bool (b : Bool)
  | num (mantissa exponent : Int)
  | str (s : String)
  | arr (items : List Json)
  | obj (fields : List (String × Json))

/-- A `dict` with string keys. -/
abbrev Dict := List (String × Json)

/-- `d[k] = v`: overwrite in place, or append a new key. -/
def Dict.set (d : Dict) (k : String) (v : Json) : Dict :=
  if (d.lookup k).isSome then d.map (fun e => if e.1 = k then (k, v) else e) else d ++ [(k, v)]

def Json.get? : Json → String → Option Json
  | .obj fields, k => fields.lookup k
  | _, _ => none

/-- A query parameter of a list endpoint; an absent or an empty one filters
nothing. -/
def passes (param : Option String) (value : String) : Bool :=
  match param with
  | some p => p = "" || p = value
  | none => true

theorem daysInMonth_le (year month : Nat) : daysInMonth year month ≤ 31 := by
  unfold daysInMonth
  split
  · split <;> omega
  · split <;> omega

theorem Date.isoformat_inj {a b : Date} (h : a.isoformat = b.isoformat) : a = b := by
  have hchars : a.chars = b.chars := String.ofList_injective h
  obtain ⟨ay, am, ad, hay, hay', _, ham, _, had⟩ := a
  obtain ⟨by', bm, bd, hby, hby', _, hbm, _, hbd⟩ := b
  have hadays := daysInMonth_le ay am
  have hbdays := daysInMonth_le by' bm
  obtain ⟨hyear, hrest⟩ := List.append_inj hchars (by simp)
  obtain ⟨hmonth, hday⟩ := List.append_inj (List.cons.inj hrest).2 (by simp)
  have ey : ay = by' := Digits.fixed_inj (by omega) (by omega) (by omega) (by omega) hyear
  have em : am = bm := Digits.fixed_inj (by omega) (by omega) (by omega) (by omega) hmonth
  have ed : ad = bd := Digits.fixed_inj (by omega) (by omega) (by omega) (by omega)
    (List.cons.inj hday).2
  subst ey em ed
  rfl

/-- The characters of an amount without its sign. -/
theorem unsigned_inj {n m : Nat}
    (h : Nat.toDigits 10 (n / 100) ++ '.' :: Digits.fixed 10 2 (n % 100) =
      Nat.toDigits 10 (m / 100) ++ '.' :: Digits.fixed 10 2 (m % 100)) : n = m := by
  obtain ⟨hunits, hcents⟩ := List.append_inj' h (by simp)
  have eunits := Digits.toDigits_inj hunits
  have ecents : n % 100 = m % 100 :=
    Digits.fixed_inj (by omega) (by omega) (by omega) (by omega) (List.cons.inj hcents).2
  omega

theorem not_signed {n : Nat} {rest tail : List Char} :
    '-' :: rest ≠ Nat.toDigits 10 n ++ tail := by
  intro h
  cases hd : Nat.toDigits 10 n with
  | nil => exact absurd hd Nat.toDigits_ne_nil
  | cons c cs =>
    rw [hd] at h
    have hc : '-' = c := (List.cons.inj h).1
    refine Digits.not_mem_toDigits (c := '-') (by decide) n ?_
    rw [hd, hc]
    exact List.mem_cons_self

theorem Amount.str_inj {a b : Amount} (h : a.str = b.str) : a = b := by
  have hchars : a.chars = b.chars := String.ofList_injective h
  obtain ⟨x, hx⟩ := a
  obtain ⟨y, hy⟩ := b
  simp only [Amount.chars] at hchars
  have hcents : x = y := by
    by_cases negx : x < 0 <;> by_cases negy : y < 0
    · rw [if_pos negx, if_pos negy] at hchars
      have := unsigned_inj (List.cons.inj hchars).2
      omega
    · rw [if_pos negx, if_neg negy] at hchars
      exact absurd hchars not_signed
    · rw [if_neg negx, if_pos negy] at hchars
      exact absurd hchars.symm not_signed
    · rw [if_neg negx, if_neg negy] at hchars
      have := unsigned_inj hchars
      omega
  subst hcents
  rfl

theorem Dict.lookup_set_new {d : Dict} {k : String} (v : Json) (h : d.lookup k = none)
    (j : String) : (d.set k v).lookup j = (d.lookup j).or (if j = k then some v else none) := by
  simp only [Dict.set, h, Option.isSome_none, Bool.false_eq_true, if_false, List.lookup_append]
  by_cases hj : j = k
  · simp [hj]
  · have hb : (j == k) = false := beq_eq_false_iff_ne.mpr hj
    simp [List.lookup_cons, hb, hj]

/-! ## A day for concrete runs -/

def exampleDay : Date := ⟨2025, 1, 15, by decide⟩

def exampleInstant (hour minute : Nat) : DateTime :=
  ⟨exampleDay, Fin.ofNat 24 hour, Fin.ofNat 60 minute, 0, 0⟩

end Values
