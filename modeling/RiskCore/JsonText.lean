import RiskCore.Parsers

/-!
# JSON as text

Printing a document the way `json.dumps` does by default, in ASCII with a blank
after each comma and colon, and reading a text. Readers differ in what they make
of numerals, of the constants that are no JSON, and of nesting that is too deep;
that is a dialect, a parameter. Reading takes two units of fuel for a character.
-/

namespace JsonText

open Values

/-! ## Printing -/

def hex4 (n : Nat) : List Char := Digits.fixed 16 4 n

/-- A character inside a string; those beyond ASCII are escaped as UTF-16 units. -/
def escape (c : Char) : List Char :=
  if c = '"' then ['\\', '"']
  else if c = '\\' then ['\\', '\\']
  else if c = '\n' then ['\\', 'n']
  else if c = '\r' then ['\\', 'r']
  else if c = '\t' then ['\\', 't']
  else if c = '\x0c' then ['\\', 'f']
  else if c = '\x08' then ['\\', 'b']
  else if 0x20 ≤ c.toNat ∧ c.toNat ≤ 0x7e then [c]
  else if c.toNat < 0x10000 then '\\' :: 'u' :: hex4 c.toNat
  else
    let n := c.toNat - 0x10000
    '\\' :: 'u' :: hex4 (0xd800 + n / 0x400) ++ '\\' :: 'u' :: hex4 (0xdc00 + n % 0x400)

def printString (s : String) : List Char := '"' :: (s.toList.flatMap escape ++ ['"'])

mutual
/-- `json.dumps`; numbers are printed by `number`. -/
def print (number : Int → Int → List Char) : Json → List Char
  | .null => ['n', 'u', 'l', 'l']
  | .bool true => ['t', 'r', 'u', 'e']
  | .bool false => ['f', 'a', 'l', 's', 'e']
  | .num mantissa exponent => number mantissa exponent
  | .str s => printString s
  | .arr [] => ['[', ']']
  | .arr (j :: js) => '[' :: (print number j ++ printItems number js)
  | .obj [] => ['{', '}']
  | .obj ((k, j) :: fields) =>
    '{' :: (printString k ++ ':' :: ' ' :: (print number j ++ printFields number fields))

/-- The items after the first, and the bracket. -/
def printItems (number : Int → Int → List Char) : List Json → List Char
  | [] => [']']
  | j :: js => ',' :: ' ' :: (print number j ++ printItems number js)

/-- The fields after the first, and the brace. -/
def printFields (number : Int → Int → List Char) : List (String × Json) → List Char
  | [] => ['}']
  | (k, j) :: fields => ',' :: ' ' :: (printString k ++ ':' :: ' ' ::
      (print number j ++ printFields number fields))
end

/-! ## Reading -/

/-- `malformed` is a `JSONDecodeError`, `raised` any other exception, and
`exhausted` does not occur. -/
inductive Outcome (α : Type) where
  | value (a : α) (rest : List Char)
  | malformed
  | raised
  | exhausted

def Outcome.bind {α β : Type} (o : Outcome α) (f : α → List Char → Outcome β) : Outcome β :=
  match o with
  | .value a rest => f a rest
  | .malformed => .malformed
  | .raised => .raised
  | .exhausted => .exhausted

/-- `number` is asked about a numeral and raises where it answers `none`; `constant`
about a word that is no JSON; `lone` stands for a surrogate without its pair, which
is no character; `depth` is how deep arrays and objects may nest. -/
structure Dialect where
  number : List Char → Option Json
  constant : List Char → Option Json
  lone : Nat → Char
  depth : Nat

def isBlank (c : Char) : Bool := c = ' ' || c = '\t' || c = '\n' || c = '\r'

def skip (cs : List Char) : List Char := cs.dropWhile isBlank

def simpleEscape : Char → Option Char
  | '"' => some '"'
  | '\\' => some '\\'
  | '/' => some '/'
  | 'b' => some '\x08'
  | 'f' => some '\x0c'
  | 'n' => some '\n'
  | 'r' => some '\r'
  | 't' => some '\t'
  | _ => none

/-- A character of a string, or a UTF-16 unit that was escaped. -/
inductive Piece where
  | char (c : Char)
  | unit (n : Nat)

/-- The pieces up to the closing quote, and what follows it. -/
def pieces : List Char → Option (List Piece × List Char)
  | [] => none
  | '"' :: cs => some ([], cs)
  | '\\' :: 'u' :: a :: b :: c :: d :: cs => do
    let n ← Parsers.numeral 16 [a, b, c, d]
    let (ps, rest) ← pieces cs
    return (.unit n :: ps, rest)
  | '\\' :: e :: cs => do
    let c ← simpleEscape e
    let (ps, rest) ← pieces cs
    return (.char c :: ps, rest)
  | c :: cs =>
    if c.toNat < 0x20 then none
    else do
      let (ps, rest) ← pieces cs
      return (.char c :: ps, rest)

def isHigh (n : Nat) : Bool := 0xd800 ≤ n && n < 0xdc00

def isLow (n : Nat) : Bool := 0xdc00 ≤ n && n < 0xe000

/-- Pairs of surrogates are put together. -/
def join (lone : Nat → Char) : List Piece → List Char
  | [] => []
  | .char c :: ps => c :: join lone ps
  | .unit hi :: .unit lo :: ps =>
    if isHigh hi && isLow lo then
      Char.ofNat (0x10000 + (hi - 0xd800) * 0x400 + (lo - 0xdc00)) :: join lone ps
    else if isHigh hi || isLow hi then lone hi :: join lone (.unit lo :: ps)
    else Char.ofNat hi :: join lone (.unit lo :: ps)
  | .unit n :: ps =>
    if isHigh n || isLow n then lone n :: join lone ps else Char.ofNat n :: join lone ps

/-- A string, from behind its opening quote. -/
def string (d : Dialect) (cs : List Char) : Outcome String :=
  match pieces cs with
  | some (ps, rest) => .value (String.ofList (join d.lone ps)) rest
  | none => .malformed

/-! ### Numerals -/

/-- The digits in front. -/
def digits (cs : List Char) : List Char × List Char :=
  (cs.takeWhile Char.isDigit, cs.dropWhile Char.isDigit)

/-- `(0|[1-9][0-9]*)`. -/
def integer : List Char → Option (List Char × List Char)
  | '0' :: cs => some (['0'], cs)
  | c :: cs => if c.isDigit then some (digits (c :: cs)) else none
  | [] => none

/-- `(\.[0-9]+)?`. -/
def fraction (cs : List Char) : List Char × List Char :=
  match cs with
  | '.' :: cs' => if (digits cs').1 = [] then ([], cs) else ('.' :: (digits cs').1, (digits cs').2)
  | _ => ([], cs)

def sign (cs : List Char) : List Char × List Char :=
  match cs with
  | '+' :: cs => (['+'], cs)
  | '-' :: cs => (['-'], cs)
  | cs => ([], cs)

/-- `([eE][-+]?[0-9]+)?`. -/
def power (cs : List Char) : List Char × List Char :=
  match cs with
  | e :: cs' =>
    let (s, cs'') := sign cs'
    if (e = 'e' ∨ e = 'E') ∧ (digits cs'').1 ≠ [] then
      (e :: s ++ (digits cs'').1, (digits cs'').2)
    else ([], cs)
  | [] => ([], cs)

/-- The numeral in front, and what follows it. -/
def numeral (cs : List Char) : Option (List Char × List Char) := do
  let (minus, cs) := match cs with
    | '-' :: cs => (['-'], cs)
    | cs => ([], cs)
  let (whole, cs) ← integer cs
  let (part, cs) := fraction cs
  let (scale, cs) := power cs
  return (minus ++ whole ++ part ++ scale, cs)

/-- `NaN`, `Infinity` and `-Infinity`, which are no JSON. -/
def word (cs : List Char) : Option (List Char × List Char) :=
  ["NaN".toList, "Infinity".toList, "-Infinity".toList].findSome? (fun w =>
    if w.isPrefixOf cs then some (w, cs.drop w.length) else none)

/-- What is neither a string nor in brackets. -/
def scalar (d : Dialect) (cs : List Char) : Outcome Json :=
  match cs with
  | 'n' :: 'u' :: 'l' :: 'l' :: cs => .value .null cs
  | 't' :: 'r' :: 'u' :: 'e' :: cs => .value (.bool true) cs
  | 'f' :: 'a' :: 'l' :: 's' :: 'e' :: cs => .value (.bool false) cs
  | cs =>
    match numeral cs with
    | some (text, rest) =>
      match d.number text with
      | some j => .value j rest
      | none => .raised
    | none =>
      match word cs with
      | some (text, rest) =>
        match d.constant text with
        | some j => .value j rest
        | none => .malformed
      | none => .malformed

/-! ### Values -/

/-- `dict(pairs)`. -/
def toDict (pairs : List (String × Json)) : Dict :=
  pairs.foldl (fun d pair => Dict.set d pair.1 pair.2) []

mutual
/-- The value in front; `depth` is left for brackets inside. -/
def value (d : Dialect) : Nat → Nat → List Char → Outcome Json
  | 0, _, _ => .exhausted
  | fuel + 1, depth, cs =>
    match cs with
    | '"' :: cs => (string d cs).bind (fun s rest => .value (.str s) rest)
    | '[' :: cs =>
      match depth with
      | 0 => .raised
      | depth + 1 =>
        match skip cs with
        | ']' :: rest => .value (.arr []) rest
        | cs => (items d fuel depth cs).bind (fun js rest => .value (.arr js) rest)
    | '{' :: cs =>
      match depth with
      | 0 => .raised
      | depth + 1 =>
        match skip cs with
        | '}' :: rest => .value (.obj []) rest
        | cs => (fields d fuel depth cs).bind (fun pairs rest => .value (.obj (toDict pairs)) rest)
    | cs => scalar d cs

/-- One item or more, up to the bracket. -/
def items (d : Dialect) : Nat → Nat → List Char → Outcome (List Json)
  | 0, _, _ => .exhausted
  | fuel + 1, depth, cs =>
    (value d fuel depth cs).bind (fun j rest =>
      match skip rest with
      | ']' :: rest => .value [j] rest
      | ',' :: rest => (items d fuel depth (skip rest)).bind (fun js rest => .value (j :: js) rest)
      | _ => .malformed)

/-- One field or more, up to the brace. -/
def fields (d : Dialect) : Nat → Nat → List Char → Outcome (List (String × Json))
  | 0, _, _ => .exhausted
  | fuel + 1, depth, cs =>
    match cs with
    | '"' :: cs =>
      (string d cs).bind (fun k rest =>
        match skip rest with
        | ':' :: rest =>
          (value d fuel depth (skip rest)).bind (fun j rest =>
            match skip rest with
            | '}' :: rest => .value [(k, j)] rest
            | ',' :: rest =>
              (fields d fuel depth (skip rest)).bind (fun pairs rest =>
                .value ((k, j) :: pairs) rest)
            | _ => .malformed)
        | _ => .malformed)
    | _ => .malformed
end

/-- What a text holds, and nothing after it. -/
inductive Read where
  | value (j : Json)
  | malformed
  | raised

/-- `json.loads`. -/
def loads (d : Dialect) (text : List Char) : Read :=
  if text.head? = some '\ufeff' then .malformed
  else
    match value d (2 * text.length + 1) d.depth (skip text) with
    | .value j rest => if skip rest = [] then .value j else .malformed
    | .malformed => .malformed
    | .raised => .raised
    | .exhausted => .raised

/-! ## Reading comes to an end -/

@[simp] theorem Outcome.bind_eq_value {α β : Type} {o : Outcome α} {f : α → List Char → Outcome β}
    {b : β} {rest : List Char} : o.bind f = .value b rest ↔
      ∃ a more, o = .value a more ∧ f a more = .value b rest := by
  cases o <;> simp [Outcome.bind]

@[simp] theorem Outcome.bind_eq_exhausted {α β : Type} {o : Outcome α}
    {f : α → List Char → Outcome β} : o.bind f = .exhausted ↔
      o = .exhausted ∨ ∃ a more, o = .value a more ∧ f a more = .exhausted := by
  cases o <;> simp [Outcome.bind]

theorem skip_le (cs : List Char) : (skip cs).length ≤ cs.length :=
  (List.dropWhile_sublist _).length_le

theorem pieces_lt {cs : List Char} {ps : List Piece} {rest : List Char}
    (h : pieces cs = some (ps, rest)) : rest.length < cs.length := by
  induction cs using pieces.induct generalizing ps rest with
  | case1 => cases h
  | case2 cs =>
    cases h
    exact Nat.lt_succ_self _
  | case3 a b c d cs ih =>
    simp only [pieces, Option.bind_eq_bind, Option.bind_eq_some_iff] at h
    obtain ⟨n, _, ⟨ps', rest'⟩, hp, h⟩ := h
    cases h
    have := ih hp
    simp only [List.length_cons]
    omega
  | case4 e cs hu ih =>
    rw [pieces] at h
    · simp only [Option.bind_eq_bind, Option.bind_eq_some_iff] at h
      obtain ⟨c, _, ⟨ps', rest'⟩, hp, h⟩ := h
      cases h
      have := ih hp
      simp only [List.length_cons]
      omega
    · exact hu
  | case5 c cs quote hex short low =>
    rw [pieces] at h
    · rw [if_pos low] at h
      cases h
    all_goals assumption
  | case6 c cs quote hex short low ih =>
    rw [pieces] at h
    · rw [if_neg low] at h
      simp only [Option.bind_eq_bind, Option.bind_eq_some_iff] at h
      obtain ⟨⟨ps', rest'⟩, hp, h⟩ := h
      cases h
      exact Nat.lt_succ_of_lt (ih hp)
    all_goals assumption

theorem string_lt {d : Dialect} {cs rest : List Char} {s : String}
    (h : string d cs = .value s rest) : rest.length < cs.length := by
  unfold string at h
  split at h
  · rename_i hp
    cases h
    exact pieces_lt hp
  · cases h

theorem digits_le (cs : List Char) : (digits cs).2.length ≤ cs.length :=
  (List.dropWhile_sublist _).length_le

theorem integer_lt {cs text rest : List Char} (h : integer cs = some (text, rest)) :
    rest.length < cs.length := by
  unfold integer at h
  split at h
  · cases h
    simp
  · rename_i c cs _
    split at h
    · rename_i hc
      cases h
      rw [List.dropWhile_cons_of_pos hc]
      exact Nat.lt_succ_of_le (digits_le cs)
    · cases h
  · cases h

theorem fraction_le (cs : List Char) : (fraction cs).2.length ≤ cs.length := by
  unfold fraction
  split
  · rename_i cs'
    have hle := digits_le cs'
    split
    · exact Nat.le_refl _
    · exact Nat.le_succ_of_le hle
  · exact Nat.le_refl _

theorem sign_le (cs : List Char) : (sign cs).2.length ≤ cs.length := by
  unfold sign
  split <;> simp

theorem power_le (cs : List Char) : (power cs).2.length ≤ cs.length := by
  unfold power
  split
  · rename_i e cs'
    have hle := Nat.le_trans (digits_le (sign cs').2) (sign_le cs')
    simp only
    split
    · exact Nat.le_succ_of_le hle
    · exact Nat.le_refl _
  · exact Nat.le_refl _

theorem numeral_lt {cs text rest : List Char} (h : numeral cs = some (text, rest)) :
    rest.length < cs.length := by
  simp only [numeral, Option.bind_eq_bind, Option.bind_eq_some_iff] at h
  obtain ⟨⟨whole, more⟩, hwhole, h⟩ := h
  cases h
  have hinteger := integer_lt hwhole
  have hfraction := fraction_le more
  have hpower := power_le (fraction more).2
  have hle := Nat.le_trans hpower hfraction
  split at hinteger
  · exact Nat.lt_succ_of_lt (Nat.lt_of_le_of_lt hle hinteger)
  · exact Nat.lt_of_le_of_lt hle hinteger

theorem word_lt {cs text rest : List Char} (h : word cs = some (text, rest)) :
    rest.length < cs.length := by
  obtain ⟨w, hw, h⟩ := List.exists_of_findSome?_eq_some h
  split at h
  · rename_i hprefix
    cases h
    have hlen := (List.isPrefixOf_iff_prefix.mp hprefix).length_le
    have hpos : 0 < text.length := by
      have all : ∀ w ∈ ["NaN".toList, "Infinity".toList, "-Infinity".toList], 0 < w.length := by
        decide
      exact all text hw
    rw [List.length_drop]
    omega
  · cases h

theorem scalar_lt {d : Dialect} {cs rest : List Char} {j : Json}
    (h : scalar d cs = .value j rest) : rest.length < cs.length := by
  unfold scalar at h
  split at h
  · cases h
    simp only [List.length_cons]
    omega
  · cases h
    simp only [List.length_cons]
    omega
  · cases h
    simp only [List.length_cons]
    omega
  · split at h
    · rename_i hn
      split at h
      · cases h
        exact numeral_lt hn
      · cases h
    · split at h
      · rename_i hw
        split at h
        · cases h
          exact word_lt hw
        · cases h
      · cases h

theorem scalar_ne_exhausted (d : Dialect) (cs : List Char) : scalar d cs ≠ .exhausted := by
  unfold scalar
  intro h
  repeat' split at h
  all_goals cases h

theorem string_ne_exhausted (d : Dialect) (cs : List Char) : string d cs ≠ .exhausted := by
  unfold string
  intro h
  split at h <;> cases h

section
variable (d : Dialect) (fuel : Nat)

/-- A reader with this fuel leaves a shorter text. -/
def Shortens {α : Type} (read : Nat → Nat → List Char → Outcome α) : Prop :=
  ∀ depth cs a rest, read fuel depth cs = .value a rest → rest.length < cs.length

variable {d fuel}

theorem value_lt (hi : Shortens fuel (items d)) (hf : Shortens fuel (fields d)) :
    Shortens (fuel + 1) (value d) := by
  intro depth cs j rest h
  unfold value at h
  split at h
  · obtain ⟨s, more, hs, h⟩ := Outcome.bind_eq_value.mp h
    cases h
    exact Nat.lt_succ_of_lt (string_lt hs)
  · rename_i cs
    have hskip := skip_le cs
    split at h
    · cases h
    · split at h
      · rename_i heq
        cases h
        rw [heq, List.length_cons] at hskip
        simp only [List.length_cons]
        omega
      · obtain ⟨js, more, hs, h⟩ := Outcome.bind_eq_value.mp h
        cases h
        have := hi _ _ _ _ hs
        simp only [List.length_cons]
        omega
  · rename_i cs
    have hskip := skip_le cs
    split at h
    · cases h
    · split at h
      · rename_i heq
        cases h
        rw [heq, List.length_cons] at hskip
        simp only [List.length_cons]
        omega
      · obtain ⟨js, more, hs, h⟩ := Outcome.bind_eq_value.mp h
        cases h
        have := hf _ _ _ _ hs
        simp only [List.length_cons]
        omega
  · exact scalar_lt h

theorem items_lt (hv : Shortens fuel (value d)) (hi : Shortens fuel (items d)) :
    Shortens (fuel + 1) (items d) := by
  intro depth cs js rest h
  unfold items at h
  obtain ⟨j, more, hj, h⟩ := Outcome.bind_eq_value.mp h
  have hlt := hv _ _ _ _ hj
  have hskip := skip_le more
  split at h
  · rename_i heq
    cases h
    rw [heq, List.length_cons] at hskip
    omega
  · rename_i more' heq
    rw [heq, List.length_cons] at hskip
    have hskip' := skip_le more'
    obtain ⟨js, last, hjs, h⟩ := Outcome.bind_eq_value.mp h
    cases h
    have := hi _ _ _ _ hjs
    omega
  · cases h

theorem fields_lt (hv : Shortens fuel (value d)) (hf : Shortens fuel (fields d)) :
    Shortens (fuel + 1) (fields d) := by
  intro depth cs pairs rest h
  unfold fields at h
  split at h
  · rename_i cs
    obtain ⟨k, more, hk, h⟩ := Outcome.bind_eq_value.mp h
    have hkey := string_lt hk
    have hskip := skip_le more
    split at h
    · rename_i after heq
      rw [heq, List.length_cons] at hskip
      have hskip' := skip_le after
      obtain ⟨j, more', hj, h⟩ := Outcome.bind_eq_value.mp h
      have hlt := hv _ _ _ _ hj
      have hlast := skip_le more'
      rw [List.length_cons]
      split at h
      · rename_i heq'
        cases h
        rw [heq', List.length_cons] at hlast
        omega
      · rename_i next heq'
        rw [heq', List.length_cons] at hlast
        have hnext := skip_le next
        obtain ⟨pairs, last, hpairs, h⟩ := Outcome.bind_eq_value.mp h
        cases h
        have := hf _ _ _ _ hpairs
        omega
      · cases h
    · cases h
  · cases h

variable (d fuel) in
theorem shortens :
    Shortens fuel (value d) ∧ Shortens fuel (items d) ∧ Shortens fuel (fields d) := by
  induction fuel with
  | zero =>
    refine ⟨?_, ?_, ?_⟩ <;> intro depth cs a rest h <;> cases h
  | succ fuel ih =>
    obtain ⟨hv, hi, hf⟩ := ih
    exact ⟨value_lt hi hf, items_lt hv hi, fields_lt hv hf⟩

/-- With two units of fuel for a character and `more` besides a reader comes to its end. -/
def Ends {α : Type} (fuel more : Nat) (read : Nat → Nat → List Char → Outcome α) : Prop :=
  ∀ depth cs, 2 * cs.length + more ≤ fuel → read fuel depth cs ≠ .exhausted

theorem value_ends (hi : Ends fuel 2 (items d)) (hf : Ends fuel 2 (fields d)) :
    Ends (fuel + 1) 1 (value d) := by
  intro depth cs hfuel h
  unfold value at h
  split at h
  · rcases Outcome.bind_eq_exhausted.mp h with hs | ⟨s, more, _, h⟩
    · exact string_ne_exhausted d _ hs
    · cases h
  · rename_i cs
    have hskip := skip_le cs
    rw [List.length_cons] at hfuel
    split at h
    · cases h
    · split at h
      · cases h
      · rcases Outcome.bind_eq_exhausted.mp h with hs | ⟨js, more, _, h⟩
        · exact hi _ _ (by omega) hs
        · cases h
  · rename_i cs
    have hskip := skip_le cs
    rw [List.length_cons] at hfuel
    split at h
    · cases h
    · split at h
      · cases h
      · rcases Outcome.bind_eq_exhausted.mp h with hs | ⟨js, more, _, h⟩
        · exact hf _ _ (by omega) hs
        · cases h
  · exact scalar_ne_exhausted d _ h

theorem items_end (hv : Ends fuel 1 (value d)) (hi : Ends fuel 2 (items d)) :
    Ends (fuel + 1) 2 (items d) := by
  intro depth cs hfuel h
  unfold items at h
  rcases Outcome.bind_eq_exhausted.mp h with hj | ⟨j, more, hj, h⟩
  · exact hv _ _ (by omega) hj
  · have hlt := (shortens d fuel).1 _ _ _ _ hj
    have hskip := skip_le more
    split at h
    · cases h
    · rename_i more' heq
      rw [heq, List.length_cons] at hskip
      have hskip' := skip_le more'
      rcases Outcome.bind_eq_exhausted.mp h with hjs | ⟨js, last, _, h⟩
      · exact hi _ _ (by omega) hjs
      · cases h
    · cases h

theorem fields_end (hv : Ends fuel 1 (value d)) (hf : Ends fuel 2 (fields d)) :
    Ends (fuel + 1) 2 (fields d) := by
  intro depth cs hfuel h
  unfold fields at h
  split at h
  · rename_i cs
    rw [List.length_cons] at hfuel
    rcases Outcome.bind_eq_exhausted.mp h with hk | ⟨k, more, hk, h⟩
    · exact string_ne_exhausted d _ hk
    · have hkey := string_lt hk
      have hskip := skip_le more
      split at h
      · rename_i after heq
        rw [heq, List.length_cons] at hskip
        have hskip' := skip_le after
        rcases Outcome.bind_eq_exhausted.mp h with hj | ⟨j, more', hj, h⟩
        · exact hv _ _ (by omega) hj
        · have hlt := (shortens d fuel).1 _ _ _ _ hj
          have hlast := skip_le more'
          split at h
          · cases h
          · rename_i next heq'
            rw [heq', List.length_cons] at hlast
            have hnext := skip_le next
            rcases Outcome.bind_eq_exhausted.mp h with hpairs | ⟨pairs, last, _, h⟩
            · exact hf _ _ (by omega) hpairs
            · cases h
          · cases h
      · cases h
  · cases h

variable (d fuel) in
theorem reading_ends : Ends fuel 1 (value d) ∧ Ends fuel 2 (items d) ∧ Ends fuel 2 (fields d) := by
  induction fuel with
  | zero => refine ⟨?_, ?_, ?_⟩ <;> intro depth cs hfuel <;> omega
  | succ fuel ih =>
    obtain ⟨hv, hi, hf⟩ := ih
    exact ⟨value_ends hi hf, items_end hv hi, fields_end hv hf⟩

end

/-- The fuel `loads` gives is enough. -/
theorem value_ne_exhausted (d : Dialect) (text : List Char) :
    value d (2 * text.length + 1) d.depth (skip text) ≠ .exhausted := by
  have hskip := skip_le text
  exact (reading_ends d (2 * text.length + 1)).1 d.depth (skip text) (by omega)

end JsonText
