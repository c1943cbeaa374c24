import RiskCore.JsonText

/-!
# What is printed is read

A document without numbers, printed and read back, is itself in every dialect that
nests deep enough: characters one by one, then values by the fuel of the reader.
-/

namespace JsonText

open Values

/-! ## Strings -/

/-- The characters with an escape of two characters. -/
def shortEscaped : List Char := ['"', '\\', '\n', '\r', '\t', '\x0c', '\x08']

/-- What the escape of a character is read as. -/
def piecesOf (c : Char) : List Piece :=
  if c ∈ shortEscaped ∨ (0x20 ≤ c.toNat ∧ c.toNat ≤ 0x7e) then [.char c]
  else if c.toNat < 0x10000 then [.unit c.toNat]
  else
    let n := c.toNat - 0x10000
    [.unit (0xd800 + n / 0x400), .unit (0xdc00 + n % 0x400)]

theorem pieces_hex4 {n : Nat} (h : n < 0x10000) (cs : List Char) :
    pieces ('\\' :: 'u' :: (hex4 n ++ cs)) = (pieces cs).map (fun r => (.unit n :: r.1, r.2)) := by
  have hlen : (hex4 n).length = 4 := Digits.fixed_length 16 4 n
  obtain ⟨a, b, c, d, hdigits⟩ : ∃ a b c d, hex4 n = [a, b, c, d] := by
    match hex4 n, hlen with
    | [a, b, c, d], _ => exact ⟨a, b, c, d, rfl⟩
  have hnum : Parsers.numeral 16 [a, b, c, d] = some n := by
    rw [← hdigits]
    exact Parsers.numeral_fixed (by decide) (by decide) h
  rw [hdigits]
  simp only [List.cons_append, List.nil_append, pieces, hnum]
  cases pieces cs <;> rfl

theorem pieces_plain {c : Char} (quote : c ≠ '"') (backslash : c ≠ '\\') (h : 0x20 ≤ c.toNat)
    (cs : List Char) :
    pieces (c :: cs) = (pieces cs).map (fun r => (.char c :: r.1, r.2)) := by
  have hlow : ¬ c.toNat < 0x20 := Nat.not_lt.mpr h
  rw [pieces]
  · rw [if_neg hlow]
    cases pieces cs <;> rfl
  · exact fun he => quote he
  · intro a b c' d cs' he _
    exact backslash he
  · intro e cs' he _
    exact backslash he

theorem pieces_short {e c : Char} (hu : e ≠ 'u') (he : simpleEscape e = some c) (cs : List Char) :
    pieces ('\\' :: e :: cs) = (pieces cs).map (fun r => (.char c :: r.1, r.2)) := by
  rw [pieces]
  · rw [he]
    cases pieces cs <;> rfl
  · intro a b c' d cs' he' _
    exact hu he'

theorem escape_short {c : Char} (h : c ∈ shortEscaped) :
    ∃ e, e ≠ 'u' ∧ simpleEscape e = some c ∧ escape c = ['\\', e] := by
  simp only [shortEscaped, List.mem_cons, List.not_mem_nil, or_false] at h
  rcases h with rfl | rfl | rfl | rfl | rfl | rfl | rfl
  · exact ⟨'"', by decide, rfl, rfl⟩
  · exact ⟨'\\', by decide, rfl, rfl⟩
  · exact ⟨'n', by decide, rfl, rfl⟩
  · exact ⟨'r', by decide, rfl, rfl⟩
  · exact ⟨'t', by decide, rfl, rfl⟩
  · exact ⟨'f', by decide, rfl, rfl⟩
  · exact ⟨'b', by decide, rfl, rfl⟩

theorem escape_long {c : Char} (h : c ∉ shortEscaped) :
    escape c = if 0x20 ≤ c.toNat ∧ c.toNat ≤ 0x7e then [c]
      else if c.toNat < 0x10000 then '\\' :: 'u' :: hex4 c.toNat
      else '\\' :: 'u' :: hex4 (0xd800 + (c.toNat - 0x10000) / 0x400) ++
        '\\' :: 'u' :: hex4 (0xdc00 + (c.toNat - 0x10000) % 0x400) := by
  simp only [shortEscaped, List.mem_cons, List.not_mem_nil, or_false, not_or] at h
  obtain ⟨h1, h2, h3, h4, h5, h6, h7⟩ := h
  simp only [escape, if_neg h1, if_neg h2, if_neg h3, if_neg h4, if_neg h5, if_neg h6, if_neg h7]

/-- A character is a Unicode scalar value. -/
theorem toNat_scalar (c : Char) : c.toNat < 0xd800 ∨ 0xdfff < c.toNat ∧ c.toNat < 0x110000 :=
  c.valid

theorem pieces_escape (c : Char) (cs : List Char) :
    pieces (escape c ++ cs) = (pieces cs).map (fun r => (piecesOf c ++ r.1, r.2)) := by
  by_cases short : c ∈ shortEscaped
  · obtain ⟨e, hu, he, hescape⟩ := escape_short short
    rw [hescape, piecesOf, if_pos (Or.inl short)]
    exact pieces_short hu he cs
  · rw [escape_long short]
    by_cases plain : 0x20 ≤ c.toNat ∧ c.toNat ≤ 0x7e
    · have notQuote : c ≠ '"' := by
        rintro rfl
        exact short (by decide)
      have notBackslash : c ≠ '\\' := by
        rintro rfl
        exact short (by decide)
      rw [if_pos plain, piecesOf, if_pos (Or.inr plain)]
      exact pieces_plain notQuote notBackslash plain.1 cs
    · rw [if_neg plain, piecesOf, if_neg (not_or.mpr ⟨short, plain⟩)]
      by_cases small : c.toNat < 0x10000
      · rw [if_pos small, if_pos small]
        exact pieces_hex4 small cs
      · have hmax := toNat_scalar c
        rw [if_neg small, if_neg small]
        simp only [List.cons_append, List.append_assoc]
        rw [pieces_hex4 (by omega), pieces_hex4 (by omega)]
        cases pieces cs <;> rfl

theorem not_surrogate (c : Char) : (isHigh c.toNat || isLow c.toNat) = false := by
  have h := toNat_scalar c
  simp only [isHigh, isLow, Bool.or_eq_false_iff, Bool.and_eq_false_iff, decide_eq_false_iff_not]
  omega

theorem join_unit {n : Nat} (h : (isHigh n || isLow n) = false) (lone : Nat → Char)
    (ps : List Piece) : join lone (.unit n :: ps) = Char.ofNat n :: join lone ps := by
  obtain ⟨high, low⟩ := Bool.or_eq_false_iff.mp h
  cases ps with
  | nil => simp [join, high, low]
  | cons p ps => cases p <;> simp [join, high, low]

theorem join_pair {hi lo : Nat} (high : isHigh hi = true) (low : isLow lo = true)
    (lone : Nat → Char) (ps : List Piece) : join lone (.unit hi :: .unit lo :: ps) =
      Char.ofNat (0x10000 + (hi - 0xd800) * 0x400 + (lo - 0xdc00)) :: join lone ps := by
  simp [join, high, low]

theorem join_escape (lone : Nat → Char) (c : Char) (ps : List Piece) :
    join lone (piecesOf c ++ ps) = c :: join lone ps := by
  unfold piecesOf
  split
  · rfl
  · split
    · rw [List.singleton_append, join_unit (not_surrogate c), Char.ofNat_toNat]
    · have h := toNat_scalar c
      have high : isHigh (0xd800 + (c.toNat - 0x10000) / 0x400) = true := by
        simp only [isHigh, Bool.and_eq_true, decide_eq_true_eq]
        omega
      have low : isLow (0xdc00 + (c.toNat - 0x10000) % 0x400) = true := by
        simp only [isLow, Bool.and_eq_true, decide_eq_true_eq]
        omega
      have same : 0x10000 + (0xd800 + (c.toNat - 0x10000) / 0x400 - 0xd800) * 0x400 +
          (0xdc00 + (c.toNat - 0x10000) % 0x400 - 0xdc00) = c.toNat := by omega
      simp only [List.cons_append, List.nil_append]
      rw [join_pair high low, same, Char.ofNat_toNat]

theorem pieces_flatMap (cs rest : List Char) :
    pieces (cs.flatMap escape ++ '"' :: rest) = some (cs.flatMap piecesOf, rest) := by
  induction cs with
  | nil => rfl
  | cons c cs ih =>
    rw [List.flatMap_cons, List.append_assoc, pieces_escape, ih]
    rfl

theorem join_flatMap (lone : Nat → Char) (cs : List Char) :
    join lone (cs.flatMap piecesOf) = cs := by
  induction cs with
  | nil => rfl
  | cons c cs ih => rw [List.flatMap_cons, join_escape, ih]

theorem string_print (d : Dialect) (s : String) (rest : List Char) :
    string d (s.toList.flatMap escape ++ '"' :: rest) = .value s rest := by
  simp only [string, pieces_flatMap, join_flatMap, String.ofList_toList]

/-! ## Values -/

/-- A document without numbers, whose objects have distinct keys and whose brackets
nest at most `n` deep. -/
inductive Plain : Nat → Json → Prop where
  | null {n} : Plain n .null
  | bool {n b} : Plain n (.bool b)
  | str {n s} : Plain n (.str s)
  | arr {n items} (h : ∀ j ∈ items, Plain n j) : Plain (n + 1) (.arr items)
  | obj {n fields} (keys : (fields.map Prod.fst).Nodup) (h : ∀ f ∈ fields, Plain n f.2) :
      Plain (n + 1) (.obj fields)

theorem toDict_append (pairs rest : List (String × Json))
    (h : ((pairs ++ rest).map Prod.fst).Nodup) :
    rest.foldl (fun d pair => Dict.set d pair.1 pair.2) pairs = pairs ++ rest := by
  induction rest generalizing pairs with
  | nil => simp
  | cons pair rest ih =>
    have absent : pairs.lookup pair.1 = none := by
      rw [List.lookup_eq_none_iff]
      intro p hp
      simp only [List.map_append, List.map_cons, List.nodup_append] at h
      have hne := h.2.2 p.1 (List.mem_map_of_mem hp) pair.1 List.mem_cons_self
      exact bne_iff_ne.mpr (fun he => hne he.symm)
    rw [List.foldl_cons, Dict.set, absent]
    simp only [Option.isSome_none, Bool.false_eq_true, if_false]
    rw [ih]
    · simp
    · simpa using h

theorem toDict_nodup {pairs : List (String × Json)} (h : (pairs.map Prod.fst).Nodup) :
    toDict pairs = pairs := toDict_append [] pairs h

theorem skip_cons {c : Char} (h : isBlank c = false) (cs : List Char) :
    skip (c :: cs) = c :: cs := by
  simp [skip, h]

theorem skip_blank (cs : List Char) : skip (' ' :: cs) = skip cs := rfl

/-- The characters a printed value can begin with. -/
def initials : List Char := ['n', 't', 'f', '"', '[', '{']

theorem print_head (number : Int → Int → List Char) {n : Nat} {j : Json} (h : Plain n j) :
    ∃ c ∈ initials, ∃ cs, print number j = c :: cs := by
  cases h with
  | null => exact ⟨'n', by decide, _, rfl⟩
  | @bool _ b =>
    cases b
    · exact ⟨'f', by decide, _, rfl⟩
    · exact ⟨'t', by decide, _, rfl⟩
  | str => exact ⟨'"', by decide, _, rfl⟩
  | @arr _ items =>
    cases items with
    | nil => exact ⟨'[', by decide, _, rfl⟩
    | cons j js => exact ⟨'[', by decide, _, by rw [print]⟩
  | @obj _ fields =>
    cases fields with
    | nil => exact ⟨'{', by decide, _, rfl⟩
    | cons f fields => exact ⟨'{', by decide, _, by rw [print]⟩

theorem initial {c : Char} (h : c ∈ initials) :
    isBlank c = false ∧ c ≠ ']' ∧ c ≠ '\ufeff' := by
  simp only [initials, List.mem_cons, List.not_mem_nil, or_false] at h
  rcases h with rfl | rfl | rfl | rfl | rfl | rfl
  all_goals exact ⟨rfl, by decide, by decide⟩

section
variable (d : Dialect) (number : Int → Int → List Char) (fuel : Nat)

def ReadsValue : Prop := ∀ n j depth rest, Plain n j → n ≤ depth →
  2 * (print number j).length ≤ fuel →
    value d fuel depth (print number j ++ rest) = .value j rest

def ReadsItems : Prop := ∀ n j js depth rest, (∀ i ∈ j :: js, Plain n i) → n ≤ depth →
  2 * ((print number j).length + (printItems number js).length) ≤ fuel →
    items d fuel depth (print number j ++ printItems number js ++ rest) = .value (j :: js) rest

def ReadsFields : Prop := ∀ n k j fs depth rest, (∀ f ∈ (k, j) :: fs, Plain n f.2) → n ≤ depth →
  2 * ((print number j).length + (printFields number fs).length) ≤ fuel →
    fields d fuel depth (printString k ++ ':' :: ' ' :: (print number j ++ printFields number fs) ++
      rest) = .value ((k, j) :: fs) rest

variable {d number fuel}

theorem skip_print {n : Nat} {j : Json} (h : Plain n j) (rest : List Char) :
    skip (print number j ++ rest) = print number j ++ rest := by
  obtain ⟨c, hc, cs, hprint⟩ := print_head number h
  rw [hprint, List.cons_append, skip_cons (initial hc).1]

theorem items_last {depth : Nat} {cs rest : List Char} {j : Json}
    (h : value d fuel depth cs = .value j (']' :: rest)) :
    items d (fuel + 1) depth cs = .value [j] rest := by
  rw [items, h]
  rfl

theorem items_next {depth : Nat} {cs rest more : List Char} {j : Json} {js : List Json}
    (h : value d fuel depth cs = .value j (',' :: rest))
    (hrest : items d fuel depth (skip rest) = .value js more) :
    items d (fuel + 1) depth cs = .value (j :: js) more := by
  have hcomma : skip (',' :: rest) = ',' :: rest := rfl
  rw [items, h]
  simp only [Outcome.bind, hcomma, hrest]

theorem reads_items (hv : ReadsValue d number fuel) (hi : ReadsItems d number fuel) :
    ReadsItems d number (fuel + 1) := by
  intro n j js depth rest hplain hn hfuel
  have hj := hplain j List.mem_cons_self
  cases js with
  | nil =>
    simp only [printItems, List.length_singleton] at hfuel
    rw [List.append_assoc]
    exact items_last (hv n j depth _ hj hn (by omega))
  | cons j' js =>
    simp only [printItems, List.length_cons, List.length_append] at hfuel
    have hjs : ∀ i ∈ j' :: js, Plain n i := fun i hi => hplain i (List.mem_cons_of_mem j hi)
    have htext : print number j ++ printItems number (j' :: js) ++ rest =
        print number j ++ ',' :: ' ' :: (print number j' ++ printItems number js ++ rest) := by
      simp [printItems]
    rw [htext]
    refine items_next (hv n j depth _ hj hn (by omega)) ?_
    rw [skip_blank, List.append_assoc, skip_print (hjs j' List.mem_cons_self), ← List.append_assoc]
    exact hi n j' js depth rest hjs hn (by omega)

theorem fields_last {depth : Nat} {cs more rest : List Char} {k : String} {j : Json}
    (hk : string d cs = .value k (':' :: ' ' :: more)) (hmore : skip more = more)
    (h : value d fuel depth more = .value j ('}' :: rest)) :
    fields d (fuel + 1) depth ('"' :: cs) = .value [(k, j)] rest := by
  have hcolon : skip (':' :: ' ' :: more) = ':' :: ' ' :: more := rfl
  have hbrace : skip ('}' :: rest) = '}' :: rest := rfl
  rw [fields, hk]
  simp only [Outcome.bind, hcolon, skip_blank, hmore, h, hbrace]

theorem fields_next {depth : Nat} {cs more rest last : List Char} {k : String} {j : Json}
    {pairs : List (String × Json)}
    (hk : string d cs = .value k (':' :: ' ' :: more)) (hmore : skip more = more)
    (h : value d fuel depth more = .value j (',' :: rest))
    (hrest : fields d fuel depth (skip rest) = .value pairs last) :
    fields d (fuel + 1) depth ('"' :: cs) = .value ((k, j) :: pairs) last := by
  have hcolon : skip (':' :: ' ' :: more) = ':' :: ' ' :: more := rfl
  have hcomma : skip (',' :: rest) = ',' :: rest := rfl
  rw [fields, hk]
  simp only [Outcome.bind, hcolon, skip_blank, hmore, h, hcomma, hrest]

theorem reads_fields (hv : ReadsValue d number fuel) (hf : ReadsFields d number fuel) :
    ReadsFields d number (fuel + 1) := by
  intro n k j fs depth rest hplain hn hfuel
  have hj : Plain n j := hplain (k, j) List.mem_cons_self
  cases fs with
  | nil =>
    simp only [printFields, List.length_singleton] at hfuel
    have htext : printString k ++ ':' :: ' ' :: (print number j ++ printFields number []) ++ rest =
        '"' :: (k.toList.flatMap escape ++
          '"' :: ':' :: ' ' :: (print number j ++ '}' :: rest)) := by
      simp [printString, printFields]
    rw [htext]
    exact fields_last (string_print d k _) (skip_print hj _) (hv n j depth _ hj hn (by omega))
  | cons f fs =>
    obtain ⟨k', j'⟩ := f
    simp only [printFields, List.length_cons, List.length_append] at hfuel
    have hfs : ∀ f ∈ (k', j') :: fs, Plain n f.2 := fun f hf => hplain f (List.mem_cons_of_mem _ hf)
    have htext : printString k ++ ':' :: ' ' :: (print number j ++
        printFields number ((k', j') :: fs)) ++ rest =
        '"' :: (k.toList.flatMap escape ++ '"' :: ':' :: ' ' :: (print number j ++ ',' :: ' ' ::
          (printString k' ++ ':' :: ' ' :: (print number j' ++ printFields number fs) ++
            rest))) := by
      simp [printString, printFields]
    rw [htext]
    refine fields_next (string_print d k _) (skip_print hj _) (hv n j depth _ hj hn (by omega)) ?_
    exact hf n k' j' fs depth rest hfs hn (by omega)

theorem value_items {depth : Nat} {cs rest : List Char} {js : List Json}
    (hskip : skip cs = cs) (hend : cs.head? ≠ some ']')
    (h : items d fuel depth cs = .value js rest) :
    value d (fuel + 1) (depth + 1) ('[' :: cs) = .value (.arr js) rest := by
  rw [value, hskip]
  split
  · rename_i heq
    exact absurd rfl hend
  · rw [h]
    rfl

theorem value_fields {depth : Nat} {cs rest : List Char} {pairs : List (String × Json)}
    (h : fields d fuel depth ('"' :: cs) = .value pairs rest) :
    value d (fuel + 1) (depth + 1) ('{' :: '"' :: cs) = .value (.obj (toDict pairs)) rest := by
  have hskip : skip ('"' :: cs) = '"' :: cs := rfl
  rw [value, hskip]
  split
  · rename_i heq
    cases heq
  · rw [h]
    rfl

theorem reads_value (hi : ReadsItems d number fuel) (hf : ReadsFields d number fuel) :
    ReadsValue d number (fuel + 1) := by
  intro n j depth rest hplain hn hfuel
  cases hplain with
  | null => rfl
  | @bool _ b => cases b <;> rfl
  | @str _ s =>
    have htext : print number (.str s) ++ rest =
        '"' :: (s.toList.flatMap escape ++ '"' :: rest) := by
      simp [print, printString]
    rw [htext, value, string_print]
    rfl
  | @arr n items h =>
    obtain ⟨depth, rfl⟩ : ∃ k, depth = k + 1 := ⟨depth - 1, by omega⟩
    cases items with
    | nil => rfl
    | cons j js =>
      simp only [print, List.length_cons, List.length_append] at hfuel
      have hj := h j List.mem_cons_self
      have htext : print number (.arr (j :: js)) ++ rest =
          '[' :: (print number j ++ printItems number js ++ rest) := by
        simp [print]
      obtain ⟨c, hc, cs, hprint⟩ := print_head number hj
      rw [htext]
      refine value_items ?_ ?_ (hi n j js depth rest h (by omega) (by omega))
      · rw [List.append_assoc, skip_print hj]
      · rw [hprint]
        simpa using (initial hc).2.1
  | @obj n fields keys h =>
    obtain ⟨depth, rfl⟩ : ∃ k, depth = k + 1 := ⟨depth - 1, by omega⟩
    cases fields with
    | nil => rfl
    | cons f fs =>
      obtain ⟨k, j⟩ := f
      simp only [print, List.length_cons, List.length_append] at hfuel
      have hread := hf n k j fs depth rest h (by omega) (by omega)
      have htext : print number (.obj ((k, j) :: fs)) ++ rest = '{' :: (printString k ++
          ':' :: ' ' :: (print number j ++ printFields number fs) ++ rest) := by
        simp [print]
      rw [htext]
      rw [printString, List.append_assoc, List.cons_append] at hread ⊢
      rw [value_fields hread, toDict_nodup keys]

end

theorem reads (d : Dialect) (number : Int → Int → List Char) (fuel : Nat) :
    ReadsValue d number fuel ∧ ReadsItems d number fuel ∧ ReadsFields d number fuel := by
  induction fuel with
  | zero =>
    refine ⟨?_, ?_, ?_⟩
    · intro n j depth rest h _ hfuel
      obtain ⟨c, _, cs, hprint⟩ := print_head number h
      rw [hprint, List.length_cons] at hfuel
      omega
    · intro n j js depth rest h _ hfuel
      obtain ⟨c, _, cs, hprint⟩ := print_head number (h j List.mem_cons_self)
      rw [hprint, List.length_cons] at hfuel
      omega
    · intro n k j fs depth rest h _ hfuel
      obtain ⟨c, _, cs, hprint⟩ := print_head number (h (k, j) List.mem_cons_self)
      rw [hprint, List.length_cons] at hfuel
      omega
  | succ fuel ih =>
    obtain ⟨hv, hi, hf⟩ := ih
    exact ⟨reads_value hi hf, reads_items hv hi, reads_fields hv hf⟩

/-- What is printed is read back, in every dialect that nests deep enough. -/
theorem loads_print (d : Dialect) (number : Int → Int → List Char) {n : Nat} {j : Json}
    (h : Plain n j) (hn : n ≤ d.depth) : loads d (print number j) = .value j := by
  obtain ⟨c, hc, cs, hprint⟩ := print_head number h
  obtain ⟨hblank, _, hbom⟩ := initial hc
  have hskip : skip (print number j) = print number j := by
    rw [hprint, skip_cons hblank]
  have hhead : (print number j).head? ≠ some '\ufeff' := by
    rw [hprint]
    simpa using hbom
  have hread := (reads d number (2 * (print number j).length + 1)).1 n j d.depth [] h hn (by omega)
  rw [List.append_nil] at hread
  simp only [loads, if_neg hhead, hskip, hread]
  rfl

end JsonText
