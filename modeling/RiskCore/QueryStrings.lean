import Mathlib.Data.List.SplitBy
import Mathlib.Data.List.TakeDrop
import RiskCore.Digits

/-!
# Query strings

Percent-encoding of texts into query strings, with the characters that are kept and
the spelling of the blank as parameters, and the reading of them: pairs separated by
ampersands, `unquote` on names and values, and UTF-8 with replacement characters for
what is none. What was written is read back.
-/

namespace QueryStrings

/-! ## Writing -/

def percentEncode (byte : UInt8) : List Char :=
  '%' :: (Digits.fixed 16 2 byte.toNat).map Char.toUpper

/-- With `plus` a blank is written `+`. -/
def encodeChar (plus : Bool) (keep : Char → Bool) (c : Char) : List Char :=
  if keep c then [c]
  else if plus && c = ' ' then ['+']
  else (String.utf8EncodeChar c).flatMap percentEncode

def encode (plus : Bool) (keep : Char → Bool) (text : List Char) : List Char :=
  text.flatMap (encodeChar plus keep)

def query (plus : Bool) (keep : Char → Bool) (pairs : List (List Char × List Char)) : List Char :=
  ['&'].intercalate (pairs.map (fun p => encode plus keep p.1 ++ '=' :: encode plus keep p.2))

/-- Characters that stand for themselves in a query. -/
structure Plain (keep : Char → Bool) : Prop where
  ascii : ∀ c, keep c = true → c.toNat < 128
  delimiter : ∀ c, keep c = true → c ∉ ['%', '+', '&', '=', ' ']

/-- What a URL parser does with a query: it percent-encodes the characters of its set. -/
def respell (special : Char → Bool) (text : List Char) : List Char :=
  encode false (fun c => !special c) text

/-! ## Reading -/

def hexValue (c : Char) : Option Nat :=
  if '0' ≤ c ∧ c ≤ '9' then some (c.toNat - 48)
  else if 'A' ≤ c ∧ c ≤ 'F' then some (c.toNat - 55)
  else if 'a' ≤ c ∧ c ≤ 'f' then some (c.toNat - 87)
  else none

/-- `_hextobyte`. -/
def hexByte (a b : Char) : Option UInt8 := do
  return UInt8.ofNat (16 * (← hexValue a) + (← hexValue b))

/-- `unquote_to_bytes` of an ASCII text. -/
def unquoteToBytes : List Char → List UInt8
  | '%' :: a :: b :: rest =>
    match hexByte a b with
    | some byte => byte :: unquoteToBytes rest
    | none => UInt8.ofNat '%'.toNat :: unquoteToBytes (a :: b :: rest)
  | c :: rest => UInt8.ofNat c.toNat :: unquoteToBytes rest
  | [] => []

/-- The bytes that may come second after a lead byte. -/
def continues (lead byte : UInt8) : Bool :=
  if 0xC2 ≤ lead ∧ lead ≤ 0xDF then 0x80 ≤ byte ∧ byte ≤ 0xBF
  else if lead = 0xE0 then 0xA0 ≤ byte ∧ byte ≤ 0xBF
  else if lead = 0xED then 0x80 ≤ byte ∧ byte ≤ 0x9F
  else if 0xE1 ≤ lead ∧ lead ≤ 0xEF then 0x80 ≤ byte ∧ byte ≤ 0xBF
  else if lead = 0xF0 then 0x90 ≤ byte ∧ byte ≤ 0xBF
  else if lead = 0xF4 then 0x80 ≤ byte ∧ byte ≤ 0x8F
  else if 0xF1 ≤ lead ∧ lead ≤ 0xF3 then 0x80 ≤ byte ∧ byte ≤ 0xBF
  else false

/-- How many bytes one replacement character stands for. -/
def malformed : List UInt8 → Nat
  | lead :: second :: rest =>
    if continues lead second then
      match rest with
      | third :: _ => if 0x80 ≤ third ∧ third ≤ 0xBF then 3 else 2
      | [] => 2
    else 1
  | _ => 1

/-- `bytes.decode("utf-8", "replace")`, of at most `n` characters. -/
def decodeUpTo : Nat → List UInt8 → List Char
  | 0, _ => []
  | _, [] => []
  | n + 1, bytes =>
    match bytes.toByteArray.utf8DecodeChar? 0 with
    | some c => c :: decodeUpTo n (bytes.drop c.utf8Size)
    | none => '\uFFFD' :: decodeUpTo n (bytes.drop (malformed bytes))

def decode (bytes : List UInt8) : List Char := decodeUpTo bytes.length bytes

def isAscii (c : Char) : Bool := c.toNat < 128

/-- `unquote`, which works on the runs of ASCII characters. -/
def unquote (text : List Char) : List Char :=
  if '%' ∈ text then
    (text.splitBy (fun a b => isAscii a == isAscii b)).flatMap (fun run =>
      if run.all isAscii then decode (unquoteToBytes run) else run)
  else text

/-- `unquote(text.replace("+", " "))`. -/
def unquotePlus (text : List Char) : List Char :=
  unquote (text.map (fun c => if c = '+' then ' ' else c))

/-- `name_value.split("=", 1)`. -/
def nameValue (text : List Char) : List Char × Option (List Char) :=
  match text.span (fun c => c ≠ '=') with
  | (name, _ :: value) => (name, some value)
  | (name, []) => (name, none)

def parsePair (keepBlank : Bool) (text : List Char) : Option (List Char × List Char) :=
  match nameValue text with
  | (name, some value) =>
    if value ≠ [] || keepBlank then some (unquotePlus name, unquotePlus value) else none
  | (name, none) => if keepBlank then some (unquotePlus name, []) else none

/-- `parse_qsl(qs, keep_blank_values)`. -/
def parseQsl (keepBlank : Bool) (qs : List Char) : List (List Char × List Char) :=
  if qs = [] then []
  else (qs.splitOn '&').filterMap (fun text => if text = [] then none else parsePair keepBlank text)

/-! ## UTF-8 -/

theorem decodeUpTo_encoded {n : Nat} {text : List Char} (h : text.length ≤ n) :
    decodeUpTo n (text.flatMap String.utf8EncodeChar) = text := by
  induction text generalizing n with
  | nil => cases n <;> rfl
  | cons c text ih =>
    obtain ⟨n, rfl⟩ : ∃ m, n = m + 1 := Nat.exists_eq_succ_of_ne_zero (by simp at h; omega)
    have hne : String.utf8EncodeChar c ++ text.flatMap String.utf8EncodeChar ≠ [] := by
      simp [String.utf8EncodeChar_ne_nil]
    have hchar : ((String.utf8EncodeChar c ++ text.flatMap String.utf8EncodeChar).toByteArray
        ).utf8DecodeChar? 0 = some c := by
      rw [List.toByteArray_append]
      exact ByteArray.utf8DecodeChar?_utf8EncodeChar_append
    have hdrop : (String.utf8EncodeChar c ++ text.flatMap String.utf8EncodeChar).drop c.utf8Size =
        text.flatMap String.utf8EncodeChar := by
      rw [← String.length_utf8EncodeChar, List.drop_left]
    rw [List.flatMap_cons, decodeUpTo.eq_3 _ _ (fun he => absurd he hne), hchar]
    simp only [hdrop, ih (Nat.le_of_succ_le_succ h)]

theorem length_le_encoded (text : List Char) :
    text.length ≤ (text.flatMap String.utf8EncodeChar).length := by
  induction text with
  | nil => exact Nat.le_refl _
  | cons c text ih =>
    have hpos := c.utf8Size_pos
    simp only [List.flatMap_cons, List.length_append, String.length_utf8EncodeChar,
      List.length_cons]
    omega

/-- What is encoded is decoded. -/
theorem decode_encoded (text : List Char) :
    decode (text.flatMap String.utf8EncodeChar) = text :=
  decodeUpTo_encoded (length_le_encoded text)

theorem utf8EncodeChar_ascii {c : Char} (h : c.toNat < 128) :
    String.utf8EncodeChar c = [UInt8.ofNat c.toNat] := by
  have hsize : c.utf8Size = 1 := by
    rw [Char.utf8Size, if_pos]
    exact Nat.le_of_lt_succ h
  rw [String.utf8EncodeChar_eq_singleton hsize]
  rfl

/-! ## Percent signs -/

def hexDigit (d : Nat) : Char := (Nat.digitChar d).toUpper

theorem hexDigit_spec {d : Nat} (h : d < 16) : hexValue (hexDigit d) = some d ∧
    (hexDigit d).toNat < 128 ∧ hexDigit d ∉ ['+', '&', '='] := by
  have all : ∀ d : Fin 16, hexValue (hexDigit d) = some d.val ∧ (hexDigit d).toNat < 128 ∧
      hexDigit d ∉ ['+', '&', '='] := by decide
  exact all ⟨d, h⟩

theorem percentEncode_eq (byte : UInt8) :
    percentEncode byte = ['%', hexDigit (byte.toNat / 16), hexDigit (byte.toNat % 16)] := by
  have hlt : byte.toNat < 256 := byte.toNat_lt
  have high : byte.toNat / 16 % 16 = byte.toNat / 16 := Nat.mod_eq_of_lt (by omega)
  simp [percentEncode, Digits.fixed, hexDigit, high]

/-- The characters a byte is written with. -/
theorem mem_percentEncode {byte : UInt8} {c : Char} (h : c ∈ percentEncode byte) :
    c.toNat < 128 ∧ c ∉ ['+', '&', '='] := by
  have hlt : byte.toNat < 256 := byte.toNat_lt
  rw [percentEncode_eq] at h
  simp only [List.mem_cons, List.not_mem_nil, or_false] at h
  rcases h with rfl | rfl | rfl
  · decide
  · exact (hexDigit_spec (by omega)).2
  · exact (hexDigit_spec (by omega)).2

theorem unquoteToBytes_percent (byte : UInt8) (rest : List Char) :
    unquoteToBytes (percentEncode byte ++ rest) = byte :: unquoteToBytes rest := by
  have hlt : byte.toNat < 256 := byte.toNat_lt
  have hbyte : hexByte (hexDigit (byte.toNat / 16)) (hexDigit (byte.toNat % 16)) = some byte := by
    have high : hexValue (hexDigit (byte.toNat / 16)) = some (byte.toNat / 16) :=
      (hexDigit_spec (by omega)).1
    have low : hexValue (hexDigit (byte.toNat % 16)) = some (byte.toNat % 16) :=
      (hexDigit_spec (by omega)).1
    simp only [hexByte, high, low, Option.bind_eq_bind, Option.bind_some, Nat.div_add_mod,
      UInt8.ofNat_toNat]
    rfl
  rw [percentEncode_eq]
  simp only [List.cons_append, List.nil_append, unquoteToBytes, hbyte]

theorem unquoteToBytes_plain {c : Char} (hc : c ≠ '%') (rest : List Char) :
    unquoteToBytes (c :: rest) = UInt8.ofNat c.toNat :: unquoteToBytes rest := by
  rw [unquoteToBytes.eq_2]
  intro a b rest' he
  exact absurd he hc

/-- What was percent-encoded are the bytes. -/
theorem unquoteToBytes_encode {keep : Char → Bool}
    (kept : ∀ c, keep c = true → c.toNat < 128 ∧ c ≠ '%') (text : List Char) :
    unquoteToBytes (encode false keep text) = text.flatMap String.utf8EncodeChar := by
  have pieces : ∀ (bytes : List UInt8) rest,
      unquoteToBytes (bytes.flatMap percentEncode ++ rest) = bytes ++ unquoteToBytes rest := by
    intro bytes rest
    induction bytes with
    | nil => rfl
    | cons byte bytes ih =>
      rw [List.flatMap_cons, List.append_assoc, unquoteToBytes_percent, ih]
      rfl
  induction text with
  | nil => rfl
  | cons c text ih =>
    rw [encode, List.flatMap_cons, List.flatMap_cons, encodeChar]
    split
    · rename_i hkeep
      obtain ⟨ascii, plain⟩ := kept c hkeep
      rw [List.singleton_append, unquoteToBytes_plain plain, utf8EncodeChar_ascii ascii]
      exact congrArg _ ih
    · rw [if_neg (by simp), pieces]
      exact congrArg _ ih

theorem hexValue_bounds {c : Char} (h : (hexValue c).isSome = true) :
    '0'.toNat ≤ c.toNat ∧ c.toNat ≤ 'f'.toNat := by
  simp only [hexValue] at h
  split at h
  · rename_i digit
    exact ⟨digit.1, Nat.le_trans (m := '9'.toNat) digit.2 (by decide)⟩
  · split at h
    · rename_i upper
      exact ⟨Nat.le_trans (m := 'A'.toNat) (by decide) upper.1,
        Nat.le_trans (m := 'F'.toNat) upper.2 (by decide)⟩
    · split at h
      · rename_i lower
        exact ⟨Nat.le_trans (m := 'a'.toNat) (by decide) lower.1, lower.2⟩
      · cases h

/-- The characters of an encoded text. -/
theorem mem_encode_cases {plus : Bool} {keep : Char → Bool} {text : List Char} {c : Char}
    (h : c ∈ encode plus keep text) :
    keep c = true ∨ (plus = true ∧ c = '+') ∨ c = '%' ∨ (hexValue c).isSome = true := by
  obtain ⟨d, -, hd⟩ := List.mem_flatMap.mp h
  rw [encodeChar] at hd
  split at hd
  · rename_i hkeep
    rw [List.mem_singleton.mp hd]
    exact Or.inl hkeep
  · split at hd
    · rename_i hblank
      exact Or.inr (Or.inl ⟨(Bool.and_eq_true_iff.mp hblank).1, List.mem_singleton.mp hd⟩)
    · obtain ⟨byte, -, hbyte⟩ := List.mem_flatMap.mp hd
      have hlt : byte.toNat < 256 := byte.toNat_lt
      rw [percentEncode_eq] at hbyte
      simp only [List.mem_cons, List.not_mem_nil, or_false] at hbyte
      rcases hbyte with rfl | rfl | rfl
      · exact Or.inr (Or.inr (Or.inl rfl))
      · exact Or.inr (Or.inr (Or.inr (by rw [(hexDigit_spec (by omega)).1]; rfl)))
      · exact Or.inr (Or.inr (Or.inr (by rw [(hexDigit_spec (by omega)).1]; rfl)))

/-- Encoded texts are ASCII, without the delimiters of a query. -/
theorem mem_encode {plus : Bool} {keep : Char → Bool} (plain : Plain keep) {text : List Char}
    {c : Char} (h : c ∈ encode plus keep text) : c.toNat < 128 ∧ c ∉ ['&', '='] := by
  rcases mem_encode_cases h with hkeep | ⟨-, rfl⟩ | rfl | hdigit
  · have := plain.delimiter c hkeep
    exact ⟨plain.ascii c hkeep, by simp_all⟩
  · decide
  · decide
  · refine ⟨Nat.lt_of_le_of_lt (hexValue_bounds hdigit).2 (by decide), fun hmem => ?_⟩
    simp only [List.mem_cons, List.not_mem_nil, or_false] at hmem
    rcases hmem with rfl | rfl <;> exact absurd hdigit (by decide)

/-! ## Round trips -/

theorem decode_plain {text : List Char} (ascii : ∀ c ∈ text, c.toNat < 128)
    (plain : '%' ∉ text) : decode (unquoteToBytes text) = text := by
  have hbytes : unquoteToBytes text = text.flatMap String.utf8EncodeChar := by
    induction text with
    | nil => rfl
    | cons c text ih =>
      obtain ⟨hc, hrest⟩ := List.forall_mem_cons.mp ascii
      rw [List.mem_cons, not_or] at plain
      rw [unquoteToBytes_plain (Ne.symm plain.1), ih hrest plain.2, List.flatMap_cons,
        utf8EncodeChar_ascii hc]
      rfl
  rw [hbytes, decode_encoded]

theorem unquote_ascii {text : List Char} (ascii : ∀ c ∈ text, c.toNat < 128) :
    unquote text = decode (unquoteToBytes text) := by
  rw [unquote]
  split
  · rename_i hmem
    have all : ∀ c ∈ text, isAscii c = true := fun c hc => decide_eq_true (ascii c hc)
    have single : text.splitBy (fun a b => isAscii a == isAscii b) = [text] := by
      refine List.splitBy_of_isChain (List.ne_nil_of_mem hmem) (List.Pairwise.isChain ?_)
      exact List.pairwise_of_forall_mem_list (fun a ha b hb => by simp [all a ha, all b hb])
    rw [single, List.flatMap_singleton, if_pos (List.all_eq_true.mpr all)]
  · rename_i hnot
    exact (decode_plain ascii hnot).symm

/-- The blanks that are written `+` are read as blanks. -/
theorem encode_spaces {plus : Bool} {keep : Char → Bool} (plain : Plain keep) (text : List Char) :
    (encode plus keep text).map (fun c => if c = '+' then ' ' else c) =
      encode false (fun c => keep c || (plus && c = ' ')) text := by
  rw [encode, encode, List.map_flatMap]
  refine List.flatMap_congr (fun c _ => ?_)
  simp only [encodeChar]
  by_cases hkeep : keep c = true
  · have hne : c ≠ '+' := fun he => plain.delimiter c hkeep (by simp [he])
    simp [hkeep, hne]
  · by_cases hblank : (plus && c = ' ') = true
    · have hc : c = ' ' := of_decide_eq_true (Bool.and_eq_true_iff.mp hblank).2
      rw [if_neg hkeep, if_pos hblank, if_pos (by simp [hblank]), hc]
      rfl
    · rw [if_neg hkeep, if_neg hblank, if_neg (by simp [hkeep, hblank]), if_neg (by simp)]
      refine (List.map_congr_left (fun d hd => ?_)).trans (List.map_id _)
      obtain ⟨byte, -, hbyte⟩ := List.mem_flatMap.mp hd
      have hne : d ≠ '+' := fun he => (mem_percentEncode hbyte).2 (by simp [he])
      exact if_neg hne

/-- A text is read back. -/
theorem unquotePlus_encode {plus : Bool} {keep : Char → Bool} (plain : Plain keep)
    (text : List Char) : unquotePlus (encode plus keep text) = text := by
  have kept : ∀ c, (keep c || (plus && c = ' ')) = true → c.toNat < 128 ∧ c ≠ '%' := by
    intro c hc
    rw [Bool.or_eq_true] at hc
    rcases hc with hkeep | hblank
    · exact ⟨plain.ascii c hkeep, fun he => plain.delimiter c hkeep (by simp [he])⟩
    · have hc : c = ' ' := of_decide_eq_true (Bool.and_eq_true_iff.mp hblank).2
      rw [hc]
      decide
  rw [unquotePlus, unquote_ascii, encode_spaces plain, unquoteToBytes_encode kept, decode_encoded]
  intro c hc
  obtain ⟨d, hd, rfl⟩ := List.mem_map.mp hc
  split
  · decide
  · exact (mem_encode plain hd).1

theorem nameValue_encode {plus : Bool} {keep : Char → Bool} (plain : Plain keep)
    (name value : List Char) :
    nameValue (encode plus keep name ++ '=' :: value) = (encode plus keep name, some value) := by
  have before : ∀ c ∈ encode plus keep name, decide (c ≠ '=') = true := by
    intro c hc
    have := (mem_encode plain hc).2
    simp_all
  rw [nameValue, List.span_eq_takeWhile_dropWhile,
    List.takeWhile_append_of_pos before, List.dropWhile_append_of_pos before]
  simp

theorem encodeChar_ne_nil (plus : Bool) (keep : Char → Bool) (c : Char) :
    encodeChar plus keep c ≠ [] := by
  rw [encodeChar]
  split
  · simp
  · split
    · simp
    · obtain ⟨byte, hbyte⟩ := List.exists_mem_of_ne_nil _ (String.utf8EncodeChar_ne_nil (c := c))
      simp only [ne_eq, List.flatMap_eq_nil_iff, not_forall]
      exact ⟨byte, hbyte, by simp [percentEncode]⟩

theorem encode_eq_nil {plus : Bool} {keep : Char → Bool} {text : List Char} :
    encode plus keep text = [] ↔ text = [] := by
  rw [encode, List.flatMap_eq_nil_iff, List.eq_nil_iff_forall_not_mem]
  exact forall₂_congr (fun c _ => iff_of_false (encodeChar_ne_nil plus keep c) id)

/-- The pairs of a query are read back, those with an empty value where they are kept. -/
theorem parseQsl_query {plus : Bool} {keep : Char → Bool} (plain : Plain keep) (keepBlank : Bool)
    (pairs : List (List Char × List Char)) :
    parseQsl keepBlank (query plus keep pairs) =
      pairs.filter (fun p => p.2 ≠ [] || keepBlank) := by
  by_cases hpairs : pairs = []
  · rw [hpairs]
    rfl
  have noDelimiter : ∀ text ∈ pairs.map (fun p =>
      encode plus keep p.1 ++ '=' :: encode plus keep p.2), '&' ∉ text := by
    intro text htext hmem
    obtain ⟨p, -, rfl⟩ := List.mem_map.mp htext
    rcases List.mem_append.mp hmem with hmem | hmem
    · exact (mem_encode plain hmem).2 (by simp)
    · rcases List.mem_cons.mp hmem with he | hmem
      · cases he
      · exact (mem_encode plain hmem).2 (by simp)
  have hsplit := List.splitOn_intercalate '&' noDelimiter (by simpa using hpairs)
  have hquery : query plus keep pairs ≠ [] := by
    intro he
    rw [query] at he
    rw [he] at hsplit
    obtain ⟨p, rest, rfl⟩ := List.exists_cons_of_ne_nil hpairs
    simp at hsplit
  rw [parseQsl, if_neg hquery, query, hsplit, List.filterMap_map, ← List.filterMap_eq_filter]
  refine List.filterMap_congr (fun p _ => ?_)
  have hne : encode plus keep p.1 ++ '=' :: encode plus keep p.2 ≠ [] := by simp
  simp only [Function.comp_apply, if_neg hne, parsePair, nameValue_encode plain,
    unquotePlus_encode plain, ne_eq, encode_eq_nil]
  rfl

/-! ## URL parsers in between -/

/-- The parser's set has nothing that percent-encoding writes, and no delimiter. -/
def Harmless (special : Char → Bool) : Prop :=
  ∀ c, special c = true → hexValue c = none ∧ c ∉ ['%', '+', '&', '=']

theorem respell_append (special : Char → Bool) (xs ys : List Char) :
    respell special (xs ++ ys) = respell special xs ++ respell special ys :=
  List.flatMap_append

theorem respell_flatMap {α : Type*} (special : Char → Bool) (f : α → List Char) (xs : List α) :
    respell special (xs.flatMap f) = xs.flatMap (fun x => respell special (f x)) :=
  List.flatMap_assoc

theorem respell_id {special : Char → Bool} {text : List Char} (h : ∀ c ∈ text, special c = false) :
    respell special text = text := by
  refine (List.flatMap_congr (fun c hc => ?_)).trans (List.flatMap_singleton' text)
  simp [encodeChar, h c hc]

theorem respell_encode {plus : Bool} {keep special : Char → Bool} (plain : Plain keep)
    (harmless : Harmless special) (text : List Char) :
    respell special (encode plus keep text) =
      encode plus (fun c => keep c && !special c) text := by
  have untouched : ∀ c : Char,
      hexValue c ≠ none ∨ c ∈ ['%', '+', '&', '='] → special c = false := by
    intro c hc
    by_contra hspecial
    obtain ⟨noDigit, noDelimiter⟩ := harmless c (Bool.not_eq_false _ ▸ hspecial)
    rcases hc with hc | hc
    · exact hc noDigit
    · exact noDelimiter hc
  have bytes : ∀ byte, respell special (percentEncode byte) = percentEncode byte := by
    intro byte
    have hlt : byte.toNat < 256 := byte.toNat_lt
    refine respell_id (fun c hc => untouched c ?_)
    rw [percentEncode_eq] at hc
    simp only [List.mem_cons, List.not_mem_nil, or_false] at hc
    rcases hc with rfl | rfl | rfl
    · exact Or.inr (by simp)
    · exact Or.inl (by rw [(hexDigit_spec (by omega)).1]; simp)
    · exact Or.inl (by rw [(hexDigit_spec (by omega)).1]; simp)
  have piece : ∀ c, respell special (encodeChar plus keep c) =
      encodeChar plus (fun c => keep c && !special c) c := by
    intro c
    by_cases hkeep : keep c = true
    · by_cases hspecial : special c = true
      · have hc : c ≠ ' ' := fun he => plain.delimiter c hkeep (by simp [he])
        simp [respell, encode, encodeChar, hkeep, hspecial, hc]
      · simp [respell, encode, encodeChar, hkeep, hspecial]
    · by_cases hblank : (plus && c = ' ') = true
      · have hplus : special '+' = false := untouched '+' (Or.inr (by simp))
        simp only [encodeChar, hkeep, hblank]
        simp [respell, encode, encodeChar, hplus]
      · have hother : encodeChar plus (fun c => keep c && !special c) c =
            (String.utf8EncodeChar c).flatMap percentEncode := by
          simp [encodeChar, hkeep, hblank]
        rw [hother, encodeChar, if_neg hkeep, if_neg hblank, respell_flatMap]
        exact List.flatMap_congr (fun byte _ => bytes byte)
  rw [encode, respell_flatMap]
  exact List.flatMap_congr (fun c _ => piece c)

theorem Plain.unspecial {keep : Char → Bool} (plain : Plain keep) (special : Char → Bool) :
    Plain (fun c => keep c && !special c) where
  ascii := fun c hc => plain.ascii c (Bool.and_eq_true_iff.mp hc).1
  delimiter := fun c hc => plain.delimiter c (Bool.and_eq_true_iff.mp hc).1

theorem query_cons_cons (plus : Bool) (keep : Char → Bool) (p q : List Char × List Char)
    (pairs : List (List Char × List Char)) : query plus keep (p :: q :: pairs) =
      encode plus keep p.1 ++ '=' :: encode plus keep p.2 ++ ['&'] ++
        query plus keep (q :: pairs) :=
  List.intercalate_cons_cons ..

/-- A query on its way through a URL parser is the query of the same pairs. -/
theorem respell_query {plus : Bool} {keep special : Char → Bool} (plain : Plain keep)
    (harmless : Harmless special) (pairs : List (List Char × List Char)) :
    respell special (query plus keep pairs) =
      query plus (fun c => keep c && !special c) pairs := by
  have delimiter : ∀ c, c ∈ ['%', '+', '&', '='] → respell special [c] = [c] := by
    intro c hc
    refine respell_id (fun d hd => ?_)
    rw [List.mem_singleton.mp hd]
    by_contra hspecial
    exact (harmless c (Bool.not_eq_false _ ▸ hspecial)).2 hc
  have piece : ∀ p : List Char × List Char,
      respell special (encode plus keep p.1 ++ '=' :: encode plus keep p.2) =
        encode plus (fun c => keep c && !special c) p.1 ++
          '=' :: encode plus (fun c => keep c && !special c) p.2 := by
    intro p
    rw [List.append_cons, respell_append, respell_append, respell_encode plain harmless,
      respell_encode plain harmless, delimiter '=' (by simp), ← List.append_cons]
  induction pairs with
  | nil => rfl
  | cons p pairs ih =>
    cases pairs with
    | nil => simpa [query] using piece p
    | cons q pairs =>
      rw [query_cons_cons, query_cons_cons, respell_append, respell_append, piece,
        delimiter '&' (by simp), ih]

/-- A percent sign without its two digits stays. -/
example : unquotePlus "a%20b+c%2F%zz".toList = "a b c/%zz".toList := by decide

end QueryStrings
