import RiskCore.Tables

/-!
# Querysets over one table

What a web framework's `filter` and `get` do with the texts of a request. A key is
read when the filter is made and a text that is none raises there; a text column is
compared when the queryset is evaluated, and the database may refuse the text. A row
is looked up by its key, and the exceptions that the caller catches mean that there
is none.
-/

namespace Querysets

universe u v w x
variable {R : Type u} {K : Type v} [DecidableEq K] {E : Type w}

/-- The texts of PostgreSQL hold no NUL character. -/
inductive Backend where
  | postgresql
  | sqlite
deriving DecidableEq

def Backend.refuses : Backend → String → Bool
  | .postgresql, text => '\x00' ∈ text.toList
  | .sqlite, _ => false

/-- `validationError` is not a `ValueError`, nor is `dataError`. -/
inductive Exception where
  | doesNotExist
  | multipleObjectsReturned
  | validationError (value : String)
  | valueError
  | dataError
deriving DecidableEq

/-- A table whose primary key is `key`. -/
structure Table (key : R → K) where
  rows : List R
  unique : (rows.map key).Nodup

/-- The rows that pass, and whether the database will refuse a text. -/
structure QuerySet (R : Type u) where
  rows : List R
  refused : Bool

/-- `objects.all()`. -/
def all (rows : List R) : QuerySet R := ⟨rows, false⟩

/-- `if value: queryset = queryset.filter(column=value)` on a text column. -/
def QuerySet.filterText (b : Backend) (column : R → String) (value : Option String)
    (q : QuerySet R) : QuerySet R :=
  match value with
  | some text =>
    if text = "" then q
    else ⟨q.rows.filter (fun r => text = column r), q.refused || b.refuses text⟩
  | none => q

/-- `queryset.filter(column=value)` on a column of keys. -/
def QuerySet.filterKey (read : String → Option K) (column : R → K) (value : String)
    (q : QuerySet R) : Except Exception (QuerySet R) :=
  match read value with
  | some k => .ok { q with rows := q.rows.filter (fun r => column r = k) }
  | none => .error (.validationError value)

/-- `if value:` before it. -/
def QuerySet.filterKeyIf (read : String → Option K) (column : R → K) (value : Option String)
    (q : QuerySet R) : Except Exception (QuerySet R) :=
  match value with
  | some text => if text = "" then .ok q else q.filterKey read column text
  | none => .ok q

/-- `queryset.get(pk=value)`. -/
def QuerySet.get (read : String → Option K) (key : R → K) (value : String) (q : QuerySet R) :
    Except Exception R := do
  let q ← q.filterKey read key value
  if q.refused then .error .dataError
  else
    match q.rows with
    | [] => .error .doesNotExist
    | [r] => .ok r
    | _ => .error .multipleObjectsReturned

/-- `try: return queryset.get(pk=value)`, with `notFound` raised for what is caught. -/
def QuerySet.getOr (read : String → Option K) (key : R → K) (caught : Exception → Bool)
    (notFound : E) (other : Exception → E) (value : String) (q : QuerySet R) : Except E R :=
  match q.get read key value with
  | .ok r => .ok r
  | .error e => if caught e then .error notFound else .error (other e)

/-! ## Filters -/

/-- A missing and an empty value pass everything. -/
def passesText (value : Option String) (text : String) : Bool :=
  value.all (fun given => given = "" || given = text)

def passesKey (read : String → Option K) (value : Option String) (k : K) : Bool :=
  value.all (fun given => given = "" || read given = some k)

/-- A value that is given and not empty is the text of a key. -/
def Readable (read : String → Option K) (value : Option String) : Prop :=
  ∀ given ∈ value, given ≠ "" → (read given).isSome

theorem refuses_empty (b : Backend) : b.refuses "" = false := by
  cases b <;> rfl

theorem filterText_eq (b : Backend) (column : R → String) (value : Option String)
    (q : QuerySet R) : q.filterText b column value =
      ⟨q.rows.filter (fun r => passesText value (column r)),
        q.refused || value.any b.refuses⟩ := by
  cases value with
  | none => simp [QuerySet.filterText, passesText]
  | some text =>
    by_cases blank : text = ""
    · simp [QuerySet.filterText, passesText, blank, refuses_empty]
    · simp [QuerySet.filterText, passesText, blank]

theorem filterKeyIf_of_readable {read : String → Option K} {value : Option String}
    (h : Readable read value) (column : R → K) (q : QuerySet R) :
    q.filterKeyIf read column value =
      .ok { q with rows := q.rows.filter (fun r => passesKey read value (column r)) } := by
  cases value with
  | none => simp [QuerySet.filterKeyIf, passesKey]
  | some text =>
    by_cases blank : text = ""
    · simp [QuerySet.filterKeyIf, passesKey, blank]
    · obtain ⟨k, hk⟩ := Option.isSome_iff_exists.mp (h text rfl blank)
      simp [QuerySet.filterKeyIf, QuerySet.filterKey, passesKey, blank, hk, eq_comm]

theorem filterKeyIf_of_not_readable {read : String → Option K} {value : Option String}
    (h : ¬ Readable read value) (column : R → K) (q : QuerySet R) :
    ∃ text, q.filterKeyIf read column value = .error (.validationError text) := by
  cases value with
  | none => exact absurd (fun given hgiven => by cases hgiven) h
  | some text =>
    have unread : text ≠ "" ∧ read text = none := by simpa [Readable] using h
    exact ⟨text, by simp [QuerySet.filterKeyIf, QuerySet.filterKey, unread]⟩

/-! ## Looking a row up -/

section
variable {read : String → Option K} {key : R → K} {value : String} {q : QuerySet R} {k : K}

theorem get_of_unread (h : read value = none) :
    q.get read key value = .error (.validationError value) := by
  simp [QuerySet.get, QuerySet.filterKey, h, bind, Except.bind]

theorem get_of_refused (h : read value = some k) (refused : q.refused = true) :
    q.get read key value = .error .dataError := by
  simp [QuerySet.get, QuerySet.filterKey, h, refused, bind, Except.bind]

theorem get_of_find {r : R} (unique : (q.rows.map key).Nodup) (h : read value = some k)
    (taken : q.refused = false) (found : Tables.find key q.rows k = some r) :
    q.get read key value = .ok r := by
  have single : q.rows.filter (fun r => key r = k) = [r] := Tables.select_of_find unique found
  simp [QuerySet.get, QuerySet.filterKey, h, taken, single, bind, Except.bind]

theorem get_of_find_none (h : read value = some k) (taken : q.refused = false)
    (missing : Tables.find key q.rows k = none) : q.get read key value = .error .doesNotExist := by
  have empty : q.rows.filter (fun r => key r = k) = [] := Tables.select_eq_nil.mpr
    (Tables.find_eq_none.mp missing)
  simp [QuerySet.get, QuerySet.filterKey, h, taken, empty, bind, Except.bind]

end

/-- What a lookup owes for a key: the row that has it and passes, if there is one, and
otherwise the error of a missing row. -/
structure Answered {V : Type x} (there : R → Prop) (view : R → V) (notFound : E)
    (out : Except E V) : Prop where
  found : ∀ r, there r → out = .ok (view r)
  missing : (∀ r, ¬ there r) → out = .error notFound

section
variable {read : String → Option K} {key : R → K} {caught : Exception → Bool} {notFound : E}
  {other : Exception → E} {value : String}

/-- An error that is not the one of a missing row answers nothing. -/
theorem not_answered {V : Type x} {there : R → Prop} {view : R → V} {out : Except E V} {e : E}
    (herror : out = .error e) (differs : e ≠ notFound) : ¬ Answered there view notFound out := by
  rintro ⟨found, missing⟩
  rw [herror] at found missing
  by_cases exist : ∃ r, there r
  · obtain ⟨r, hr⟩ := exist
    cases found r hr
  · exact differs (Except.error.inj (missing (not_exists.mp exist)))

section
variable {q : QuerySet R} {e : Exception} {r : R}

theorem getOr_of_ok (h : q.get read key value = .ok r) :
    q.getOr read key caught notFound other value = .ok r := by
  simp [QuerySet.getOr, h]

theorem getOr_of_caught (h : q.get read key value = .error e) (hcaught : caught e = true) :
    q.getOr read key caught notFound other value = .error notFound := by
  simp [QuerySet.getOr, h, hcaught]

theorem getOr_of_error (h : q.get read key value = .error e) (uncaught : caught e = false) :
    q.getOr read key caught notFound other value = .error (other e) := by
  simp [QuerySet.getOr, h, uncaught]

end

variable (read caught notFound other value) in
/-- A lookup by key among the rows that pass answers exactly if the text is one of a
key and the database takes the texts of the filters. -/
theorem getOr_answered_iff {V : Type x} (view : R → V) (T : Table key) (p : R → Bool)
    (refused : Bool)
    (hmissing : caught .doesNotExist = true) (hunread : caught (.validationError value) = false)
    (hrefused : caught .dataError = false) (differs : ∀ e, other e ≠ notFound) :
    Answered (fun r => r ∈ T.rows ∧ p r = true ∧ read value = some (key r)) view notFound
        (((QuerySet.mk (T.rows.filter p) refused).getOr read key caught notFound other value).map
          view) ↔
      (read value).isSome ∧ refused = false := by
  have unique : ((T.rows.filter p).map key).Nodup :=
    List.Nodup.sublist (List.filter_sublist.map key) T.unique
  cases hread : read value with
  | none =>
    rw [getOr_of_error (get_of_unread (q := ⟨T.rows.filter p, refused⟩) hread) hunread]
    simpa [Except.map] using not_answered rfl (differs _)
  | some k =>
    cases refused with
    | true =>
      rw [getOr_of_error (get_of_refused (q := ⟨T.rows.filter p, true⟩) hread rfl) hrefused]
      simpa [Except.map] using not_answered rfl (differs _)
    | false =>
      refine iff_of_true ⟨?_, ?_⟩ ⟨rfl, rfl⟩
      · rintro r ⟨hr, passed, own⟩
        cases own
        have found := Tables.find_of_mem unique (List.mem_filter.mpr ⟨hr, passed⟩)
        rw [getOr_of_ok (get_of_find (q := ⟨T.rows.filter p, false⟩) unique hread rfl found)]
        rfl
      · intro absent
        have missing : Tables.find key (T.rows.filter p) k = none := by
          refine Tables.find_eq_none.mpr (fun r hr own => absent r ?_)
          rw [List.mem_filter] at hr
          exact ⟨hr.1, hr.2, by rw [own]⟩
        rw [getOr_of_caught (get_of_find_none (q := ⟨T.rows.filter p, false⟩) hread rfl missing)
          hmissing]
        rfl

end

end Querysets
