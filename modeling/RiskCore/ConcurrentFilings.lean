import Mathlib.Algebra.Order.BigOperators.Group.Finset
import RiskCore.ClaimNumbering

/-!
# Claims filed at the same time

Calls of `file_claim` whose policies are verified, one database step at a time
under READ COMMITTED. The `SELECT ... FOR UPDATE` of `generate_claim_number`
picks the last row on its snapshot, waits for the lock of that row and returns
that same row, whatever has been committed meanwhile; on a year without claims
it locks nothing. An insert waits for another insert of the same number.
-/

namespace ConcurrentFilings

open Values ClaimService ClaimNumbering

/-- The last row a filing has inserted. -/
inductive Row where
  | claim
  | history
  | outbox

def Row.next : Row → Option Row
  | .claim => some .history
  | .history => some .outbox
  | .outbox => none

/-- Where a call stands: before its snapshot, with a row picked and its lock
awaited, with its number, between its first insert and its commit, or ended. A
lock lasts until the end; `none` is the year without claims. -/
inductive Phase where
  | verified
  | picked (last : String)
  | numbered (lock : Option String) (number : String)
  | inserted (lock : Option String) (number : String) (row : Row)
  | committed (number : String)
  | failed (e : ClaimError)

/-- The claim whose row the call has locked, by its number. -/
def Phase.lock : Phase → Option String
  | .numbered lock _ => lock
  | .inserted lock _ _ => lock
  | _ => none

/-- The number of a claim the call has inserted but not committed. -/
def Phase.uncommitted : Phase → Option String
  | .inserted _ number _ => some number
  | _ => none

/-- Committed tables, and the calls. -/
structure State (k : Nat) where
  db : Store
  calls : Fin k → Phase

variable {k : Nat}

def State.move (s : State k) (n : Fin k) (p : Phase) : State k :=
  { s with calls := Function.update s.calls n p }

def init (db : Store) : State k := ⟨db, fun _ => .verified⟩

/-- The `prefix` of `generate_claim_number`. -/
def stem (year : Nat) : String := "CLM-" ++ Nat.repr year ++ "-"

/-- The number of the first row of the query. -/
def last (year : Nat) (numbers : List String) : Option String :=
  Numbering.greatest (numbers.filter (fun t => (stem year).toList.isPrefixOf t.toList))

/-- The number made of the last one. -/
def following (year : Nat) (last : String) : Except ClaimError String :=
  match Numbering.lastNumber last with
  | .ok n => .ok (number year (n + 1))
  | .error part => .error (.valueError part)

/-- The number a call goes for once it has seen the last one. -/
def chosen (year : Nat) : Option String → Except ClaimError String
  | some last => following year last
  | none => .ok (number year 1)

/-- The tables after the commit of a filing. -/
def filed (db : Store) (f : Filing) (number : String) : Store :=
  ⟨Tables.insert db.claims (newClaim f.env number f.data),
    db.history ++ [filedHistory f.env (newClaim f.env number f.data)],
    db.outbox ++ [filedEvent f.env (newClaim f.env number f.data)]⟩

/-- The next database step of call `n`; it is not possible while the call waits. -/
def step (filings : Fin k → Filing) (s : State k) (n : Fin k) : Option (State k) :=
  let f := filings n
  match s.calls n with
  | .verified =>
    match last f.year (numbers s.db) with
    | some last => some (s.move n (.picked last))
    | none => some (s.move n (.numbered none (number f.year 1)))
  | .picked last =>
    if ∃ m, (s.calls m).lock = some last then none
    else
      match following f.year last with
      | .ok number => some (s.move n (.numbered (some last) number))
      | .error e => some (s.move n (.failed e))
  | .numbered lock number =>
    if ∃ m, (s.calls m).uncommitted = some number then none
    else
      match insertClaim s.db.claims (newClaim f.env number f.data) with
      | .ok _ => some (s.move n (.inserted lock number .claim))
      | .error e => some (s.move n (.failed e))
  | .inserted lock number row =>
    match row.next with
    | some next => some (s.move n (.inserted lock number next))
    | none => some (State.move { s with db := filed s.db f number } n (.committed number))
  | .committed _ => none
  | .failed _ => none

/-! ## What is asked, and when it holds -/

/-- The call has committed its claim under a number that no claim had before and
no other call has committed. -/
structure Filed (db : Store) (filings : Fin k → Filing) (s : State k) (n : Fin k)
    (number : String) : Prop where
  committed : s.calls n = .committed number
  stored : newClaim (filings n).env number (filings n).data ∈ s.db.claims
  new : number ∉ numbers db
  distinct : ∀ m, m ≠ n → s.calls m ≠ .committed number

def Ended (s : State k) : Prop :=
  ∀ n, (∃ number, s.calls n = .committed number) ∨ ∃ e, s.calls n = .failed e

/-- Between its snapshot and its commit. -/
def Phase.Underway : Phase → Prop
  | .picked _ => True
  | .numbered _ _ => True
  | .inserted _ _ _ => True
  | _ => False

instance : DecidablePred Phase.Underway
  | .picked _ => isTrue trivial
  | .numbered _ _ => isTrue trivial
  | .inserted _ _ _ => isTrue trivial
  | .verified => isFalse id
  | .committed _ => isFalse id
  | .failed _ => isFalse id

/-- The number fits into its column. -/
def Fits (number : String) : Prop := number.length ≤ Claim.numberMaxLength

instance (number : String) : Decidable (Fits number) :=
  inferInstanceAs (Decidable (number.length ≤ Claim.numberMaxLength))

/-- The last number of the year, in text order, has a counter, and the number with
the next counter fits into its column and is not in the table. -/
def NextFree (year : Nat) (numbers : List String) : Prop :=
  match last year numbers with
  | some last =>
    match Numbering.lastNumber last with
    | .ok n => Fits (number year (n + 1)) ∧ number year (n + 1) ∉ numbers
    | .error _ => False
  | none => True

/-- A call takes its snapshot while no other call of the year is between its own
and its commit, and finds the next number free. -/
def Apart (filings : Fin k → Filing) (s : State k) (n : Fin k) (_ : State k) : Prop :=
  match s.calls n with
  | .verified => (∀ m, (s.calls m).Underway → (filings m).year ≠ (filings n).year) ∧
    NextFree (filings n).year (numbers s.db)
  | _ => True

instance (year : Nat) (numbers : List String) : Decidable (NextFree year numbers) :=
  match h : last year numbers with
  | none => isTrue (by simp only [NextFree, h])
  | some last =>
    match hlast : Numbering.lastNumber last with
    | .ok n => decidable_of_iff (Fits (number year (n + 1)) ∧ number year (n + 1) ∉ numbers)
        (by simp only [NextFree, h, hlast])
    | .error _ => isFalse (by simp only [NextFree, h, hlast, not_false_eq_true])

instance (filings : Fin k → Filing) (s : State k) (n : Fin k) (t : State k) :
    Decidable (Apart filings s n t) :=
  match h : s.calls n with
  | .verified => decidable_of_iff ((∀ m, (s.calls m).Underway →
      (filings m).year ≠ (filings n).year) ∧ NextFree (filings n).year (numbers s.db))
      (by simp only [Apart, h])
  | .picked _ => isTrue (by simp only [Apart, h])
  | .numbered _ _ => isTrue (by simp only [Apart, h])
  | .inserted _ _ _ => isTrue (by simp only [Apart, h])
  | .committed _ => isTrue (by simp only [Apart, h])
  | .failed _ => isTrue (by simp only [Apart, h])

/-- `uuid4` draws no identifier twice, and none that is in the table. -/
structure Drawn (db : Store) (filings : Fin k → Filing) : Prop where
  distinct : Function.Injective (fun n => (filings n).env.uuid4 0)
  unused : ∀ n, Tables.find Claim.id db.claims ((filings n).env.uuid4 0) = none

/-! ## What one step can do -/

/-- Waiting for the lock, or about to insert. -/
def Phase.Waiting : Phase → Prop
  | .picked _ => True
  | .numbered _ _ => True
  | _ => False

/-- The number a call is going for, from its snapshot on. -/
def bid (f : Filing) : Phase → Option (Except ClaimError String)
  | .picked last => some (following f.year last)
  | .numbered _ number => some (.ok number)
  | .inserted _ number _ => some (.ok number)
  | .committed number => some (.ok number)
  | _ => none

inductive Step (filings : Fin k → Filing) (s : State k) : Fin k → State k → Prop where
  | pick {n p} (verified : s.calls n = .verified) (waits : p.Waiting)
      (picked : bid (filings n) p =
        some (generateClaimNumber s.db.claims (filings n).year)) : Step filings s n (s.move n p)
  | lock {n last number} (picked : s.calls n = .picked last)
      (read : following (filings n).year last = .ok number) :
      Step filings s n (s.move n (.numbered (some last) number))
  | unreadable {n last e} (picked : s.calls n = .picked last)
      (read : following (filings n).year last = .error e) :
      Step filings s n (s.move n (.failed e))
  | refused {n lock number e} (numbered : s.calls n = .numbered lock number)
      (taken : Tables.find Claim.id s.db.claims ((filings n).env.uuid4 0) = none →
        Fits number → number ∈ numbers s.db) : Step filings s n (s.move n (.failed e))
  | insert {n lock number} (numbered : s.calls n = .numbered lock number)
      (alone : ∀ m, (s.calls m).uncommitted ≠ some number)
      (fits : Fits number) (unused : number ∉ numbers s.db) :
      Step filings s n (s.move n (.inserted lock number .claim))
  | write {n lock number row next} (inserted : s.calls n = .inserted lock number row)
      (more : row.next = some next) : Step filings s n (s.move n (.inserted lock number next))
  | commit {n lock number row} (inserted : s.calls n = .inserted lock number row) :
      Step filings s n (State.move { s with db := filed s.db (filings n) number } n
        (.committed number))

theorem generate_eq (db : Store) (year : Nat) :
    generateClaimNumber db.claims year = chosen year (last year (numbers db)) := by
  have hgreatest : Numbering.greatest ((db.claims.map Claim.claimNumber).filter
      (fun t => ("CLM-" ++ Nat.repr year ++ "-").toList.isPrefixOf t.toList)) =
      last year (numbers db) := rfl
  simp only [generateClaimNumber, Numbering.next, hgreatest]
  cases last year (numbers db) with
  | none => rfl
  | some last =>
    simp only [chosen, following]
    cases Numbering.lastNumber last <;> rfl

theorem step_sound {filings : Fin k → Filing} {s t : State k} {n : Fin k}
    (h : step filings s n = some t) : Step filings s n t := by
  simp only [step] at h
  split at h
  · rename_i verified
    have hgenerate := generate_eq s.db (filings n).year
    split at h
    · rename_i last hlast
      cases h
      rw [hlast] at hgenerate
      exact .pick verified trivial (congrArg some hgenerate.symm)
    · rename_i hlast
      cases h
      rw [hlast] at hgenerate
      exact .pick verified trivial (congrArg some hgenerate.symm)
  · rename_i last picked
    split at h
    · cases h
    · split at h
      · rename_i number read
        cases h
        exact .lock picked read
      · rename_i e read
        cases h
        exact .unreadable picked read
  · rename_i lock number numbered
    split at h
    · cases h
    · rename_i alone
      split at h
      · rename_i claims hinsert
        cases h
        exact .insert numbered (not_exists.mp alone) (insertClaim_ok_fits hinsert)
          (insertClaim_ok_number hinsert)
      · rename_i e hinsert
        cases h
        refine .refused numbered (fun newId fits => ?_)
        by_contra newNumber
        have accepted := insertClaim_fresh
          (newClaim (filings n).env number (filings n).data) fits newId newNumber
        rw [accepted] at hinsert
        cases hinsert
  · rename_i lock number row inserted
    split at h
    · rename_i next more
      cases h
      exact .write inserted more
    · cases h
      exact .commit inserted
  · cases h
  · cases h

/-! ## The numbers of the years -/

theorem generate_number {claims : List Claim} {year : Nat} {x : String}
    (h : generateClaimNumber claims year = .ok x) : ∃ i, x = number year i := by
  have hgenerate := generate_eq ⟨claims, [], []⟩ year
  rw [h] at hgenerate
  cases hlast : last year (numbers ⟨claims, [], []⟩) with
  | none =>
    rw [hlast] at hgenerate
    exact ⟨1, Except.ok.inj hgenerate⟩
  | some last =>
    simp only [hlast, chosen, following] at hgenerate
    split at hgenerate
    · exact ⟨_, Except.ok.inj hgenerate⟩
    · cases hgenerate

/-- A number of one year does not count in another. -/
theorem not_isPrefixOf_number {year year' : Nat} (h : year ≠ year') (i : Nat) :
    ¬ (stem year).toList.isPrefixOf (number year' i).toList = true :=
  fun hprefix => h ((Numbering.isPrefixOf_render_iff "CLM-" year year' i).mp hprefix)

theorem number_ne {year year' : Nat} (h : year ≠ year') (i j : Nat) :
    number year i ≠ number year' j := by
  intro heq
  have hown := Numbering.stem_isPrefixOf (stem year) i
  exact not_isPrefixOf_number h j (heq ▸ hown)

theorem generate_insert_other {claims : List Claim} {claim : Claim} {year year' i : Nat}
    (h : year ≠ year') (hnumber : claim.claimNumber = number year' i) :
    generateClaimNumber (Tables.insert claims claim) year = generateClaimNumber claims year := by
  have hlast : last year (numbers ⟨Tables.insert claims claim, [], []⟩) =
      last year (numbers ⟨claims, [], []⟩) := by
    have hother : [claim.claimNumber].filter (fun t => (stem year).toList.isPrefixOf t.toList) =
        [] := List.filter_cons_of_neg (hnumber ▸ not_isPrefixOf_number h i)
    simp only [last, numbers, Tables.insert, List.map_append, List.map_cons, List.map_nil,
      List.filter_append, hother, List.append_nil]
  have hafter := generate_eq ⟨Tables.insert claims claim, [], []⟩ year
  rw [hlast, ← generate_eq] at hafter
  exact hafter

theorem last_eq_none {year : Nat} {numbers : List String} (h : last year numbers = none) (i : Nat) :
    number year i ∉ numbers := by
  intro hmem
  have hown : number year i ∈
      numbers.filter (fun t => (stem year).toList.isPrefixOf t.toList) :=
    List.mem_filter.mpr ⟨hmem, Numbering.stem_isPrefixOf (stem year) i⟩
  unfold last at h
  cases hnumbers : numbers.filter (fun t => (stem year).toList.isPrefixOf t.toList) with
  | nil =>
    rw [hnumbers] at hown
    cases hown
  | cons first rest =>
    obtain ⟨g, hg⟩ := Numbering.greatest_cons first rest
    rw [hnumbers, hg] at h
    cases h

theorem nextFree_iff (db : Store) {year : Nat} (hyear : year ≤ 9999) :
    NextFree year (numbers db) ↔
      ∃ x, generateClaimNumber db.claims year = .ok x ∧ Fits x ∧ x ∉ numbers db := by
  rw [generate_eq]
  unfold NextFree
  cases hlast : last year (numbers db) with
  | none =>
    exact iff_of_true trivial ⟨_, rfl, number_fits hyear (by omega), last_eq_none hlast 1⟩
  | some last =>
    simp only [chosen, following]
    cases Numbering.lastNumber last with
    | ok n =>
      constructor
      · intro free
        exact ⟨_, rfl, free⟩
      · rintro ⟨x, hx, free⟩
        have heq : number year (n + 1) = x := Except.ok.inj hx
        change Fits (number year (n + 1)) ∧ number year (n + 1) ∉ numbers db
        rw [heq]
        exact free
    | error part =>
      refine iff_of_false id ?_
      rintro ⟨x, hx, -⟩
      cases hx

/-- While a year counts its claims from one in six digits, the next number is
free. -/
theorem nextFree_of_holds {db : Store} {year n : Nat} (hyear : year ≤ 9999)
    (h : Numbering.Holds (stem year) (numbers db) n) (hn : n < 1000000) :
    NextFree year (numbers db) := by
  have hnext : Numbering.next (stem year) (numbers db) = .ok (number year (n + 1)) :=
    Numbering.next_holds h hn
  refine (nextFree_iff db hyear).mpr
    ⟨number year (n + 1), ?_, number_fits hyear (by omega), ?_⟩
  · rw [numbers, stem] at hnext
    simp only [generateClaimNumber, hnext]
  · intro hmem
    obtain ⟨i, _, hle, heq⟩ := (h _).mp (List.mem_filter.mpr
      ⟨hmem, Numbering.stem_isPrefixOf (stem year) (n + 1)⟩)
    have hi := Numbering.render_inj heq
    omega

/-! ## What holds in every run -/

@[simp] theorem move_self (s : State k) (n : Fin k) (p : Phase) : (s.move n p).calls n = p := by
  simp [State.move]

theorem move_ne (s : State k) {m n : Fin k} (h : m ≠ n) (p : Phase) :
    (s.move n p).calls m = s.calls m := by
  simp [State.move, h]

/-- What is asked of every call is asked of the new phase and of the other calls. -/
theorem forall_move (s : State k) (n : Fin k) (p : Phase) (Q : Fin k → Phase → Prop) :
    (∀ m, Q m ((s.move n p).calls m)) ↔ Q n p ∧ ∀ m, m ≠ n → Q m (s.calls m) :=
  Function.forall_update_iff s.calls Q

/-- What is asked of any two calls is asked of the new phase with every other call. -/
theorem pairs_move {s : State k} {n : Fin k} {p : Phase} {Q : Fin k → Phase → Fin k → Phase → Prop}
    (symm : ∀ m q m' q', Q m q m' q' → Q m' q' m q)
    (old : ∀ m m', m ≠ m' → Q m (s.calls m) m' (s.calls m'))
    (new : ∀ m, m ≠ n → Q n p m (s.calls m)) (m m' : Fin k) (h : m ≠ m') :
    Q m ((s.move n p).calls m) m' ((s.move n p).calls m') := by
  by_cases hmn : m = n
  · subst hmn
    rw [move_self, move_ne s (Ne.symm h)]
    exact new m' (Ne.symm h)
  · rw [move_ne s hmn]
    by_cases hmn' : m' = n
    · subst hmn'
      rw [move_self]
      exact symm _ _ _ _ (new m hmn)
    · rw [move_ne s hmn']
      exact old m m' h

@[simp] theorem move_db (s : State k) (n : Fin k) (p : Phase) : (s.move n p).db = s.db := rfl

theorem numbers_filed (db : Store) (f : Filing) (number : String) :
    numbers (filed db f number) = numbers db ++ [number] := by
  simp [numbers, filed, Tables.insert, newClaim]

/-- What the primary key and the unique index give: the identifiers of the calls
not committed are unused, the uncommitted numbers are new and distinct, and so
are the committed ones. -/
structure Sound (db : Store) (filings : Fin k → Filing) (s : State k) : Prop where
  unused : ∀ n, (∀ x, s.calls n ≠ .committed x) →
    Tables.find Claim.id s.db.claims ((filings n).env.uuid4 0) = none
  old : ∀ x ∈ numbers db, x ∈ numbers s.db
  fresh : ∀ n x, (s.calls n).uncommitted = some x → x ∉ numbers s.db
  single : ∀ m n x, (s.calls m).uncommitted = some x → (s.calls n).uncommitted = some x → m = n
  filed : ∀ n x, s.calls n = .committed x → Filed db filings s n x

theorem sound_init {db : Store} {filings : Fin k → Filing} (h : Drawn db filings) :
    Sound db filings (init db) where
  unused := fun n _ => h.unused n
  old := fun _ hx => hx
  fresh := by
    intro n x hx
    cases hx
  single := by
    intro m n x hx
    cases hx
  filed := by
    intro n x hx
    cases hx

theorem Filed.mem_numbers {db : Store} {filings : Fin k → Filing} {s : State k} {n : Fin k}
    {x : String} (h : Filed db filings s n x) : x ∈ numbers s.db :=
  List.mem_map_of_mem h.stored

/-- A step of one call that commits nothing. -/
theorem Sound.move {db : Store} {filings : Fin k → Filing} {s : State k}
    (hs : Sound db filings s) {n : Fin k} {p : Phase} (before : ∀ x, s.calls n ≠ .committed x)
    (after : ∀ x, p ≠ .committed x)
    (inserted : ∀ x, p.uncommitted = some x →
      x ∉ numbers s.db ∧ ∀ m, m ≠ n → (s.calls m).uncommitted ≠ some x) :
    Sound db filings (s.move n p) where
  unused := (forall_move s n p (fun m q => (∀ x, q ≠ .committed x) →
      Tables.find Claim.id s.db.claims ((filings m).env.uuid4 0) = none)).mpr
    ⟨fun _ => hs.unused n before, fun m _ => hs.unused m⟩
  old := hs.old
  fresh := (forall_move s n p (fun _ q => ∀ x, q.uncommitted = some x → x ∉ numbers s.db)).mpr
    ⟨fun x hx => (inserted x hx).1, fun m _ => hs.fresh m⟩
  single := by
    intro m m' x hm hm'
    by_contra hne
    refine pairs_move (Q := fun _ q _ q' => q.uncommitted = some x → q'.uncommitted ≠ some x)
      (fun _ _ _ _ h hq hq' => h hq' hq) ?_ ?_ m m' hne hm hm'
    · intro m m' hne hm hm'
      exact hne (hs.single m m' x hm hm')
    · intro m hmn hp
      exact (inserted x hp).2 m hmn
  filed := by
    have hfiled : ∀ m, m ≠ n → ∀ x, s.calls m = .committed x →
        Filed db filings (s.move n p) m x := by
      intro m hmn x hx
      obtain ⟨-, stored, new, distinct⟩ := hs.filed m x hx
      refine ⟨by rw [move_ne s hmn, hx], stored, new, ?_⟩
      exact (forall_move s n p (fun m' q => m' ≠ m → q ≠ .committed x)).mpr
        ⟨fun _ => after x, fun m' _ => distinct m'⟩
    exact (forall_move s n p (fun m q => ∀ x, q = .committed x →
      Filed db filings (s.move n p) m x)).mpr ⟨fun x hx => absurd hx (after x), hfiled⟩

/-- A commit. -/
theorem Sound.commit {db : Store} {filings : Fin k → Filing} (drawn : Drawn db filings)
    {s : State k} (hs : Sound db filings s) {n : Fin k} {x : String}
    (hx : (s.calls n).uncommitted = some x) :
    Sound db filings
      (State.move { s with db := ConcurrentFilings.filed s.db (filings n) x } n
        (.committed x)) := by
  have hnew : x ∉ numbers s.db := hs.fresh n x hx
  have others : ∀ m, m ≠ n → (State.move { s with
      db := ConcurrentFilings.filed s.db (filings n) x } n (.committed x)).calls m = s.calls m :=
    fun m hmn => move_ne _ hmn _
  refine ⟨?_, ?_, ?_, ?_, ?_⟩
  · intro m hm
    by_cases hmn : m = n
    · subst hmn
      exact absurd (move_self _ m _) (hm x)
    · rw [others m hmn] at hm
      have hids : (newClaim (filings n).env x (filings n).data).id ≠ (filings m).env.uuid4 0 :=
        fun hid => hmn (drawn.distinct hid).symm
      exact (Tables.find_insert_ne hids).trans (hs.unused m hm)
  · intro y hy
    rw [move_db, numbers_filed]
    exact List.mem_append_left _ (hs.old y hy)
  · intro m y hy
    by_cases hmn : m = n
    · subst hmn
      rw [move_self] at hy
      cases hy
    · rw [others m hmn] at hy
      rw [move_db, numbers_filed, List.mem_append, List.mem_singleton]
      rintro (hold | rfl)
      · exact hs.fresh m y hy hold
      · exact hmn (hs.single m n y hy hx)
  · intro m m' y hm hm'
    by_cases hmn : m = n
    · subst hmn
      rw [move_self] at hm
      cases hm
    · by_cases hmn' : m' = n
      · subst hmn'
        rw [move_self] at hm'
        cases hm'
      · rw [others m hmn] at hm
        rw [others m' hmn'] at hm'
        exact hs.single m m' y hm hm'
  · intro m y hy
    by_cases hmn : m = n
    · subst hmn
      rw [move_self] at hy
      cases hy
      refine ⟨move_self _ m _, List.mem_append_right _ (List.mem_singleton_self _),
        fun hold => hnew (hs.old x hold), fun m' hm' hcommitted => ?_⟩
      rw [others m' hm'] at hcommitted
      exact hnew (hs.filed m' x hcommitted).mem_numbers
    · rw [others m hmn] at hy
      have hfiled := hs.filed m y hy
      refine ⟨by rw [others m hmn, hy], List.mem_append_left _ hfiled.stored, hfiled.new,
        fun m' hm' hcommitted => ?_⟩
      by_cases hmn' : m' = n
      · subst hmn'
        rw [move_self] at hcommitted
        cases hcommitted
        exact hnew hfiled.mem_numbers
      · rw [others m' hmn'] at hcommitted
        exact hfiled.distinct m' hm' hcommitted

theorem Phase.Waiting.uncommitted {p : Phase} (h : p.Waiting) : p.uncommitted = none := by
  cases p with
  | picked last => rfl
  | numbered lock number => rfl
  | _ => exact h.elim

/-- A step to a phase without an insert. -/
theorem Sound.unwritten {db : Store} {filings : Fin k → Filing} {s : State k}
    (hs : Sound db filings s) {n : Fin k} {p : Phase} (before : ∀ x, s.calls n ≠ .committed x)
    (h : p.Waiting ∨ ∃ e, p = .failed e) : Sound db filings (s.move n p) := by
  have after : p.uncommitted = none ∧ ∀ x, p ≠ .committed x := by
    rcases h with waits | ⟨e, rfl⟩
    · refine ⟨waits.uncommitted, ?_⟩
      rintro x rfl
      exact waits
    · exact ⟨rfl, nofun⟩
  refine hs.move before after.2 (fun x hx => ?_)
  rw [after.1] at hx
  cases hx

theorem sound_step {db : Store} {filings : Fin k → Filing} (drawn : Drawn db filings) :
    Runs.Inductive (step filings) (Sound db filings) := by
  intro s n t hs h
  cases step_sound h with
  | pick verified waits picked =>
    refine hs.unwritten ?_ (Or.inl waits)
    rw [verified]
    exact nofun
  | lock picked read =>
    refine hs.unwritten ?_ (Or.inl trivial)
    rw [picked]
    exact nofun
  | unreadable picked read =>
    refine hs.unwritten ?_ (Or.inr ⟨_, rfl⟩)
    rw [picked]
    exact nofun
  | refused numbered taken =>
    refine hs.unwritten ?_ (Or.inr ⟨_, rfl⟩)
    rw [numbered]
    exact nofun
  | insert numbered alone fits unused =>
    refine hs.move ?_ nofun (fun x hx => ?_)
    · rw [numbered]
      exact nofun
    · cases hx
      exact ⟨unused, fun m _ => alone m⟩
  | write inserted more =>
    rename_i lock number row next
    have hnumber : (s.calls n).uncommitted = some number := by
      rw [inserted]
      rfl
    refine hs.move ?_ nofun (fun x hx => ?_)
    · rw [inserted]
      exact nofun
    · cases hx
      exact ⟨hs.fresh n number hnumber, fun m hmn hm => hmn (hs.single m n number hm hnumber)⟩
  | commit inserted =>
    refine hs.commit drawn ?_
    rw [inserted]
    rfl

/-! ## One call alone -/

section
variable {filings : Fin k → Filing} {s : State k} {n : Fin k}

theorem write_run {lock : Option String} {x : String}
    (h : s.calls n = .inserted lock x .claim) :
    Runs.run (step filings) s [n, n, n] = some (State.move { s with
      db := filed s.db (filings n) x } n (.committed x)) := by
  simp [Runs.run, step, h, Row.next, State.move]

theorem insert_run {lock : Option String} {x : String} (h : s.calls n = .numbered lock x)
    (settled : ∀ m, (s.calls m).uncommitted = none)
    {claims : List Claim} (accepted : insertClaim s.db.claims
      (newClaim (filings n).env x (filings n).data) = .ok claims) :
    Runs.run (step filings) s [n, n, n, n] = some (State.move { s with
      db := filed s.db (filings n) x } n (.committed x)) := by
  have hstep : step filings s n = some (s.move n (.inserted lock x .claim)) := by
    simp [step, h, settled, accepted]
  have hwrite : Runs.run (step filings) (s.move n (.inserted lock x .claim)) [n, n, n] =
      some (State.move { s.move n (.inserted lock x .claim) with
        db := filed s.db (filings n) x } n (.committed x)) := write_run (move_self s n _)
  simpa [Runs.run, hstep, State.move] using hwrite

theorem fileClaim_filed {db db' : Store} {f : Filing} (h : fileClaim db f.env f.data = .ok db') :
    ∃ x claims, generateClaimNumber db.claims f.year = .ok x ∧
      insertClaim db.claims (newClaim f.env x f.data) = .ok claims ∧ db' = filed db f x := by
  cases hx : generateClaimNumber db.claims f.year with
  | error e =>
    change (generateClaimNumber db.claims f.year >>= _) = _ at h
    rw [hx] at h
    cases h
  | ok x =>
    rw [fileClaim_of_number hx] at h
    cases hinsert : insertClaim db.claims (newClaim f.env x f.data) with
    | error e =>
      rw [hinsert] at h
      cases h
    | ok claims =>
      rw [hinsert] at h
      obtain ⟨-, rfl⟩ := insertClaim_ok hinsert
      exact ⟨x, _, rfl, hinsert, (Except.ok.inj h).symm⟩

/-- With no row locked, a call gets the number its snapshot gives. -/
theorem number_run (verified : s.calls n = .verified) (unlocked : ∀ m, (s.calls m).lock = none)
    {x : String} (hx : generateClaimNumber s.db.claims (filings n).year = .ok x) :
    ∃ as lock, Runs.run (step filings) s as = some (s.move n (.numbered lock x)) := by
  rw [generate_eq] at hx
  cases hlast : last (filings n).year (numbers s.db) with
  | none =>
    rw [hlast] at hx
    cases hx
    refine ⟨[n], none, Runs.run_cons.mpr ⟨_, ?_, rfl⟩⟩
    simp [step, verified, hlast]
  | some l =>
    have read : following (filings n).year l = .ok x := by
      rw [hlast] at hx
      exact hx
    have free : ¬ ∃ m, ((s.move n (.picked l)).calls m).lock = some l := by
      refine not_exists.mpr ((forall_move s n _ (fun _ q => q.lock ≠ some l)).mpr ⟨nofun, ?_⟩)
      intro m _ hm
      rw [unlocked m] at hm
      cases hm
    refine ⟨[n, n], some l, Runs.run_cons.mpr ⟨s.move n (.picked l), ?_,
      Runs.run_cons.mpr ⟨_, ?_, rfl⟩⟩⟩
    · simp [step, verified, hlast]
    · simp only [step, move_self, if_neg free, read]
      simp [State.move]

/-- A call that no other comes near leaves the tables that `file_claim` leaves. -/
theorem alone_run {db' : Store} (verified : s.calls n = .verified)
    (unlocked : ∀ m, (s.calls m).lock = none) (settled : ∀ m, (s.calls m).uncommitted = none)
    (h : fileClaim s.db (filings n).env (filings n).data = .ok db') :
    ∃ as t x, Runs.run (step filings) s as = some t ∧ t.db = db' ∧ t.calls n = .committed x := by
  obtain ⟨x, claims, hx, accepted, rfl⟩ := fileClaim_filed h
  obtain ⟨as, lock, hnumber⟩ := number_run verified unlocked hx
  have hothers : ∀ m, ((s.move n (.numbered lock x)).calls m).uncommitted = none :=
    (forall_move s n _ (fun _ q => q.uncommitted = none)).mpr ⟨rfl, fun m _ => settled m⟩
  have hinsert := insert_run (move_self s n (.numbered lock x)) hothers accepted
  exact ⟨as ++ [n, n, n, n], _, x, Runs.run_append.mpr ⟨_, hnumber, hinsert⟩, rfl, move_self _ _ _⟩

end

/-! ## Every run can be ended -/

/-- The steps a call has left at most. -/
def Phase.left : Phase → Nat
  | .verified => 6
  | .picked _ => 5
  | .numbered _ _ => 4
  | .inserted _ _ .claim => 3
  | .inserted _ _ .history => 2
  | .inserted _ _ .outbox => 1
  | .committed _ => 0
  | .failed _ => 0

def work (s : State k) : Nat := ∑ n, (s.calls n).left

section
variable {filings : Fin k → Filing} {s t : State k} {n : Fin k}

theorem Phase.Waiting.left_lt {p : Phase} (h : p.Waiting) : p.left < Phase.verified.left := by
  cases p with
  | picked last => exact Nat.lt_succ_self 5
  | numbered lock number => exact Nat.lt_of_lt_of_le (Nat.lt_succ_self 4) (Nat.le_succ 5)
  | _ => exact h.elim

theorem Step.left_lt (h : Step filings s n t) : (t.calls n).left < (s.calls n).left := by
  cases h with
  | pick verified waits picked =>
    rw [move_self, verified]
    exact waits.left_lt
  | lock picked read =>
    rw [move_self, picked]
    simp [Phase.left]
  | unreadable picked read =>
    rw [move_self, picked]
    simp [Phase.left]
  | refused numbered taken =>
    rw [move_self, numbered]
    simp [Phase.left]
  | insert numbered alone fits unused =>
    rw [move_self, numbered]
    simp [Phase.left]
  | write inserted more =>
    rename_i lock number row next
    rw [move_self, inserted]
    cases row with
    | claim =>
      cases more
      simp [Phase.left]
    | history =>
      cases more
      simp [Phase.left]
    | outbox => cases more
  | commit inserted =>
    rename_i lock number row
    rw [move_self, inserted]
    cases row <;> simp [Phase.left]

theorem Step.other (h : Step filings s n t) {m : Fin k} (hmn : m ≠ n) :
    t.calls m = s.calls m := by
  cases h <;> exact move_ne _ hmn _

theorem work_lt (h : step filings s n = some t) : work t < work s := by
  have hstep := step_sound h
  refine Finset.sum_lt_sum (fun m _ => ?_) ⟨n, Finset.mem_univ n, hstep.left_lt⟩
  by_cases hmn : m = n
  · subst hmn
    exact Nat.le_of_lt hstep.left_lt
  · rw [hstep.other hmn]

theorem inserted_goes {x : String} (h : (s.calls n).uncommitted = some x) :
    ∃ t, step filings s n = some t := by
  cases hphase : s.calls n with
  | inserted lock number row =>
    cases hrow : row.next with
    | some next => exact ⟨_, by simp only [step, hphase, hrow]; rfl⟩
    | none => exact ⟨_, by simp only [step, hphase, hrow]; rfl⟩
  | _ =>
    rw [hphase] at h
    cases h

/-- What an insert waits for never waits. -/
theorem numbered_goes {lock : Option String} {x : String} (h : s.calls n = .numbered lock x) :
    ∃ m t, step filings s m = some t := by
  by_cases waits : ∃ m, (s.calls m).uncommitted = some x
  · obtain ⟨m, hm⟩ := waits
    exact ⟨m, inserted_goes hm⟩
  · refine ⟨n, ?_⟩
    simp only [step, h, if_neg waits]
    cases insertClaim s.db.claims (newClaim (filings n).env x (filings n).data) with
    | ok claims => exact ⟨_, rfl⟩
    | error e => exact ⟨_, rfl⟩

/-- What holds a row lock waits for an insert at most. -/
theorem lock_goes {last : String} (h : (s.calls n).lock = some last) :
    ∃ m t, step filings s m = some t := by
  cases hphase : s.calls n with
  | numbered lock number => exact numbered_goes hphase
  | inserted lock number row => exact ⟨n, inserted_goes (by rw [hphase]; rfl)⟩
  | _ =>
    rw [hphase] at h
    cases h

theorem not_ended_goes (h : ¬ Ended s) : ∃ m t, step filings s m = some t := by
  obtain ⟨n, hn⟩ := not_forall.mp h
  obtain ⟨notCommitted, notFailed⟩ := not_or.mp hn
  cases hphase : s.calls n with
  | verified =>
    refine ⟨n, ?_⟩
    simp only [step, hphase]
    cases last (filings n).year (numbers s.db) with
    | some last => exact ⟨_, rfl⟩
    | none => exact ⟨_, rfl⟩
  | picked last =>
    by_cases waits : ∃ m, (s.calls m).lock = some last
    · obtain ⟨m, hm⟩ := waits
      exact lock_goes hm
    · refine ⟨n, ?_⟩
      simp only [step, hphase, if_neg waits]
      cases following (filings n).year last with
      | ok number => exact ⟨_, rfl⟩
      | error e => exact ⟨_, rfl⟩
  | numbered lock number => exact numbered_goes hphase
  | inserted lock number row => exact ⟨n, inserted_goes (by rw [hphase]; rfl)⟩
  | committed number => exact absurd ⟨number, hphase⟩ notCommitted
  | failed e => exact absurd ⟨e, hphase⟩ notFailed

end

end ConcurrentFilings
