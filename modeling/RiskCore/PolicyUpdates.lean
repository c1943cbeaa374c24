import RiskCore.PolicyRecords

/-!
# Fields that are written apart

`update_policy` writes from an object that may be out of date, but names in
`update_fields` only what its data has; the number `Policy.save` may give the
object is never among it. Whatever is interleaved, an updatable column shows what
the last update that names it gave, and an update touches no column outside
`UPDATABLE_FIELDS`.
-/

namespace PolicyUpdates

open Values PolicyService PolicyRecords

variable {validate : Call → Except PolicyError Unit}

/-! ## The journal of a run -/

/-- A policy came into the tables, or an `update_policy` call on it committed. -/
inductive Entry where
  | created (policy : Policy)
  | updated (id : UUID) (data : Data)

/-- What a committed call enters, with the tables after it. -/
def entries (env : Env) : (c : Call) → View c → Store → List Entry
  | .create _ _, _, db =>
    ((Tables.find Policy.id db.policies (env.uuid4 0)).map Entry.created).toList
  | .update _ _ data, read, _ => [.updated (Policy.id read) data]
  | .cancel _ _ _, _, _ => []

def journal (validate : Call → Except PolicyError Unit) (db : Store) (as : List Action) :
    List Entry :=
  Runs.journal (step validate) (Requests.told (service validate) entries) (start db) as

def creation? (id : UUID) : Entry → Option Policy
  | .created policy => if policy.id = id then some policy else none
  | .updated _ _ => none

def update? (id : UUID) : Entry → Option Data
  | .created _ => none
  | .updated j data => if j = id then some data else none

/-- The row the policy started from, there already or created since. -/
def origin (policies : List Policy) (journal : List Entry) (id : UUID) : Option Policy :=
  (Tables.find Policy.id policies id).or (journal.findSome? (creation? id))

/-- What the last update of the policy that names the column gave it. -/
def lastGiven (journal : List Entry) (id : UUID) (c : Policy.Column) : Option c.Value :=
  (journal.filterMap (update? id)).reverse.findSome? (fun data => data c)

/-- Every updatable column shows what it was given last. -/
def LastGivenShown (policies : List Policy) (journal : List Entry) (db : Store) : Prop :=
  ∀ id row, Tables.find Policy.id db.policies id = some row →
    ∃ first, origin policies journal id = some first ∧
      ∀ c ∈ updatableFields, row.get c = (lastGiven journal id c).getD (first.get c)

/-- An `update_policy` that commits leaves every column outside `UPDATABLE_FIELDS`
alone in every row, `updated_at` excepted. -/
def UpdateKeeps (s : State) (a : Action) (t : State) : Prop :=
  ∀ n env pk filters data read, a = .commit n env →
    s.calls n = .checked (.update pk filters data) read →
    ∀ id row, Tables.find Policy.id s.db.policies id = some row →
      ∃ row', Tables.find Policy.id t.db.policies id = some row' ∧
        ∀ c, c ∉ updatableFields → c ≠ .updatedAt → row'.get c = row.get c

/-! ## How the journal grows -/

theorem origin_append (policies : List Policy) (journal es : List Entry) (id : UUID) :
    origin policies (journal ++ es) id =
      (origin policies journal id).or (es.findSome? (creation? id)) := by
  rw [origin, List.findSome?_append, ← Option.or_assoc]
  rfl

theorem lastGiven_append (journal es : List Entry) (id : UUID) (c : Policy.Column) :
    lastGiven (journal ++ es) id c = (lastGiven es id c).or (lastGiven journal id c) := by
  simp only [lastGiven, List.filterMap_append, List.reverse_append, List.findSome?_append]

theorem lastGiven_created (policy : Policy) (id : UUID) (c : Policy.Column) :
    lastGiven [.created policy] id c = none := rfl

theorem lastGiven_updated (j id : UUID) (data : Data) (c : Policy.Column) :
    lastGiven [.updated j data] id c = if j = id then data c else none := by
  by_cases h : j = id
  · simp [lastGiven, update?, h]
  · simp [lastGiven, update?, h]

/-! ## The invariant -/

/-- The journal tells of the policies that have a record, and of no others. -/
structure Told (policies : List Policy) (journal : List Entry) (db : Store) : Prop where
  present : ∀ id r, recordOf db id = some r →
    ∃ first, origin policies journal id = some first ∧
      ∀ c ∈ updatableFields, r.policy.get c = (lastGiven journal id c).getD (first.get c)
  absent : ∀ id, recordOf db id = none →
    origin policies journal id = none ∧ ∀ c, lastGiven journal id c = none

theorem told_start (db : Store) : Told db.policies [] (start db).db where
  present := by
    intro id r hr
    refine ⟨r.policy, ?_, fun c _ => rfl⟩
    have found : Tables.find Policy.id db.policies id = some r.policy := (recordOf_policy hr).1
    simp [origin, found]
  absent := by
    intro id hr
    have missing : Tables.find Policy.id db.policies id = none := Option.map_eq_none_iff.mp hr
    exact ⟨by simp [origin, missing], fun c => rfl⟩

section
variable {policies : List Policy} {J : List Entry} {db db' : Store} {env : Env}

theorem told_create {customer : Customer} {data : PolicyData} {coverages : List CoverageData}
    (hI : Integrity db) (hT : Told policies J db)
    (h : createPolicy db env customer data coverages = .ok db') :
    Told policies (J ++ entries env (.create data coverages) customer db') db' := by
  obtain ⟨number, fresh, records⟩ := createPolicy_records hI h
  have created := records (env.uuid4 0)
  rw [if_pos rfl] at created
  have found : Tables.find Policy.id db'.policies (env.uuid4 0) =
      some (newPolicy env customer number data) := (recordOf_policy created).1
  have hentries : entries env (.create data coverages) customer db' =
      [.created (newPolicy env customer number data)] := by
    simp [entries, found]
  obtain ⟨noOrigin, notGiven⟩ := hT.absent (env.uuid4 0) fresh
  rw [hentries]
  constructor
  · intro id r hr
    rw [records] at hr
    by_cases hid : id = env.uuid4 0
    · subst hid
      rw [if_pos rfl] at hr
      cases hr
      refine ⟨newPolicy env customer number data, ?_, fun c _ => ?_⟩
      · rw [origin_append, noOrigin]
        simp [creation?, newPolicy]
      · rw [lastGiven_append, lastGiven_created, notGiven]
        rfl
    · rw [if_neg hid] at hr
      obtain ⟨first, horigin, hcolumns⟩ := hT.present id r hr
      refine ⟨first, by rw [origin_append, horigin]; rfl, fun c hc => ?_⟩
      rw [lastGiven_append, lastGiven_created]
      exact hcolumns c hc
  · intro id hr
    rw [records] at hr
    by_cases hid : id = env.uuid4 0
    · rw [if_pos hid] at hr
      cases hr
    · rw [if_neg hid] at hr
      obtain ⟨horigin, hgiven⟩ := hT.absent id hr
      have other : (newPolicy env customer number data).id ≠ id := fun he => hid he.symm
      refine ⟨?_, fun c => ?_⟩
      · rw [origin_append, horigin]
        simp [creation?, other]
      · rw [lastGiven_append, lastGiven_created, hgiven]
        rfl

/-- What an update leaves in the updatable columns of its policy. -/
theorem get_recordUpdated (r : Record) (env : Env) (read : Policy) (data : Data)
    {c : Policy.Column} (hc : c ∈ updatableFields) :
    (r.updated env read data).policy.get c = (data c).getD (r.policy.get c) := by
  by_cases unchanged : changedFields data = []
  · have absent : data c = none :=
      data_eq_none hc (by rw [unchanged]; exact List.not_mem_nil)
    simp only [Record.updated, if_pos unchanged, absent, Option.getD_none]
  · simp only [Record.updated, if_neg unchanged]
    exact get_written r.policy read (env.now 0) data hc

theorem told_update {pk : UUID} {filters : PolicyFilters} {data : Data} {read : Policy}
    (exists_read : recordOf db read.id ≠ none) (hT : Told policies J db)
    (h : updatePolicy db env read data = .ok db') :
    Told policies (J ++ entries env (.update pk filters data) read db') db' := by
  have records := updatePolicy_records h
  have horigin : ∀ id,
      origin policies (J ++ [.updated read.id data]) id = origin policies J id := by
    intro id
    rw [origin_append]
    simp [creation?]
  constructor
  · intro id r hr
    rw [records] at hr
    by_cases hid : id = read.id
    · rw [if_pos hid] at hr
      obtain ⟨old, hold, rfl⟩ := Option.map_eq_some_iff.mp hr
      obtain ⟨first, hfirst, hcolumns⟩ := hT.present id old hold
      refine ⟨first, (horigin id).trans hfirst, fun c hc => ?_⟩
      rw [get_recordUpdated old env read data hc, hcolumns c hc]
      have given : lastGiven (J ++ entries env (.update pk filters data) read db') id c =
          (data c).or (lastGiven J id c) := by
        rw [lastGiven_append, entries, lastGiven_updated, if_pos hid.symm]
      rw [given]
      cases data c <;> rfl
    · rw [if_neg hid] at hr
      obtain ⟨first, hfirst, hcolumns⟩ := hT.present id r hr
      refine ⟨first, (horigin id).trans hfirst, fun c hc => ?_⟩
      rw [lastGiven_append, entries, lastGiven_updated, if_neg (fun he => hid he.symm)]
      exact hcolumns c hc
  · intro id hr
    rw [records] at hr
    have hid : id ≠ read.id := by
      rintro rfl
      rw [if_pos rfl, Option.map_eq_none_iff] at hr
      exact exists_read hr
    rw [if_neg hid] at hr
    obtain ⟨hnone, hgiven⟩ := hT.absent id hr
    refine ⟨(horigin id).trans hnone, fun c => ?_⟩
    rw [lastGiven_append, entries, lastGiven_updated, if_neg (fun he => hid he.symm), hgiven]
    rfl

theorem get_recordCancelled (r : Record) (env : Env) (reason : String) {c : Policy.Column}
    (hc : c ∈ updatableFields) : (r.cancelled env reason).policy.get c = r.policy.get c := by
  cases c <;> first | rfl | exact absurd hc (by decide)

theorem told_cancel {read : Policy} {reason : String} (hT : Told policies J db)
    (h : cancelPolicy db env read reason = .ok db') : Told policies J db' := by
  obtain ⟨⟨locked, hlocked, _⟩, records⟩ := cancelPolicy_records h
  constructor
  · intro id r hr
    rw [records] at hr
    by_cases hid : id = read.id
    · rw [if_pos hid] at hr
      obtain ⟨old, hold, rfl⟩ := Option.map_eq_some_iff.mp hr
      obtain ⟨first, hfirst, hcolumns⟩ := hT.present id old hold
      refine ⟨first, hfirst, fun c hc => ?_⟩
      rw [get_recordCancelled old env reason hc]
      exact hcolumns c hc
    · rw [if_neg hid] at hr
      exact hT.present id r hr
  · intro id hr
    rw [records] at hr
    by_cases hid : id = read.id
    · rw [if_pos hid, hid, hlocked] at hr
      cases hr
    · rw [if_neg hid] at hr
      exact hT.absent id hr

end

/-! ## Runs -/

theorem coherent_run {db : Store} {as : List Action} {s : State}
    (h : Runs.run (step validate) (start db) as = some s) :
    Requests.Coherent (service validate) Integrity (Known validate) s :=
  (coherent validate).run (coherent_start db) h

theorem told_run {db : Store} {as : List Action} {s : State}
    (h : Runs.run (step validate) (start db) as = some s) :
    Told db.policies (journal validate db as) s.db := by
  refine Runs.run_induction
    (P := fun as (s : State) => Told db.policies (journal validate db as) s.db)
    (told_start db) ?_ h
  intro as s a t hrun hT hst
  have hs := coherent_run hrun
  simp only [journal] at hT ⊢
  rw [Runs.journal_snoc hrun]
  rcases Requests.step_told hst with ⟨same, quiet⟩ | ⟨n, env, c, v, rfl, at_n, hc, told⟩
  · rw [same, quiet, List.append_nil]
    exact hT
  · rw [told]
    have hK := hs.views n c v (Or.inr (Or.inl at_n))
    cases c with
    | create data coverages => exact told_create hs.db hT hc
    | update pk filters data =>
      obtain ⟨_, found, hfound, _⟩ := hK
      refine told_update ?_ hT hc
      rw [hfound]
      exact Option.some_ne_none found
    | cancel pk filters reason =>
      rw [entries, List.append_nil]
      exact told_cancel hT hc

theorem update_keeps {s t : State} {a : Action} (hst : step validate s a = some t) :
    UpdateKeeps s a t := by
  intro n env pk filters data read ha at_n id row hrow
  rcases Requests.step_db hst with ⟨same, _⟩ | ⟨m, env', c, v, ha', at_m, hc, _⟩
  · exact ⟨row, by rw [same]; exact hrow, fun c _ _ => rfl⟩
  · cases ha.symm.trans ha'
    cases at_n.symm.trans at_m
    have hrec := updatePolicy_records hc id
    rw [recordOf_found hrow] at hrec
    by_cases hid : id = Policy.id read
    · rw [if_pos hid, Option.map_some] at hrec
      refine ⟨_, (recordOf_policy hrec).1, fun c fixed notClock => ?_⟩
      exact updated_fixed _ env read data fixed notClock
    · rw [if_neg hid] at hrec
      exact ⟨row, (recordOf_policy hrec).1, fun c _ _ => rfl⟩

/-- Along any run of creations, updates and cancellations, from any tables: no
update touches a column outside `UPDATABLE_FIELDS`, and in the state reached every
updatable column of every policy shows what the last committed update with that
field gave it, or what it was created with. -/
theorem updates_keep_apart (validate : Call → Except PolicyError Unit) (db : Store)
    (as : List Action) :
    Runs.Steps (step validate) UpdateKeeps (start db) as ∧
      ∀ s, Runs.run (step validate) (start db) as = some s →
        LastGivenShown db.policies (journal validate db as) s.db := by
  refine ⟨Runs.steps_of_step ?_, ?_⟩
  · exact fun s a t hst => update_keeps hst
  · intro s hrun id row hrow
    exact (told_run hrun).present id _ (recordOf_found hrow)

/-- Two updates that both read the policy before either wrote. -/
example : (Runs.run (step serializers) (init [exampleCustomer]) (exampleCreation ++
    exampleRead 1 (exampleUpdate (premiumOnly examplePremium)) ++
    exampleRead 2 (exampleUpdate (typeOnly .home)) ++ exampleCommit 1 ++ exampleCommit 2)).bind
      (fun s => (Tables.find Policy.id s.db.policies ⟨0⟩).map
        (fun policy => (policy.premiumAmount, policy.policyType))) =
    some (examplePremium, .home) := by decide

end PolicyUpdates
