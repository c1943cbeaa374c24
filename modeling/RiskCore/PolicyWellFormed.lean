import RiskCore.PolicyRecords

/-!
# Well-formed policies under requests served one by one

The serializer compares the two dates of a request with each other, never a
single date with the stored one. Requests keep every policy well formed exactly
if each accepted `PATCH` with one date happens to fit the other.
-/

namespace PolicyWellFormed

open Values Outbox PolicyService PolicyRecords

structure WellFormed (policy : Policy) : Prop where
  dates : policy.startDate < policy.endDate
  premium : 0 < policy.premiumAmount.cents

instance (policy : Policy) : Decidable (WellFormed policy) :=
  decidable_of_iff (policy.startDate < policy.endDate ∧ 0 < policy.premiumAmount.cents)
    ⟨fun h => ⟨h.1, h.2⟩, fun h => ⟨h.dates, h.premium⟩⟩

def AllWellFormed (db : Store) : Prop := ∀ policy ∈ db.policies, WellFormed policy

instance : DecidablePred AllWellFormed :=
  fun db => inferInstanceAs (Decidable (∀ policy ∈ db.policies, WellFormed policy))

/-- A single date in the data fits the date the policy keeps. -/
def FitsStored (policy : Policy) (data : Data) : Prop :=
  match data .startDate, data .endDate with
  | some start, none => start < policy.endDate
  | none, some finish => policy.startDate < finish
  | _, _ => True

/-- If the request is a `PATCH` that the view lets through, its single date fits
the stored one. -/
def OneDateFits (db : Store) (r : Env × Call) (_ : Store) : Prop :=
  ∀ pk filters data policy, r.2 = .update pk filters data →
    getObject db filters pk = .ok policy →
    (service serializers).check (.update pk filters data) policy = .ok () →
    FitsStored policy data

/-- `PolicyViewSet` with no two requests at a time. -/
def serveStep : Store → Env × Call → Option Store := Requests.serveStep (service serializers)

def UniqueIds (db : Store) : Prop := (db.policies.map Policy.id).Nodup

/-! ## What the serializer guarantees -/

theorem validatePremiumAmount_ok {value : Amount} (h : validatePremiumAmount value = .ok ()) :
    0 < value.cents := by
  unfold validatePremiumAmount at h
  split at h
  · cases h
  · omega

theorem validateDates_ok {start finish : Date}
    (h : validateDates (some start) (some finish) = .ok ()) : start < finish := by
  simp only [validateDates] at h
  split at h
  · cases h
  · rename_i ordered
    exact Date.not_le.mp ordered

theorem serializers_create {data : PolicyData} {coverages : List CoverageData}
    (h : serializers (.create data coverages) = .ok ()) :
    data.startDate < data.endDate ∧ 0 < data.premiumAmount.cents := by
  obtain ⟨⟨⟩, hpremium, hdates⟩ := Requests.bind_ok.mp h
  exact ⟨validateDates_ok hdates, validatePremiumAmount_ok hpremium⟩

theorem serializers_update {pk : UUID} {filters : PolicyFilters} {data : Data}
    (h : serializers (.update pk filters data) = .ok ()) :
    (∀ value, data .premiumAmount = some value → 0 < value.cents) ∧
      validateDates (data .startDate) (data .endDate) = .ok () := by
  cases hp : data .premiumAmount with
  | none =>
    simp only [serializers, hp, bind, Except.bind] at h
    exact ⟨by simp, h⟩
  | some value =>
    simp only [serializers, hp] at h
    obtain ⟨⟨⟩, hpremium, hdates⟩ := Requests.bind_ok.mp h
    refine ⟨?_, hdates⟩
    intro v hv
    cases hv
    exact validatePremiumAmount_ok hpremium

/-- A row that was well formed stays so under an accepted update iff the date
that is not sent fits. -/
theorem wellFormed_written_iff {policy : Policy} {t : DateTime} {pk : UUID}
    {filters : PolicyFilters} {data : Data} (h : WellFormed policy)
    (accepted : serializers (.update pk filters data) = .ok ()) :
    WellFormed (policy.saveFields (policy.updated t data) (changedFields data ++ [.updatedAt])) ↔
      FitsStored policy data := by
  obtain ⟨premiums, dates⟩ := serializers_update accepted
  have hstart : (policy.saveFields (policy.updated t data)
      (changedFields data ++ [.updatedAt])).startDate = (data .startDate).getD policy.startDate :=
    get_written policy policy t data (c := .startDate) (by decide)
  have hend : (policy.saveFields (policy.updated t data)
      (changedFields data ++ [.updatedAt])).endDate = (data .endDate).getD policy.endDate :=
    get_written policy policy t data (c := .endDate) (by decide)
  have hpremium : (policy.saveFields (policy.updated t data)
      (changedFields data ++ [.updatedAt])).premiumAmount =
        (data .premiumAmount).getD policy.premiumAmount :=
    get_written policy policy t data (c := .premiumAmount) (by decide)
  have positive : 0 < ((data .premiumAmount).getD policy.premiumAmount).cents := by
    cases hv : data .premiumAmount with
    | none => exact h.premium
    | some value => exact premiums value hv
  have ordered : WellFormed (policy.saveFields (policy.updated t data)
      (changedFields data ++ [.updatedAt])) ↔
        (data .startDate).getD policy.startDate < (data .endDate).getD policy.endDate := by
    constructor
    · intro hw
      rw [← hstart, ← hend]
      exact hw.dates
    · intro hd
      exact ⟨by rw [hstart, hend]; exact hd, by rw [hpremium]; exact positive⟩
  rw [ordered, FitsStored]
  cases hs : data .startDate with
  | none =>
    cases he : data .endDate with
    | none => exact iff_of_true h.dates trivial
    | some finish => exact Iff.rfl
  | some start =>
    cases he : data .endDate with
    | none => exact Iff.rfl
    | some finish =>
      rw [hs, he] at dates
      exact iff_of_true (validateDates_ok dates) trivial

/-! ## One request -/

theorem uniqueIds_commit {db db' : Store} {env : Env} {c : Call} {v : View c}
    (hU : UniqueIds db) (h : (service serializers).commit db env c v = .ok db') :
    UniqueIds db' := by
  cases c with
  | create data coverages =>
    obtain ⟨number, fresh, rfl⟩ := createPolicy_ok h
    exact Tables.insert_nodup hU (r := newPolicy env v number data) fresh
  | update pk filters data =>
    rcases updatePolicy_ok h with ⟨_, rfl⟩ | ⟨_, row, found, rfl⟩
    · exact hU
    · rw [UniqueIds, Tables.update_map_key]
      · exact hU
      · exact fun row hrow => (saveFields_id row _ (id_not_saved data)).trans hrow
  | cancel pk filters reason =>
    obtain ⟨locked, found, hlocked, _, rfl⟩ := cancelPolicy_ok h
    rw [UniqueIds, Tables.update_map_key]
    · exact hU
    · exact fun row hrow => (saveFields_id row _ (by decide)).trans hrow

theorem uniqueIds_inductive : Runs.Inductive serveStep UniqueIds := by
  intro db r db' hU h
  simp only [serveStep, Requests.serveStep] at h
  split at h
  · rename_i served hserve
    cases h
    obtain ⟨v, _, _, hc⟩ := Requests.serve_ok.mp hserve
    exact uniqueIds_commit hU hc
  · cases h
    exact hU

/-- An update that has read a policy cannot fail to write it. -/
theorem updatePolicy_found {db : Store} {read : Policy} (env : Env) (data : Data)
    (found : Tables.find Policy.id db.policies read.id = some read) :
    ∃ db', updatePolicy db env read data = .ok db' := by
  simp only [updatePolicy, updated_id, found]
  split
  · exact ⟨_, rfl⟩
  · exact ⟨_, rfl⟩

theorem served_create {db db' : Store} {env : Env} {data : PolicyData}
    {coverages : List CoverageData} {customer : Customer} (hP : AllWellFormed db)
    (accepted : serializers (.create data coverages) = .ok ())
    (h : createPolicy db env customer data coverages = .ok db') : AllWellFormed db' := by
  obtain ⟨number, _, rfl⟩ := createPolicy_ok h
  obtain ⟨dates, premium⟩ := serializers_create accepted
  exact Tables.forall_insert hP ⟨dates, premium⟩

theorem served_cancel {db db' : Store} {env : Env} {read : Policy} {reason : String}
    (hU : UniqueIds db) (hP : AllWellFormed db)
    (h : cancelPolicy db env read reason = .ok db') : AllWellFormed db' := by
  obtain ⟨locked, found, _, _, rfl⟩ := cancelPolicy_ok h
  refine (Tables.forall_update_iff hU found hP).mpr ?_
  have hlocked := hP locked (Tables.find_mem found)
  exact ⟨hlocked.dates, hlocked.premium⟩

theorem served_update {db db' : Store} {env : Env} {pk : UUID} {filters : PolicyFilters}
    {read : Policy} {data : Data} (hU : UniqueIds db) (hP : AllWellFormed db)
    (found : Tables.find Policy.id db.policies read.id = some read)
    (accepted : serializers (.update pk filters data) = .ok ())
    (h : updatePolicy db env read data = .ok db') :
    AllWellFormed db' ↔ FitsStored read data := by
  have hread := hP read (Tables.find_mem found)
  rcases updatePolicy_ok h with ⟨unchanged, rfl⟩ | ⟨_, row, _, rfl⟩
  · -- no updatable field at all, so neither date
    have absent : ∀ c ∈ updatableFields, data c = none := fun c hc =>
      data_eq_none hc (by rw [unchanged]; exact List.not_mem_nil)
    refine iff_of_true hP ?_
    rw [FitsStored, absent .startDate (by decide), absent .endDate (by decide)]
    trivial
  · exact (Tables.forall_update_iff hU found hP).trans (wellFormed_written_iff hread accepted)

/-- One request keeps the policies well formed iff its single date fits. -/
theorem served_iff {db db' : Store} {r : Env × Call} (hU : UniqueIds db) (hP : AllWellFormed db)
    (h : serveStep db r = some db') : AllWellFormed db' ↔ OneDateFits db r db' := by
  obtain ⟨env, c⟩ := r
  simp only [serveStep, Requests.serveStep] at h
  split at h
  · rename_i served hserve
    cases h
    obtain ⟨v, hr, hcheck, hc⟩ := Requests.serve_ok.mp hserve
    cases c with
    | create data coverages =>
      exact iff_of_true (served_create hP (read_create hr) hc) (by intro _ _ _ _ hcall; cases hcall)
    | cancel pk filters reason =>
      exact iff_of_true (served_cancel hU hP hc) (by intro _ _ _ _ hcall; cases hcall)
    | update pk filters data =>
      obtain ⟨found, hid⟩ := getObject_ok hr
      rw [served_update hU hP (hid ▸ found) (check_update hcheck).1 hc]
      constructor
      · intro fits pk' filters' data' policy hcall hget _
        cases hcall
        cases hr.symm.trans hget
        exact fits
      · exact fun h => h pk filters data v rfl hr hcheck
  · rename_i e hserve
    cases h
    refine iff_of_true hP ?_
    -- a PATCH that passes its checks is not refused by its transaction
    intro pk filters data policy hcall hget hcheck
    obtain ⟨found, hid⟩ := getObject_ok hget
    obtain ⟨db', hw⟩ := updatePolicy_found env data (hid ▸ found)
    have hok : Requests.serve (service serializers) db env (.update pk filters data) = .ok db' :=
      Requests.serve_ok.mpr ⟨policy, hget, hcheck, hw⟩
    rw [show c = .update pk filters data from hcall, hok] at hserve
    cases hserve

/-- Requests served one after the other keep every policy well formed iff every
accepted `PATCH` with a single date fits the stored one. -/
theorem wellFormed_iff_oneDateFits (customers : List Customer) (requests : List (Env × Call)) :
    Runs.Always serveStep AllWellFormed ⟨customers, [], [], []⟩ requests ↔
      Runs.Steps serveStep OneDateFits ⟨customers, [], [], []⟩ requests := by
  refine Runs.always_iff_steps uniqueIds_inductive ?_ List.nodup_nil ?_
  · exact fun db r db' hU hP h => served_iff hU hP h
  · intro policy hp
    cases hp

/-- The policy runs from April 2025 to April 2026; then its end alone is moved to
March 2025. -/
def endBeforeStart : List (Env × Call) :=
  [(exampleEnv 0, .create exampleData []),
    (exampleEnv 100, exampleUpdate (endOnly ⟨2025, 3, 1, by decide⟩))]

theorem endBeforeStart_accepted :
    ¬ Runs.Always serveStep AllWellFormed ⟨[exampleCustomer], [], [], []⟩ endBeforeStart := by
  decide

/-- What requests served one by one do, the concurrent service can do. -/
theorem sequential_is_run {customers : List Customer} {requests : List (Env × Call)} {db : Store}
    (h : Runs.run serveStep ⟨customers, [], [], []⟩ requests = some db) :
    ∃ as t, Runs.run (step serializers) (init customers) as = some t ∧ t.db = db :=
  Requests.sequential_run (s := init customers) (k := 0) (fun _ _ => rfl) h

end PolicyWellFormed
