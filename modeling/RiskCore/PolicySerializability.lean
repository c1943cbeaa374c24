import RiskCore.PolicySnapshots
import RiskCore.Serializability

/-!
# When concurrent policy calls are serializable

A creation and the locked row of a cancellation are never out of date. What an
update writes to the row comes from its request alone; its event, and both
checks and filters, come from the object it read. The calls are serializable in
commit order exactly as long as every update that writes finds the other
reported columns as it read them, and every row written still passes the
filters its request was looked up with.
-/

namespace PolicySerializability

open Values Outbox PolicyService PolicyRecords PolicySnapshots Serializability

variable {validate : Call → Except PolicyError Unit}

/-- An update that names no updatable column writes nothing. -/
def writes : Call → Bool
  | .update _ _ data => !(changedFields data).isEmpty
  | .create _ _ => true
  | .cancel _ _ _ => true

/-- The row a writing call commits to. -/
def AsRead (db : Store) : (c : Call) → View c → Store → Prop
  | .create _ _, _, _ => True
  | .update _ filters data, read, _ => ∀ r, recordOf db (Policy.id read) = some r →
      (changedFields data ≠ [] → filters.matches r.policy = true) ∧ ReportedAsRead r read data
  | .cancel _ filters _, read, _ => ∀ r, recordOf db (Policy.id read) = some r →
      filters.matches r.policy = true

/-- The policy exists, with the number and the customer it was read with. -/
def Found (db : Store) (pk : UUID) (read : Policy) : Prop :=
  read.id = pk ∧ ∃ row, Tables.find Policy.id db.policies pk = some row ∧
    row.policyNumber = read.policyNumber ∧ row.customerId = read.customerId

/-- What stays true of a view. -/
def Seen (validate : Call → Except PolicyError Unit) (db : Store) : (c : Call) → View c → Prop
  | .create data coverages, customer => validate (.create data coverages) = .ok () ∧
      getCustomer db data.customerId = .ok customer
  | .update pk _ _, read => Found db pk read
  | .cancel pk _ _, read => Found db pk read

theorem getObject_some {db : Store} {filters : PolicyFilters} {pk : UUID} {policy : Policy} :
    getObject db filters pk = .ok policy ↔
      Tables.find Policy.id db.policies pk = some policy ∧ filters.matches policy = true := by
  unfold getObject
  split
  · rename_i row hf
    rw [hf]
    split
    · rename_i hm
      constructor
      · intro h
        cases h
        exact ⟨rfl, hm⟩
      · rintro ⟨h, -⟩
        cases h
        rfl
    · rename_i hm
      refine iff_of_false (by simp) ?_
      rintro ⟨h, hmatch⟩
      cases h
      exact hm hmatch
  · rename_i hf
    simp [hf]

/-- Rewriting columns other than the key, the number and the customer. -/
theorem Found.saved {db db' : Store} {pk id : UUID} {read obj : Policy}
    {fields : List Policy.Column} (h : Found db pk read)
    (fixed : ∀ c ∈ [Policy.Column.id, .policyNumber, .customerId], c ∉ fields)
    (policies : db'.policies = Tables.update Policy.id db.policies id
      (fun row => row.saveFields obj fields)) : Found db' pk read := by
  obtain ⟨hid, row, hfind, hnumber, hcustomer⟩ := h
  have keep : ∀ c ∈ [Policy.Column.id, .policyNumber, .customerId],
      ∀ r : Policy, (r.saveFields obj fields).get c = r.get c :=
    fun c hc r => (Policy.get_saveFields r obj fields c).trans (if_neg (fixed c hc))
  have keeps : ∀ r : Policy, r.id = id → (r.saveFields obj fields).id = id :=
    fun r hr => (keep .id (by decide) r).trans hr
  by_cases own : pk = id
  · refine ⟨hid, row.saveFields obj fields, ?_, ?_, ?_⟩
    · rw [policies, own, Tables.find_update_self keeps, ← own, hfind, Option.map_some]
    · exact (keep .policyNumber (by decide) row).trans hnumber
    · exact (keep .customerId (by decide) row).trans hcustomer
  · exact ⟨hid, row, by rw [policies, Tables.find_update_ne keeps own, hfind], hnumber, hcustomer⟩

theorem found_commit {db db' : Store} {env : Env} {c : Call} {v : View c}
    (h : (service validate).commit db env c v = .ok db') {pk : UUID} {read : Policy}
    (hf : Found db pk read) : Found db' pk read := by
  cases c with
  | create data coverages =>
    obtain ⟨number, _, rfl⟩ := createPolicy_ok h
    obtain ⟨hid, row, hfind, hkept⟩ := hf
    exact ⟨hid, row, Tables.find_insert_old hfind, hkept⟩
  | update pk' filters data =>
    rcases updatePolicy_ok h with ⟨_, rfl⟩ | ⟨_, row, _, rfl⟩
    · exact hf
    · refine hf.saved ?_ rfl
      intro c hc
      simp only [List.mem_cons, List.not_mem_nil, or_false] at hc
      rcases hc with rfl | rfl | rfl <;> simp [mem_changedFields, updatableFields]
  | cancel pk' filters reason =>
    obtain ⟨locked, _, _, _, rfl⟩ := cancelPolicy_ok h
    exact hf.saved (by decide) rfl

theorem commit_customers {db db' : Store} {env : Env} {c : Call} {v : View c}
    (h : (service validate).commit db env c v = .ok db') : db'.customers = db.customers := by
  cases c with
  | create data coverages =>
    obtain ⟨number, _, rfl⟩ := createPolicy_ok h
    rfl
  | update pk filters data => rcases updatePolicy_ok h with ⟨_, rfl⟩ | ⟨_, row, _, rfl⟩ <;> rfl
  | cancel pk filters reason =>
    obtain ⟨locked, _, _, _, rfl⟩ := cancelPolicy_ok h
    rfl

theorem coherent_seen (validate : Call → Except PolicyError Unit) :
    Runs.Inductive (step validate)
      (Requests.Coherent (service validate) (fun _ => True) (Seen validate)) := by
  apply Requests.coherent_inductive
  · intro db env c v _ hr
    cases c with
    | create data coverages =>
      obtain ⟨⟨⟩, valid, hcustomer⟩ := Requests.bind_ok.mp hr
      exact ⟨valid, hcustomer⟩
    | update pk filters data =>
      obtain ⟨hfind, _⟩ := getObject_some.mp hr
      exact ⟨Tables.find_key hfind, v, hfind, rfl, rfl⟩
    | cancel pk filters reason =>
      obtain ⟨hfind, _⟩ := getObject_some.mp hr
      exact ⟨Tables.find_key hfind, v, hfind, rfl, rfl⟩
  · intro db env c v db' _ _ _ hc
    refine ⟨trivial, fun c' v' hv => ?_⟩
    cases c' with
    | create data coverages =>
      obtain ⟨valid, hcustomer⟩ := hv
      refine ⟨valid, ?_⟩
      rw [getCustomer, commit_customers hc]
      exact hcustomer
    | update pk filters data => exact found_commit hc hv
    | cancel pk filters reason => exact found_commit hc hv

/-! ## Updates -/

theorem saveFields_congr {row obj obj' : Policy} {fields : List Policy.Column}
    (h : ∀ c ∈ fields, obj.get c = obj'.get c) :
    row.saveFields obj fields = row.saveFields obj' fields :=
  List.foldl_ext _ _ row (fun r c hc => by rw [h c hc])

/-- What an update writes to a row does not depend on the object it read. -/
theorem saved_columns (row read read' : Policy) (t : DateTime) (data : Data) :
    row.saveFields (read.updated t data) (changedFields data ++ [.updatedAt]) =
      row.saveFields (read'.updated t data) (changedFields data ++ [.updatedAt]) := by
  refine saveFields_congr (fun c hc => ?_)
  rcases mem_savedFields.mp hc with changed | rfl
  · have notClock : c ≠ .updatedAt := by
      rintro rfl
      exact absurd (mem_changedFields.mp changed).1 (by decide)
    obtain ⟨v, hv⟩ := Option.isSome_iff_exists.mp (mem_changedFields.mp changed).2
    rw [get_updated notClock, get_updated notClock, if_pos changed, if_pos changed, hv]
    rfl
  · rfl

/-- Two objects that agree on the identifiers give the same event exactly if they
agree on what is reported. -/
theorem updatedEvent_congr_iff {env : Env} {policy policy' : Policy} (id : policy.id = policy'.id)
    (number : policy.policyNumber = policy'.policyNumber)
    (customer : policy.customerId = policy'.customerId) :
    updatedEvent env policy = updatedEvent env policy' ↔
      ∀ x : Entry, policy.get x.column = policy'.get x.column := by
  constructor
  · intro h
    refine (describes_other_iff (updatedEvent_describes env policy)).mp ?_
    rw [h]
    exact updatedEvent_describes env policy'
  · intro h
    have kind : policy.policyType = policy'.policyType := h .policyType
    have status : policy.status = policy'.status := h .status
    have premium : policy.premiumAmount = policy'.premiumAmount := h .premiumAmount
    have start : policy.startDate = policy'.startDate := h .startDate
    have finish : policy.endDate = policy'.endDate := h .endDate
    simp only [updatedEvent, emitPolicyEvent, buildUpdated, baseData, id, number, customer, kind,
      status, premium, start, finish]

/-- Reading the row again changes nothing of an update iff the reported columns
it leaves alone are as they were read. -/
theorem updatePolicy_reread_iff {db db' : Store} {env : Env} {read row : Policy} {data : Data}
    (changed : changedFields data ≠ []) (id : row.id = read.id)
    (number : row.policyNumber = read.policyNumber) (customer : row.customerId = read.customerId)
    (hc : updatePolicy db env read data = .ok db') :
    updatePolicy db env row data = .ok db' ↔
      ∀ x : Entry, x.column ∈ changedFields data ∨ row.get x.column = read.get x.column := by
  obtain ⟨none_changed, _⟩ | ⟨_, found, hfound, rfl⟩ := updatePolicy_ok hc
  · exact absurd none_changed changed
  have again : updatePolicy db env row data = .ok { db with
      policies := Tables.update Policy.id db.policies read.id
        (fun r => r.saveFields (read.updated (env.now 0) data) (changedFields data ++ [.updatedAt]))
      outbox := db.outbox ++ [updatedEvent env (row.updated (env.now 0) data)] } := by
    simp only [updatePolicy, if_neg changed, updated_id, id, hfound,
      saved_columns _ row read (env.now 0) data]
  have fixed : ∀ c ∈ [Policy.Column.id, .policyNumber, .customerId], ∀ p : Policy,
      (p.updated (env.now 0) data).get c = p.get c := by
    intro c hc p
    simp only [List.mem_cons, List.not_mem_nil, or_false] at hc
    rcases hc with rfl | rfl | rfl <;> exact get_updated_fixed (by decide) (by decide)
  have sameEvent : updatedEvent env (row.updated (env.now 0) data) =
      updatedEvent env (read.updated (env.now 0) data) ↔
      ∀ x : Entry, x.column ∈ changedFields data ∨ row.get x.column = read.get x.column := by
    rw [updatedEvent_congr_iff]
    · refine forall_congr' (fun x => ?_)
      have notClock : x.column ≠ .updatedAt := by cases x <;> decide
      rw [get_updated notClock, get_updated notClock]
      by_cases hx : x.column ∈ changedFields data
      · obtain ⟨v, hv⟩ := Option.isSome_iff_exists.mp (mem_changedFields.mp hx).2
        rw [if_pos hx, if_pos hx, hv]
        exact iff_of_true rfl (Or.inl hx)
      · rw [if_neg hx, if_neg hx, or_iff_right hx]
    · rw [updated_id, updated_id, id]
    · exact (fixed .policyNumber (by decide) row).trans
        (number.trans (fixed .policyNumber (by decide) read).symm)
    · exact (fixed .customerId (by decide) row).trans
        (customer.trans (fixed .customerId (by decide) read).symm)
  rw [again, ← sameEvent]
  constructor
  · intro h
    have houtbox := congrArg Store.outbox (Except.ok.inj h)
    exact (List.cons.inj (List.append_cancel_left houtbox)).1
  · intro h
    rw [h]

theorem update_fresh_iff {db db' : Store} {env : Env} {pk : UUID} {filters : PolicyFilters}
    {data : Data} {read : Policy} (changed : changedFields data ≠ [])
    (hv : Seen validate db (.update pk filters data) read)
    (hcheck : (service validate).check (.update pk filters data) read = .ok ())
    (hc : updatePolicy db env read data = .ok db') :
    Fresh (service validate) db env (.update pk filters data) db' ↔
      AsRead db (.update pk filters data) read db' := by
  obtain ⟨hid, row, hfind, hnumber, hcustomer⟩ := hv
  obtain ⟨hvalid, hupdatable⟩ := check_update hcheck
  have hkey : row.id = read.id := (Tables.find_key hfind).trans hid.symm
  have reread := updatePolicy_reread_iff changed hkey hnumber hcustomer hc
  constructor
  · rintro ⟨readEnv, halone⟩ r hr
    obtain ⟨v, hread, -, hcommit⟩ := alone_some.mp halone
    obtain ⟨hv, hmatch⟩ := getObject_some.mp hread
    cases hfind.symm.trans hv
    rw [hid, recordOf_found hfind] at hr
    cases hr
    exact ⟨fun _ => hmatch, fun _ => reread.mp hcommit⟩
  · intro h
    obtain ⟨hmatch, hreported⟩ := h ⟨row, _⟩ (by rw [hid]; exact recordOf_found hfind)
    have same := hreported changed
    refine ⟨env, alone_some.mpr ⟨row, getObject_some.mpr ⟨hfind, hmatch changed⟩, ?_,
      reread.mpr same⟩⟩
    have sameStatus : row.status = read.status := by
      rcases same .status with never | same
      · exact absurd (mem_changedFields.mp never).1 (by decide)
      · exact same
    refine Requests.bind_ok.mpr ⟨(), hvalid, ?_⟩
    rw [checkUpdatable, sameStatus, if_neg (not_not.mpr hupdatable)]

/-! ## Cancellations -/

theorem cancel_fresh_iff {db db' : Store} {env : Env} {pk : UUID} {filters : PolicyFilters}
    {reason : String} {read : Policy} (hv : Seen validate db (.cancel pk filters reason) read)
    (hcheck : (service validate).check (.cancel pk filters reason) read = .ok ())
    (hc : cancelPolicy db env read reason = .ok db') :
    Fresh (service validate) db env (.cancel pk filters reason) db' ↔
      AsRead db (.cancel pk filters reason) read db' := by
  obtain ⟨hid, row, hfind, _, _⟩ := hv
  obtain ⟨⟨⟩, hvalid, _⟩ := Requests.bind_ok.mp hcheck
  have hkey : row.id = read.id := (Tables.find_key hfind).trans hid.symm
  constructor
  · rintro ⟨readEnv, halone⟩ r hr
    obtain ⟨v, hread, -, -⟩ := alone_some.mp halone
    obtain ⟨hv, hmatch⟩ := getObject_some.mp hread
    rw [hid, recordOf_found hv] at hr
    cases hr
    exact hmatch
  · intro h
    have hmatch := h ⟨row, _⟩ (by rw [hid]; exact recordOf_found hfind)
    -- the second check was made on this very row
    obtain ⟨locked, hlocked, _, cancelable, _⟩ := cancelPolicy_ok hc
    rw [hid, hfind] at hlocked
    cases hlocked
    refine ⟨env, alone_some.mpr ⟨row, getObject_some.mpr ⟨hfind, hmatch⟩, ?_, ?_⟩⟩
    · refine Requests.bind_ok.mpr ⟨(), hvalid, ?_⟩
      rw [checkCancelable, if_neg (not_not.mpr cancelable)]
    · have same : cancelPolicy db env row reason = cancelPolicy db env read reason := by
        simp only [cancelPolicy, hkey]
      exact same.trans hc

/-! ## Runs -/

theorem commit_quiet {db db' : Store} {env : Env} {c : Call} {v : View c}
    (quiet : writes c = false) (h : (service validate).commit db env c v = .ok db') : db' = db := by
  cases c with
  | create data coverages => cases quiet
  | cancel pk filters reason => cases quiet
  | update pk filters data =>
    have unchanged : changedFields data = [] := by simpa [writes] using quiet
    rcases updatePolicy_ok h with ⟨_, same⟩ | ⟨changed, _⟩
    · exact same
    · exact absurd unchanged changed

theorem fresh_iff {db db' : Store} {env : Env} {c : Call} {v : View c} (hv : Seen validate db c v)
    (hcheck : (service validate).check c v = .ok ())
    (hc : (service validate).commit db env c v = .ok db') :
    (writes c = true → Fresh (service validate) db env c db') ↔ AsRead db c v db' := by
  cases c with
  | create data coverages =>
    refine iff_of_true (fun _ => ?_) trivial
    exact ⟨env, alone_some.mpr ⟨v, Requests.bind_ok.mpr ⟨(), hv.1, hv.2⟩, hcheck, hc⟩⟩
  | cancel pk filters reason =>
    exact (imp_iff_right (show writes (.cancel pk filters reason) = true from rfl)).trans
      (cancel_fresh_iff hv hcheck hc)
  | update pk filters data =>
    by_cases changed : changedFields data = []
    · refine iff_of_true (fun hwrites => ?_) (fun r _ => ⟨?_, ?_⟩)
      · simp [writes, changed] at hwrites
      · exact fun h => absurd changed h
      · exact fun h => absurd changed h
    · have hwrites : writes (.update pk filters data) = true := by simp [writes, changed]
      exact (imp_iff_right hwrites).trans (update_fresh_iff changed hv hcheck hc)

/-- In every state of a run the tables are what its committed calls would leave,
served alone in the order of their commits, iff every writing call commits
against what it read: the reported columns an update leaves alone, and the
filters it and a cancellation were looked up with. -/
theorem serializable_iff_as_read (validate : Call → Except PolicyError Unit) (db : Store)
    (as : List Action) :
    (∀ pre t, pre <+: as → Runs.run (step validate) (start db) pre = some t →
      SerialTo (service validate) writes (start db) pre t) ↔
      Runs.Steps (step validate) (Requests.OnCommit (service validate) AsRead) (start db) as := by
  have views : ∀ db env env' c (v v' : View c), (service validate).read db env c = .ok v →
      (service validate).read db env' c = .ok v' → v = v' := by
    intro db env env' c v v' h h'
    cases c <;> exact Except.ok.inj (h.symm.trans h')
  exact serializable_iff (coherent_seen validate) views (fun _ _ _ _ _ => commit_quiet)
    (fun _ _ _ _ _ => fresh_iff) (Requests.coherent_init trivial) as

end PolicySerializability
