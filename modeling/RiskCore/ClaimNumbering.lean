import RiskCore.ClaimRecords
import RiskCore.Histories

/-!
# Claim numbers of filings one after another

`file_claim` served again and again on an empty table. Every year counts its
claims from one; the counter goes wrong when it leaves six digits, because the
last number is found by text order.
-/

namespace ClaimNumbering

open Values ClaimService

structure Filing where
  env : Env
  data : ClaimData

/-- `ClaimService.file_claim`. -/
def file (db : Store) (f : Filing) : Except ClaimError Store := do
  f.env.verifyPolicy f.data.policyId
  fileClaim db f.env f.data

/-- A run of this step is a sequence of filings that all succeed. -/
def step (db : Store) (f : Filing) : Option Store := (file db f).toOption

def empty : Store := ⟨[], [], []⟩

/-- The year `generate_claim_number` reads off the clock. -/
def Filing.year (f : Filing) : Nat := (f.env.now 0).date.year

theorem Filing.year_le (f : Filing) : f.year ≤ 9999 := (f.env.now 0).date.valid.2.1

def filedIn (filings : List Filing) (year : Nat) : Nat :=
  filings.countP (fun f => f.year = year)

/-- `CLM-<year>-<n>`. -/
def number (year n : Nat) : String := Numbering.render ("CLM-" ++ Nat.repr year ++ "-") n

/-- A number of up to eleven digits fits into the column. -/
theorem number_fits {year n : Nat} (hyear : year ≤ 9999) (hn : n < 10 ^ 11) :
    (number year n).length ≤ Claim.numberMaxLength := by
  have years : (Nat.toDigits 10 year).length ≤ 4 :=
    (Nat.length_toDigits_le_iff (by omega) (by omega)).mpr (by omega)
  have counter : (Digits.padded 6 n).length ≤ 11 := Digits.padded_length_le (by omega) (by omega) hn
  have stem : (number year n).length =
      "CLM-".length + (Nat.toDigits 10 year).length + "-".length + (Digits.padded 6 n).length := by
    simp only [number, Numbering.render, String.length_append, Nat.repr_eq_ofList_toDigits,
      String.length_ofList]
  rw [stem]
  change 4 + _ + 1 + _ ≤ 20
  omega

def numbers (db : Store) : List String := db.claims.map Claim.claimNumber

/-- All filings succeed, the `n`-th of a year gets the number `n` of that year,
and no number is given twice. -/
def Numbered (filings : List Filing) : Prop :=
  ∃ db, Runs.run step empty filings = some db ∧
    (∀ i f, filings[i]? = some f →
      (numbers db)[i]? = some (number f.year (filedIn (filings.take (i + 1)) f.year))) ∧
    (numbers db).Nodup

/-- What a sequence of successful filings leaves behind. -/
structure Issued (filings : List Filing) (db : Store) : Prop where
  ids : db.claims.map Claim.id = filings.map (fun f => f.env.uuid4 0)
  each : ∀ i f, filings[i]? = some f →
    (numbers db)[i]? = some (number f.year (filedIn (filings.take (i + 1)) f.year))
  counted : ∀ year, Numbering.Holds ("CLM-" ++ Nat.repr year ++ "-") (numbers db)
    (filedIn filings year)
  distinct : (numbers db).Nodup

theorem filedIn_append (filings : List Filing) (f : Filing) (year : Nat) :
    filedIn (filings ++ [f]) year = filedIn filings year + if f.year = year then 1 else 0 := by
  simp [filedIn, List.countP_append, List.countP_singleton]

theorem generate_ok {filings : List Filing} {db : Store} (h : Issued filings db) {year : Nat}
    (below : filedIn filings year < 1000000) :
    generateClaimNumber db.claims year = .ok (number year (filedIn filings year + 1)) := by
  have hnext := Numbering.next_holds (h.counted year) below
  rw [numbers] at hnext
  simp only [generateClaimNumber, hnext, number]

/-- The 1 000 001st filing of a year is given the number of the one before it. -/
theorem generate_repeats {filings : List Filing} {db : Store} (h : Issued filings db) {year : Nat}
    (full : filedIn filings year = 1000000) :
    generateClaimNumber db.claims year = .ok (number year 1000000) ∧
      number year 1000000 ∈ numbers db := by
  have hcounted := h.counted year
  rw [full] at hcounted
  have hnext := Numbering.next_million hcounted
  rw [numbers] at hnext
  refine ⟨by simp only [generateClaimNumber, hnext, number], ?_⟩
  exact hcounted.mem (i := 1000000) (by omega) (by omega)

theorem not_issued_next {filings : List Filing} {db : Store} (h : Issued filings db)
    (year : Nat) : number year (filedIn filings year + 1) ∉ numbers db := by
  unfold number
  exact (h.counted year).not_mem_next

/-- The next number takes its own year one further and leaves the others. -/
theorem counted_append {filings : List Filing} {db : Store} (h : Issued filings db) (f : Filing)
    (year : Nat) : Numbering.Holds ("CLM-" ++ Nat.repr year ++ "-")
      (numbers db ++ [number f.year (filedIn filings f.year + 1)])
      (filedIn (filings ++ [f]) year) := by
  rw [filedIn_append]
  exact Numbering.holds_snoc h.counted f.year year

theorem issued_empty : Issued [] empty where
  ids := rfl
  each := by
    intro i f hi
    cases hi
  counted := fun year => Numbering.holds_nil _
  distinct := List.nodup_nil

/-- A filing that meets the next number takes the record one further. -/
theorem Issued.append {filings : List Filing} {db : Store} (h : Issued filings db) {f : Filing}
    {claim : Claim} (hid : claim.id = f.env.uuid4 0)
    (hnumber : claim.claimNumber = number f.year (filedIn filings f.year + 1))
    (history : List ClaimStatusHistory) (outbox : List Outbox.OutboxEvent) :
    Issued (filings ++ [f]) ⟨Tables.insert db.claims claim, history, outbox⟩ := by
  have hnumbers : numbers ⟨Tables.insert db.claims claim, history, outbox⟩ =
      numbers db ++ [number f.year (filedIn filings f.year + 1)] := by
    simp [numbers, Tables.insert, hnumber]
  have hlength : (numbers db).length = filings.length := by
    have hids := congrArg List.length h.ids
    simpa [numbers] using hids
  constructor
  · simp [Tables.insert, h.ids, hid]
  · have hlast : number f.year (filedIn filings f.year + 1) =
        number f.year (filedIn (filings ++ [f]) f.year) := by
      rw [filedIn_append, if_pos rfl]
    have reported : Histories.Reports (fun filings f => number f.year (filedIn filings f.year))
        filings (numbers db) := h.each
    have next := Histories.reports_snoc hlength reported f
    rw [hnumbers, hlast]
    exact next
  · intro year
    rw [hnumbers]
    exact counted_append h f year
  · rw [hnumbers]
    refine List.nodup_append.mpr ⟨h.distinct, List.nodup_singleton _, ?_⟩
    intro t ht t' ht' heq
    rw [List.mem_singleton.mp ht'] at heq
    exact not_issued_next h f.year (heq ▸ ht)

section
variable {filings : List Filing} {db : Store} {f : Filing}

theorem file_eq {n : String} (verified : f.env.verifyPolicy f.data.policyId = .ok ())
    (hgenerate : generateClaimNumber db.claims f.year = .ok n) :
    file db f = (insertClaim db.claims (newClaim f.env n f.data)).map (fun claims =>
      ⟨claims, db.history ++ [filedHistory f.env (newClaim f.env n f.data)],
        db.outbox ++ [filedEvent f.env (newClaim f.env n f.data)]⟩) := by
  rw [← fileClaim_of_number hgenerate]
  simp only [file, verified, bind, Except.bind]

theorem step_below (h : Issued filings db) (verified : f.env.verifyPolicy f.data.policyId = .ok ())
    (fresh : f.env.uuid4 0 ∉ filings.map (fun f => f.env.uuid4 0))
    (below : filedIn filings f.year < 1000000) :
    ∃ db', step db f = some db' ∧ Issued (filings ++ [f]) db' := by
  have newId : Tables.find Claim.id db.claims (f.env.uuid4 0) = none := by
    refine Tables.find_eq_none.mpr (fun claim hclaim hid => fresh ?_)
    rw [← h.ids, ← hid]
    exact List.mem_map_of_mem hclaim
  have hinsert := insertClaim_fresh
    (newClaim f.env (number f.year (filedIn filings f.year + 1)) f.data)
    (number_fits f.year_le (by omega)) newId (not_issued_next h f.year)
  have hfile := file_eq verified (generate_ok h below)
  rw [hinsert] at hfile
  exact ⟨_, congrArg Except.toOption hfile, h.append rfl rfl _ _⟩

theorem step_full (h : Issued filings db) (full : filedIn filings f.year = 1000000) :
    step db f = none := by
  obtain ⟨hgenerate, hused⟩ := generate_repeats h full
  cases hverify : f.env.verifyPolicy f.data.policyId with
  | error e => simp only [step, file, hverify, bind, Except.bind, Except.toOption]
  | ok u =>
    obtain ⟨e, hinsert⟩ := insertClaim_used
      (newClaim f.env (number f.year 1000000) f.data) hused
    have hfile := file_eq hverify hgenerate
    rw [hinsert] at hfile
    exact congrArg Except.toOption hfile

end

/-! ## Whole sequences -/

/-- The assumptions on the outside world: policy-service confirms every policy,
and no identifier is drawn twice. -/
structure Undisturbed (filings : List Filing) : Prop where
  verified : ∀ f ∈ filings, f.env.verifyPolicy f.data.policyId = .ok ()
  ids : (filings.map (fun f => f.env.uuid4 0)).Nodup

theorem Undisturbed.init {filings : List Filing} {f : Filing}
    (h : Undisturbed (filings ++ [f])) : Undisturbed filings ∧
      f.env.verifyPolicy f.data.policyId = .ok () ∧
      f.env.uuid4 0 ∉ filings.map (fun f => f.env.uuid4 0) := by
  have hids := h.ids
  rw [List.map_append, List.nodup_append] at hids
  refine ⟨⟨fun g hg => h.verified g (List.mem_append_left _ hg), hids.1⟩,
    h.verified f (List.mem_append_right _ (List.mem_singleton_self f)), ?_⟩
  exact fun hmem => hids.2.2 _ hmem _ (List.mem_singleton_self _) rfl

/-- A sequence that succeeds stays within six digits and a million. -/
theorem issued_of_run {filings : List Filing} (h : Undisturbed filings) {db : Store}
    (hrun : Runs.run step empty filings = some db) :
    Issued filings db ∧ ∀ year, filedIn filings year ≤ 1000000 := by
  induction filings using List.reverseRecOn generalizing db with
  | nil =>
    cases hrun
    exact ⟨issued_empty, fun year => Nat.zero_le _⟩
  | append_singleton filings f ih =>
    obtain ⟨before, verified, fresh⟩ := h.init
    obtain ⟨db₁, hbefore, hlast⟩ := Runs.run_append.mp hrun
    obtain ⟨hissued, hle⟩ := ih before hbefore
    obtain ⟨db₂, hstep, hend⟩ := Runs.run_cons.mp hlast
    cases hend
    have below : filedIn filings f.year < 1000000 := by
      refine Nat.lt_of_le_of_ne (hle f.year) (fun full => ?_)
      rw [step_full hissued full] at hstep
      cases hstep
    obtain ⟨db', hdb', hissued'⟩ := step_below hissued verified fresh below
    rw [hdb'] at hstep
    cases hstep
    refine ⟨hissued', fun year => ?_⟩
    rw [filedIn_append]
    by_cases hyear : f.year = year
    · subst hyear
      rw [if_pos rfl]
      omega
    · rw [if_neg hyear]
      exact hle year

theorem run_of_le {filings : List Filing} (h : Undisturbed filings)
    (hle : ∀ year, filedIn filings year ≤ 1000000) :
    ∃ db, Runs.run step empty filings = some db := by
  induction filings using List.reverseRecOn with
  | nil => exact ⟨empty, rfl⟩
  | append_singleton filings f ih =>
    obtain ⟨before, verified, fresh⟩ := h.init
    have hless : filedIn filings f.year < 1000000 := by
      have hyear := hle f.year
      rw [filedIn_append, if_pos rfl] at hyear
      omega
    have hprefix : ∀ year, filedIn filings year ≤ 1000000 := by
      intro year
      have hyear := hle year
      rw [filedIn_append] at hyear
      omega
    obtain ⟨db, hdb⟩ := ih before hprefix
    obtain ⟨db', hdb', _⟩ := step_below (issued_of_run before hdb).1 verified fresh hless
    exact ⟨db', Runs.run_append.mpr ⟨db, hdb, Runs.run_cons.mpr ⟨db', hdb', rfl⟩⟩⟩

/-- The numbering works for a sequence of filings exactly when no year has more
than a million of them. -/
theorem numbered_iff_million (filings : List Filing) (h : Undisturbed filings) :
    Numbered filings ↔ ∀ year, filedIn filings year ≤ 1000000 := by
  constructor
  · rintro ⟨db, hrun, _⟩
    exact (issued_of_run h hrun).2
  · intro hle
    obtain ⟨db, hrun⟩ := run_of_le h hle
    have hissued := (issued_of_run h hrun).1
    exact ⟨db, hrun, hissued.each, hissued.distinct⟩

/-- The `i`-th of the filings of one day. -/
def exampleFiling (i : Nat) : Filing :=
  ⟨ClaimRecords.exampleEnv (10 * i), ClaimRecords.exampleData⟩

def exampleFilings (n : Nat) : List Filing := (List.range n).map exampleFiling

theorem exampleFilings_undisturbed {n : Nat} (hn : n ≤ 2000000) :
    Undisturbed (exampleFilings n) where
  verified := by
    intro f hf
    obtain ⟨i, _, rfl⟩ := List.mem_map.mp hf
    rfl
  ids := by
    rw [exampleFilings, List.map_map]
    refine List.Nodup.map_on ?_ List.nodup_range
    intro i hi j hj heq
    have hbits : BitVec.ofNat 128 (10 * i) = BitVec.ofNat 128 (10 * j) :=
      congrArg UUID.bits heq
    rw [List.mem_range] at hi hj
    have small : ∀ m < n, 10 * m < 2 ^ 128 := by omega
    have hnat := congrArg BitVec.toNat hbits
    rw [BitVec.toNat_ofNat, BitVec.toNat_ofNat, Nat.mod_eq_of_lt (small i hi),
      Nat.mod_eq_of_lt (small j hj)] at hnat
    exact Nat.eq_of_mul_eq_mul_left (by decide) hnat

theorem filedIn_exampleFilings (n : Nat) : filedIn (exampleFilings n) 2025 = n := by
  have hall : ∀ f ∈ exampleFilings n, decide (f.year = 2025) = true := by
    intro f hf
    obtain ⟨i, _, rfl⟩ := List.mem_map.mp hf
    rfl
  rw [filedIn, List.countP_eq_length.mpr hall]
  simp [exampleFilings]

theorem exampleFilings_not_numbered {n : Nat} (hn : n ≤ 2000000) (many : 1000000 < n) :
    Undisturbed (exampleFilings n) ∧
      (exampleFilings n).Pairwise (fun f g => f.year ≤ g.year) ∧
      ¬ Numbered (exampleFilings n) := by
  have undisturbed := exampleFilings_undisturbed hn
  refine ⟨undisturbed, ?_, ?_⟩
  · refine List.pairwise_map.mpr (List.pairwise_of_forall (fun i j => ?_))
    exact Nat.le_refl _
  · rintro ⟨db, hrun, _⟩
    have hle := (issued_of_run undisturbed hrun).2 2025
    rw [filedIn_exampleFilings] at hle
    omega

/-- One filing too many in 2025, with the clock standing still. -/
theorem million_and_one_not_numbered : Undisturbed (exampleFilings 1000001) ∧
    (exampleFilings 1000001).Pairwise (fun f g => f.year ≤ g.year) ∧
    ¬ Numbered (exampleFilings 1000001) :=
  exampleFilings_not_numbered (by omega) (by omega)

theorem two_filings_numbered : Numbered (exampleFilings 2) :=
  (numbered_iff_million _ (exampleFilings_undisturbed (by omega))).mpr
    (fun _ => Nat.le_trans List.countP_le_length (by decide))

end ClaimNumbering
