import RiskCore.ClaimMetrics
import RiskCore.Paging

/-!
# The list of claims, page by page

The dashboard follows the link to the next page until there is none, while claims are
filed and moved. The link drops the status of the first page, and each page is counted
in one query and read in another. A claim that was listed when the first page was read
is on one of the pages all the same, unless the last page was counted before a filing
and read after it.
-/

namespace ClaimListing

open Values ClaimService Paging

/-! ## The walk -/

/-- `StandardPagination.page_size`; `listClaims` sends none. -/
def pageSize : Nat := 20

/-- `Meta.ordering` of a claim is its `filed_at`, newest first. -/
def instant (claim : Claim) : Nat := claim.filedAt.key

/-- `notFound` is the answer for a page that is not there. -/
inductive Loading where
  | requested
  | counted (count : Nat)
  | shown (next : Bool)
  | notFound
deriving DecidableEq

/-- The page that is asked for, and the pages that were shown. -/
structure State where
  server : ClaimService.State
  status : Option String
  number : Nat
  loading : Loading
  pages : List (List Claim)

/-- `listing` is the order in which the database sorts the rows of its query. -/
inductive Action where
  | server (a : ClaimService.Action)
  | count
  | rows (listing : List Claim)
  | next

def init (status : Option String) : State := ⟨ClaimService.init, status, 1, .requested, []⟩

/-- `ClaimViewSet.get_queryset`, for a request of `listClaims`. -/
def State.rows (s : State) : List Claim :=
  s.server.db.claims.filter (ClaimFilters.matches ⟨s.status, none, none⟩)

/-- `ListModelMixin.list` in its two queries, and `ClaimsPage` with its link. -/
def step (s : State) : Action → Option State
  | .server a => (ClaimService.step s.server a).map (fun server => { s with server := server })
  | .count =>
    match s.loading with
    | .requested =>
      if validNumber s.number s.rows.length pageSize then
        some { s with loading := .counted s.rows.length }
      else some { s with loading := .notFound }
    | _ => none
  | .rows listing =>
    match s.loading with
    | .counted count =>
      if Sorted instant s.rows listing then
        some { s with
          loading := .shown (hasNext s.number count pageSize)
          pages := s.pages ++ [page s.number count pageSize listing] }
      else none
    | _ => none
  | .next =>
    match s.loading with
    -- `?page=${page + 1}`, without the status
    | .shown true => some { s with status := none, number := s.number + 1, loading := .requested }
    | _ => none

/-- What one step can do, case by case. -/
inductive Step (s : State) : Action → State → Prop where
  | server {a server} (moved : ClaimService.step s.server a = some server) :
      Step s (.server a) { s with server := server }
  | count (requested : s.loading = .requested)
      (valid : validNumber s.number s.rows.length pageSize = true) :
      Step s .count { s with loading := .counted s.rows.length }
  | notFound (requested : s.loading = .requested)
      (invalid : ¬ validNumber s.number s.rows.length pageSize = true) :
      Step s .count { s with loading := .notFound }
  | rows {listing count} (counted : s.loading = .counted count)
      (sorted : Sorted instant s.rows listing) :
      Step s (.rows listing) { s with
        loading := .shown (hasNext s.number count pageSize)
        pages := s.pages ++ [page s.number count pageSize listing] }
  | next (shown : s.loading = .shown true) :
      Step s .next { s with status := none, number := s.number + 1, loading := .requested }

theorem step_sound {s t : State} {a : Action} (h : step s a = some t) : Step s a t := by
  cases a with
  | server a =>
    obtain ⟨server, moved, rfl⟩ := Option.map_eq_some_iff.mp h
    exact .server moved
  | count =>
    simp only [step] at h
    split at h
    · rename_i requested
      split at h
      · rename_i valid
        cases h
        exact .count requested valid
      · rename_i invalid
        cases h
        exact .notFound requested invalid
    · cases h
  | rows listing =>
    simp only [step] at h
    split at h
    · rename_i count counted
      obtain ⟨sorted, heq⟩ := Option.ite_none_right_eq_some.mp h
      cases heq
      exact .rows counted sorted
    · cases h
  | next =>
    simp only [step] at h
    split at h
    · rename_i shown
      cases h
      exact .next shown
    · cases h

theorem rows_eq {s : State} (h : s.status = none) : s.rows = s.server.db.claims := by
  refine List.filter_eq_self.mpr (fun c _ => ?_)
  simp [ClaimFilters.matches, passes, h]

/-! ## What filings and transitions leave -/

def stamp (claim : Claim) : UUID × Nat := (claim.id, instant claim)

def stamps (db : Store) : List (UUID × Nat) := db.claims.map stamp

theorem stamps_commit {db db' : Store} {env : Env} {call : Call} {v : View call}
    (h : service.commit db env call v = .ok db') : stamps db <+: stamps db' := by
  cases call with
  | file data =>
    obtain ⟨number, -, rfl⟩ := fileClaim_ok h
    exact ⟨[stamp (newClaim env number data)], by simp [stamps, Tables.insert]⟩
  | transition req =>
    obtain ⟨locked, -, -, rfl⟩ := transitionStatus_ok h
    have same : ∀ c ∈ db.claims, stamp (if c.id = Claim.id v then
        c.transitioned (env.now 0) req else c) = stamp c := by
      intro c _
      split <;> rfl
    have kept : (Tables.update Claim.id db.claims (Claim.id v)
        (fun row => row.transitioned (env.now 0) req)).map stamp = db.claims.map stamp := by
      rw [Tables.update, List.map_map]
      exact List.map_congr_left same
    simp only [stamps, kept]
    exact List.prefix_rfl

theorem stamps_step {s t : State} {a : Action} (h : step s a = some t) :
    stamps s.server.db <+: stamps t.server.db := by
  cases step_sound h with
  | server moved =>
    rcases Requests.step_db moved with ⟨same, -⟩ | ⟨n, env, call, v, -, -, committed, -⟩
    · exact same ▸ List.prefix_rfl
    · exact stamps_commit committed
  | _ => exact List.prefix_rfl

theorem stamps_run {s t : State} {as : List Action} (h : Runs.run step s as = some t) :
    stamps s.server.db <+: stamps t.server.db := by
  have kept : Runs.Inductive step (fun t => stamps s.server.db <+: stamps t.server.db) :=
    fun _ _ _ before hst => before.trans (stamps_step hst)
  exact kept.run List.prefix_rfl h

section
variable {db db' : Store} (h : stamps db <+: stamps db')
include h

theorem length_le_of_stamps : db.claims.length ≤ db'.claims.length := by
  simpa [stamps] using h.length_le

theorem rank_le_of_stamps (t : Nat) :
    rank instant db.claims t ≤ rank instant db'.claims t := by
  have counted := h.sublist.countP_le (p := fun st => decide (t < st.2))
  rwa [stamps, stamps, List.countP_map, List.countP_map] at counted

theorem there_of_stamps {t : Nat} (there : ∃ c ∈ db.claims, instant c = t) :
    ∃ c ∈ db'.claims, instant c = t := by
  obtain ⟨c, hc, rfl⟩ := there
  obtain ⟨c', hc', same⟩ := List.mem_map.mp (h.subset (List.mem_map_of_mem hc))
  exact ⟨c', hc', congrArg Prod.snd same⟩

end

/-! ## The pages are there -/

/-- Where the next page to be read begins. -/
def State.start (s : State) : Option Nat :=
  match s.loading with
  | .requested | .counted _ => some (bottom s.number pageSize)
  | .shown true => some (bottom (s.number + 1) pageSize)
  | .shown false | .notFound => none

structure Sound (s : State) : Prop where
  numbered : 1 ≤ s.number
  later : s.number = 1 ∨ s.status = none
  unread : s.number = 1 → s.pages = [] ∨ ∃ next, s.loading = .shown next
  counted : ∀ count, s.loading = .counted count → count ≤ s.server.db.claims.length
  further : ∀ n, s.start = some n → n = 0 ∨ n < s.server.db.claims.length
  found : s.loading ≠ .notFound
  unique : ClaimMetrics.UniqueIds s.server.db
  shown : ∀ p ∈ s.pages, ∀ c ∈ p, stamp c ∈ stamps s.server.db

theorem sound_init (status : Option String) : Sound (init status) where
  numbered := Nat.le_refl 1
  later := Or.inl rfl
  unread := fun _ => Or.inl rfl
  counted := by
    intro count h
    cases h
  further := by
    intro n h
    cases h
    exact Or.inl rfl
  found := by
    intro h
    cases h
  unique := List.nodup_nil
  shown := by
    intro p hp
    cases hp

theorem ne_shown_of_requested {s : State} (h : s.loading = .requested) (next : Bool) :
    s.loading ≠ .shown next := by
  rw [h]
  exact Loading.noConfusion

theorem ne_shown_of_counted {s : State} {count : Nat} (h : s.loading = .counted count)
    (next : Bool) : s.loading ≠ .shown next := by
  rw [h]
  exact Loading.noConfusion

theorem start_of_requested {s : State} (h : s.loading = .requested) :
    s.start = some (bottom s.number pageSize) := by
  rw [State.start, h]

theorem start_of_counted {s : State} {count : Nat} (h : s.loading = .counted count) :
    s.start = some (bottom s.number pageSize) := by
  rw [State.start, h]

theorem start_of_next {s : State} (h : s.loading = .shown true) :
    s.start = some (bottom (s.number + 1) pageSize) := by
  rw [State.start, h]

theorem valid_of_sound {s : State} (h : Sound s) (requested : s.loading = .requested) :
    validNumber s.number s.rows.length pageSize = true := by
  rw [validNumber, Bool.and_eq_true, decide_eq_true_iff, decide_eq_true_iff]
  refine ⟨h.numbered, (le_numPages_iff (by decide) h.numbered).mpr ?_⟩
  rcases h.later with first | unfiltered
  · rw [first]
    exact Nat.lt_of_lt_of_le Nat.one_pos (Nat.le_max_left _ _)
  · rw [rows_eq unfiltered]
    rcases h.further _ (start_of_requested requested) with zero | before
    · rw [zero]
      exact Nat.lt_of_lt_of_le Nat.one_pos (Nat.le_max_left _ _)
    · exact Nat.lt_of_lt_of_le before (Nat.le_max_right _ _)

theorem unique_step {s t : State} {a : Action} (h : ClaimMetrics.UniqueIds s.server.db)
    (hst : step s a = some t) : ClaimMetrics.UniqueIds t.server.db := by
  cases step_sound hst with
  | server moved =>
    rcases Requests.step_db moved with ⟨same, -⟩ | ⟨n, env, call, v, -, -, committed, -⟩
    · exact same ▸ h
    · exact ClaimMetrics.unique_commit h committed
  | _ => exact h

theorem sound_step : Runs.Inductive step Sound := by
  intro s a t h hst
  have grown := stamps_step hst
  have unique := unique_step h.unique hst
  cases step_sound hst with
  | server moved =>
    have longer := length_le_of_stamps grown
    constructor
    case numbered => exact h.numbered
    case later => exact h.later
    case unread => exact h.unread
    case counted => exact fun count hc => (h.counted count hc).trans longer
    case further =>
      exact fun n hn => (h.further n hn).imp_right (fun before => before.trans_le longer)
    case found => exact h.found
    case unique => exact unique
    case shown => exact fun p hp c hc => grown.subset (h.shown p hp c hc)
  | count requested valid =>
    constructor
    case numbered => exact h.numbered
    case later => exact h.later
    case unread =>
      intro first
      exact Or.inl ((h.unread first).resolve_right
        (fun ⟨next, shown⟩ => ne_shown_of_requested requested next shown))
    case counted =>
      intro count hc
      cases hc
      exact List.length_filter_le _ _
    case further => exact fun n hn => h.further n ((start_of_requested requested).trans hn)
    case found => exact Loading.noConfusion
    case unique => exact unique
    case shown => exact h.shown
  | notFound requested invalid => exact absurd (valid_of_sound h requested) invalid
  | @rows listing count counted sorted =>
    constructor
    case numbered => exact h.numbered
    case later => exact h.later
    case unread => exact fun _ => Or.inr ⟨_, rfl⟩
    case counted =>
      intro count hc
      cases hc
    case further =>
      intro n hn
      cases follows : hasNext s.number count pageSize with
      | false =>
        simp only [State.start, follows] at hn
        cases hn
      | true =>
        simp only [State.start, follows, Option.some.injEq] at hn
        subst hn
        have before := (hasNext_iff (by decide) h.numbered).mp follows
        exact Or.inr (before.trans_le (h.counted count counted))
    case found => exact Loading.noConfusion
    case unique => exact unique
    case shown =>
      intro p hp c hc
      rcases List.mem_append.mp hp with old | new
      · exact h.shown p old c hc
      · rw [List.mem_singleton.mp new] at hc
        have listed : c ∈ listing := List.mem_of_mem_drop (List.mem_of_mem_take hc)
        exact List.mem_map_of_mem (List.mem_of_mem_filter (sorted.perm.mem_iff.mp listed))
  | next shown =>
    constructor
    case numbered => exact Nat.le_add_left 1 _
    case later => exact Or.inr rfl
    case unread =>
      intro first
      have positive := h.numbered
      have zero : s.number = 0 := Nat.succ.inj first
      omega
    case counted =>
      intro count hc
      cases hc
    case further => exact fun n hn => h.further n ((start_of_next shown).trans hn)
    case found => exact Loading.noConfusion
    case unique => exact unique
    case shown => exact h.shown

/-! ## A claim on its way to a page -/

def Met (s : State) (t : Nat) : Prop := ∃ p ∈ s.pages, ∃ c ∈ p, instant c = t

/-- The claim is not before the next page to be read, which is one of all claims. -/
structure Ahead (s : State) (t : Nat) (n : Nat) : Prop where
  start : s.start = some n
  unfiltered : s.status = none ∨ s.loading = .shown true
  behind : n ≤ rank instant s.server.db.claims t

structure Tracked (t : Nat) (s : State) : Prop where
  there : ∃ c ∈ s.server.db.claims, instant c = t
  met : Met s t ∨ ∃ n, Ahead s t n

/-- The last page is read as it was counted. -/
def AsCounted (s : State) (a : Action) (_ : State) : Prop :=
  match a, s.loading with
  | .rows listing, .counted count =>
    hasNext s.number count pageSize = true ∨ listing.length = count
  | _, _ => True

instance (s : State) (a : Action) (t : State) : Decidable (AsCounted s a t) := by
  unfold AsCounted
  split <;> infer_instance

def Action.reads : Action → Bool
  | .rows _ => true
  | _ => false

theorem asCounted_of_unread {s : State} {as : List Action} (h : ∀ a ∈ as, a.reads = false) :
    Runs.Steps step AsCounted s as := by
  refine Runs.steps_mono (I := fun _ => True) (fun _ _ _ _ _ => trivial)
    (fun s a t _ _ unread => ?_) trivial (Runs.steps_of_mem h)
  cases a with
  | rows listing => cases unread
  | _ => trivial

/-- Reading a page meets the claim, or leaves it for the pages that follow. -/
theorem tracked_rows {s t : State} {listing : List Claim} (h : Sound s)
    (hst : step s (.rows listing) = some t) (asCounted : AsCounted s (.rows listing) t) {τ : Nat}
    (there : ∃ c ∈ s.rows, instant c = τ) {n : Nat} (start : s.start = some n)
    (behind : n ≤ rank instant s.rows τ) : Tracked τ t := by
  cases step_sound hst with
  | @rows _ count counted sorted =>
    cases (start_of_counted counted).symm.trans start
    have quiet : hasNext s.number count pageSize = true ∨ listing.length = count := by
      simpa [AsCounted, counted] using asCounted
    refine ⟨there.imp (fun c hc => ⟨List.mem_of_mem_filter hc.1, hc.2⟩), ?_⟩
    have read := on_page_or_behind sorted there (by decide) h.numbered behind quiet
    rcases read with met | ⟨next, beyond⟩
    · exact Or.inl ⟨_, List.mem_append_right _ (List.mem_singleton_self _), met⟩
    · refine Or.inr ⟨_, ?_, Or.inr (congrArg Loading.shown next), beyond.trans ?_⟩
      · exact start_of_next (congrArg Loading.shown next)
      · exact List.filter_sublist.countP_le

theorem tracked_step {s t : State} {a : Action} {τ : Nat} (hs : Sound s) (h : Tracked τ s)
    (hst : step s a = some t) (asCounted : AsCounted s a t) : Tracked τ t := by
  have grown := stamps_step hst
  have there := there_of_stamps grown h.there
  cases step_sound hst with
  | server moved =>
    refine ⟨there, h.met.imp_right (fun ⟨n, ahead⟩ => ⟨n, ahead.start, ahead.unfiltered, ?_⟩)⟩
    exact ahead.behind.trans (rank_le_of_stamps grown τ)
  | count requested valid =>
    refine ⟨there, h.met.imp_right (fun ⟨n, ahead⟩ => ⟨n, ?_, Or.inl ?_, ahead.behind⟩)⟩
    · exact (start_of_requested requested).symm.trans ahead.start
    · exact ahead.unfiltered.resolve_right (ne_shown_of_requested requested _)
  | notFound requested invalid => exact absurd (valid_of_sound hs requested) invalid
  | @rows listing count counted sorted =>
    rcases h.met with ⟨p, hp, met⟩ | ⟨n, ahead⟩
    · exact ⟨there, Or.inl ⟨p, List.mem_append_left _ hp, met⟩⟩
    · have unfiltered : s.status = none :=
        ahead.unfiltered.resolve_right (ne_shown_of_counted counted _)
      have all := rows_eq unfiltered
      exact tracked_rows hs hst asCounted (all ▸ h.there) ahead.start (all ▸ ahead.behind)
  | next shown =>
    refine ⟨there, h.met.imp_right (fun ⟨n, ahead⟩ => ⟨n, ?_, Or.inl rfl, ahead.behind⟩)⟩
    exact (start_of_next shown).symm.trans ahead.start

section
variable {s u : State} {listing : List Claim} {after : List Action}

/-- What was listed when the first page was read is tracked from there on. -/
theorem tracked_run (sound : Sound s) (first : s.number = 1)
    (hu : Runs.run step s (.rows listing :: after) = some u)
    (asCounted : Runs.Steps step AsCounted s (.rows listing :: after)) {claim : Claim}
    (listed : claim ∈ s.rows) : Tracked (instant claim) u := by
  obtain ⟨t, ht, hrest⟩ := Runs.run_cons.mp hu
  obtain ⟨quiet, quietly⟩ := asCounted t ht
  have start : s.start = some 0 := by
    cases step_sound ht with
    | rows counted sorted =>
      rw [start_of_counted counted, first]
      rfl
  have tracked : Tracked (instant claim) t :=
    tracked_rows sound ht quiet ⟨claim, listed, rfl⟩ start (Nat.zero_le _)
  have always := Runs.always_of_steps sound_step (P := Tracked (instant claim))
    (fun _ _ _ hs h hst quiet => tracked_step hs h hst quiet) (sound_step s _ t sound ht)
    tracked quietly
  exact always.last hrest

theorem Tracked.met_of_ended {t : Nat} (h : Tracked t u) (ended : u.loading = .shown false) :
    Met u t := by
  refine h.met.resolve_right (fun ⟨n, ahead⟩ => ?_)
  have start := ahead.start
  rw [State.start, ended] at start
  cases start

/-- A claim is shown where a claim of its instant is, if no other has it. -/
theorem shown_iff_met (sound : Sound u) {claim : Claim}
    (kept : stamp claim ∈ stamps u.server.db)
    (own : ∀ c ∈ u.server.db.claims, instant c = instant claim → c.id = claim.id) :
    (∃ p ∈ u.pages, ∃ c ∈ p, c.id = claim.id) ↔ Met u (instant claim) := by
  have row_of {c : Claim} (hc : stamp c ∈ stamps u.server.db) :
      ∃ row ∈ u.server.db.claims, row.id = c.id ∧ instant row = instant c := by
    obtain ⟨row, hrow, same⟩ := List.mem_map.mp hc
    exact ⟨row, hrow, congrArg Prod.fst same, congrArg Prod.snd same⟩
  constructor
  · rintro ⟨p, hp, c, hc, hid⟩
    obtain ⟨row, hrow, row_id, row_instant⟩ := row_of (sound.shown p hp c hc)
    obtain ⟨row', hrow', row_id', row_instant'⟩ := row_of kept
    have same : row = row' := List.inj_on_of_nodup_map sound.unique hrow hrow'
      (row_id.trans (hid.trans row_id'.symm))
    exact ⟨p, hp, c, hc, row_instant.symm.trans (same ▸ row_instant')⟩
  · rintro ⟨p, hp, c, hc, same⟩
    obtain ⟨row, hrow, row_id, row_instant⟩ := row_of (sound.shown p hp c hc)
    exact ⟨p, hp, c, hc, row_id.symm.trans (own row hrow (row_instant.trans same))⟩

theorem stamp_kept {claim : Claim} (listed : claim ∈ s.rows) {as : List Action}
    (hu : Runs.run step s as = some u) : stamp claim ∈ stamps u.server.db :=
  (stamps_run hu).subset (List.mem_map_of_mem (List.mem_of_mem_filter listed))

/-- However claims are filed and moved meanwhile, no link leads to a page that is not
there. When the walk has ended, and its last page was read as it was counted, every
claim that was listed when the first page was read is on one of the pages, if no other
claim was filed at its instant. -/
theorem walk_shows_listed {status : Option String} {before : List Action}
    (hs : Runs.run step (init status) before = some s) (first : s.number = 1)
    (hu : Runs.run step s (.rows listing :: after) = some u) :
    u.loading ≠ .notFound ∧
      (u.loading = .shown false → Runs.Steps step AsCounted s (.rows listing :: after) →
        ∀ claim ∈ s.rows, (∀ c ∈ u.server.db.claims, instant c = instant claim → c.id = claim.id) →
          ∃ p ∈ u.pages, ∃ c ∈ p, c.id = claim.id) := by
  have sound := sound_step.run (sound_init status) hs
  have soundly := sound_step.run sound hu
  refine ⟨soundly.found, fun ended asCounted claim listed own => ?_⟩
  have tracked := tracked_run sound first hu asCounted listed
  exact (shown_iff_met soundly (stamp_kept listed hu) own).mpr (tracked.met_of_ended ended)

end

/-- The `i`-th claim is filed at the `i`-th minute. -/
def exampleEnvAt (i : Nat) : Env :=
  { ClaimRecords.exampleEnv (10 * i) with now := fun _ => exampleInstant 10 i }

def exampleClaim (i : Nat) : Claim :=
  newClaim (exampleEnvAt i) (Numbering.render "CLM-2025-" (i + 1)) ClaimRecords.exampleData

def exampleFiling (i : Nat) : List Action :=
  ([.call i (.file ClaimRecords.exampleData), .read i (exampleEnvAt i), .check i,
    .commit i (exampleEnvAt i)] : List ClaimService.Action).map .server

def exampleReview : TransitionRequest :=
  { ClaimRecords.exampleRequest .underReview none with pk := ⟨10⟩ }

/-- Twenty-two claims are filed, the second is taken under review, and the FILED ones are
counted for the first page. -/
def exampleCounted : List Action :=
  (List.range 22).flatMap exampleFiling ++
    ([.call 22 (.transition exampleReview), .read 22 (exampleEnvAt 22), .check 22,
      .commit 22 (exampleEnvAt 22)] : List ClaimService.Action).map .server ++ [.count]

/-- The claims numbered from `i` on, newest first. -/
def exampleNewest (i : Nat) : List Claim := ((List.range' i (22 - i)).map exampleClaim).reverse

def exampleReviewed : Claim := (exampleClaim 1).transitioned (exampleInstant 10 22) exampleReview

/-- The FILED claims, and the link to the second page, which lists all. -/
def exampleRead : List Action :=
  [.rows (exampleNewest 2 ++ [exampleClaim 0]), .next, .count,
    .rows (exampleNewest 2 ++ [exampleReviewed, exampleClaim 0])]

theorem exampleRead_ends :
    (Runs.run step (init (some "FILED")) exampleCounted).bind (fun s =>
      (Runs.run step s exampleRead).map (fun u =>
        (s.number, s.rows, u.loading, u.server.db.claims))) =
      some (1, exampleClaim 0 :: (exampleNewest 2).reverse, .shown false,
        exampleClaim 0 :: exampleReviewed :: (exampleNewest 2).reverse) := by
  decide +kernel

theorem exampleRead_asCounted :
    Runs.Steps step AsCounted (init (some "FILED")) (exampleCounted ++ exampleRead) := by
  decide +kernel

/-- The oldest claim is on the second page. -/
theorem exampleRead_shows : ∃ s u, Runs.run step (init (some "FILED")) exampleCounted = some s ∧
    Runs.run step s exampleRead = some u ∧
    ∃ p ∈ u.pages, ∃ c ∈ p, c.id = (exampleClaim 0).id := by
  obtain ⟨s, hs, hread⟩ := Option.bind_eq_some_iff.mp exampleRead_ends
  obtain ⟨u, hu, hends⟩ := Option.map_eq_some_iff.mp hread
  simp only [Prod.mk.injEq] at hends
  obtain ⟨first, rows, ended, claims⟩ := hends
  have asCounted := ((Runs.steps_append hs).mp exampleRead_asCounted).2
  refine ⟨s, u, hs, hu, (walk_shows_listed hs first hu).2 ended asCounted (exampleClaim 0) ?_ ?_⟩
  · rw [rows]
    exact List.mem_cons_self
  · rw [claims]
    decide +kernel

/-! ## The walk without a status -/

/-- The claims have instants of their own, none before `t`. -/
structure Dated (t : Nat) (db : Store) : Prop where
  distinct : (db.claims.map instant).Nodup
  least : ∀ c ∈ db.claims, t ≤ instant c

theorem instants_eq (db : Store) : db.claims.map instant = (stamps db).map Prod.snd := by
  rw [stamps, List.map_map]
  rfl

theorem Dated.of_stamps {db db' : Store} (grown : stamps db <+: stamps db') {t : Nat}
    (h : Dated t db') : Dated t db := by
  have instants : db.claims.map instant <+: db'.claims.map instant := by
    rw [instants_eq, instants_eq]
    exact grown.map Prod.snd
  refine ⟨h.distinct.sublist instants.sublist, fun c hc => ?_⟩
  obtain ⟨c', hc', same⟩ := List.mem_map.mp (instants.subset (List.mem_map_of_mem hc))
  exact same ▸ h.least c' hc'

structure Unfiltered (s : State) : Prop where
  sound : Sound s
  status : s.status = none

theorem unfiltered_step : Runs.Inductive step Unfiltered := by
  intro s a t h hst
  refine ⟨sound_step s a t h.sound hst, ?_⟩
  cases step_sound hst with
  | next shown => rfl
  | _ => exact h.status

/-- The oldest claim is on no page but the last, and not on one with more rows than
were counted. -/
theorem oldest_not_on_page {s : State} (h : Unfiltered s) {t : Nat}
    (dated : Dated t s.server.db) {count : Nat} (counted : s.loading = .counted count)
    {listing : List Claim} (sorted : Sorted instant s.rows listing)
    (other : hasNext s.number count pageSize = true ∨ listing.length ≠ count) :
    ∀ c ∈ page s.number count pageSize listing, instant c ≠ t := by
  rintro c hc rfl
  have listed : listing.length = s.server.db.claims.length :=
    sorted.perm.length_eq.trans (congrArg List.length (rows_eq h.status))
  have within := rank_lt_top sorted hc
  rw [rows_eq h.status] at within
  have all := length_le_rank_succ dated.distinct dated.least
  have grown := h.sound.counted count counted
  rcases other with next | different
  · have less := top_lt_count (by decide) h.sound.numbered next
    omega
  · have most : top s.number count pageSize ≤ count := top_le_count
    omega

/-- The walk is over or has not met the oldest claim. -/
def Open (t : Nat) (s : State) : Prop :=
  Dated t s.server.db → s.loading = .shown false ∨ ¬ Met s t

def Missed (t : Nat) (s : State) : Prop :=
  Dated t s.server.db → s.loading = .shown false ∧ ¬ Met s t

theorem open_step {s t : State} {a : Action} {τ : Nat} (h : Unfiltered s) (hp : Open τ s)
    (hst : step s a = some t) : AsCounted s a t ∧ Open τ t ∨ Missed τ t := by
  have grown := stamps_step hst
  cases step_sound hst with
  | server moved => exact Or.inl ⟨trivial, fun dated => hp (dated.of_stamps grown)⟩
  | count requested valid =>
    refine Or.inl ⟨trivial, fun dated => Or.inr ?_⟩
    exact (hp dated).resolve_left (ne_shown_of_requested requested _)
  | notFound requested invalid => exact absurd (valid_of_sound h.sound requested) invalid
  | next shown =>
    refine Or.inl ⟨trivial, fun dated => Or.inr ?_⟩
    exact (hp dated).resolve_left (fun ended => by cases shown.symm.trans ended)
  | @rows listing count counted sorted =>
    have unmet (dated : Dated τ s.server.db)
        (other : hasNext s.number count pageSize = true ∨ listing.length ≠ count) :
        ¬ Met { s with
          loading := .shown (hasNext s.number count pageSize)
          pages := s.pages ++ [page s.number count pageSize listing] } τ := by
      rintro ⟨p, hp', c, hc, own⟩
      rcases List.mem_append.mp hp' with old | new
      · have before := (hp dated).resolve_left (ne_shown_of_counted counted _)
        exact before ⟨p, old, c, hc, own⟩
      · rw [List.mem_singleton.mp new] at hc
        exact oldest_not_on_page h dated counted sorted other c hc own
    have condition {t} : AsCounted s (.rows listing) t ↔
        (hasNext s.number count pageSize = true ∨ listing.length = count) := by
      simp [AsCounted, counted]
    cases follows : hasNext s.number count pageSize with
    | true =>
      refine Or.inl ⟨condition.mpr (Or.inl follows), fun dated => Or.inr ?_⟩
      exact follows ▸ unmet dated (Or.inl follows)
    | false =>
      by_cases same : listing.length = count
      · exact Or.inl ⟨condition.mpr (Or.inr same), fun _ => Or.inl rfl⟩
      · exact Or.inr (fun dated => ⟨rfl, follows ▸ unmet dated (Or.inr same)⟩)

theorem missed_step {s t : State} {a : Action} {τ : Nat} (h : Missed τ s)
    (hst : step s a = some t) : Missed τ t := by
  intro dated
  obtain ⟨ended, unmet⟩ := h (dated.of_stamps (stamps_step hst))
  cases step_sound hst with
  | server moved => exact ⟨ended, unmet⟩
  | count requested _ | notFound requested _ => cases requested.symm.trans ended
  | rows counted _ => cases counted.symm.trans ended
  | next shown => cases shown.symm.trans ended

/-- A walk without a status that has ended shows every claim that was there when its
first page was read if and only if its last page was read as it was counted, where the
claims have instants of their own and the oldest was there. -/
theorem walk_shows_all_iff_as_counted {before after : List Action} {s u : State}
    {listing : List Claim} (hs : Runs.run step (init none) before = some s) (first : s.number = 1)
    (hu : Runs.run step s (.rows listing :: after) = some u) (ended : u.loading = .shown false)
    (distinct : (u.server.db.claims.map instant).Nodup) {oldest : Claim} (there : oldest ∈ s.rows)
    (least : ∀ c ∈ u.server.db.claims, instant oldest ≤ instant c) :
    (∀ claim ∈ s.rows, ∃ p ∈ u.pages, ∃ c ∈ p, c.id = claim.id) ↔
      Runs.Steps step AsCounted s (.rows listing :: after) := by
  have unfiltered : Unfiltered s := unfiltered_step.run ⟨sound_init none, rfl⟩ hs
  have soundly := sound_step.run unfiltered.sound hu
  have shown_iff : ∀ claim ∈ s.rows,
      ((∃ p ∈ u.pages, ∃ c ∈ p, c.id = claim.id) ↔ Met u (instant claim)) := by
    intro claim listed
    have kept := stamp_kept listed hu
    refine shown_iff_met soundly kept (fun c hc same => ?_)
    obtain ⟨row, hrow, heq⟩ := List.mem_map.mp kept
    have own : c = row := List.inj_on_of_nodup_map distinct hc hrow
      (same.trans (congrArg Prod.snd heq).symm)
    exact own ▸ congrArg Prod.fst heq
  constructor
  · intro all
    have met := (shown_iff oldest there).mp (all oldest there)
    have unread : s.pages = [] := by
      obtain ⟨t, ht, -⟩ := Runs.run_cons.mp hu
      cases step_sound ht with
      | rows counted sorted =>
        exact (unfiltered.sound.unread first).resolve_right
          (fun ⟨next, shown⟩ => ne_shown_of_counted counted next shown)
    have opened : Open (instant oldest) s := fun _ => Or.inr (fun ⟨p, hp, _⟩ => by
      rw [unread] at hp
      cases hp)
    refine Runs.steps_of_not_doomed unfiltered_step (D := Missed (instant oldest))
      (fun _ _ _ hs hp hst => open_step hs hp hst) (fun _ _ _ _ h hst => missed_step h hst)
      unfiltered opened hu ?_
    intro missed
    exact (missed ⟨distinct, least⟩).2 met
  · intro asCounted claim listed
    have tracked := tracked_run unfiltered.sound first hu asCounted listed
    exact (shown_iff claim listed).mpr (tracked.met_of_ended ended)

/-- Twenty-one claims are filed and counted for the first page. -/
def exampleFull : List Action := (List.range 21).flatMap exampleFiling ++ [.count]

/-- The second page is counted, and one more claim is filed before it is read. -/
def exampleOvertaken : List Action :=
  [.rows (exampleNewest 0).tail, .next, .count] ++ exampleFiling 21 ++ [.rows (exampleNewest 0)]

theorem exampleMiss_ends :
    (Runs.run step (init none) exampleFull).bind (fun s =>
      (Runs.run step s exampleOvertaken).map (fun u =>
        (s.number, s.rows, u.loading, u.server.db.claims))) =
      some (1, (exampleNewest 0).tail.reverse, .shown false, (exampleNewest 0).reverse) := by
  decide +kernel

theorem exampleMiss_not_asCounted :
    ¬ Runs.Steps step AsCounted (init none) (exampleFull ++ exampleOvertaken) := by
  decide +kernel

theorem exampleFull_asCounted : Runs.Steps step AsCounted (init none) exampleFull :=
  asCounted_of_unread (by decide +kernel)

/-- A claim that was there is on neither page. -/
theorem exampleMiss_misses : ∃ s u, Runs.run step (init none) exampleFull = some s ∧
    Runs.run step s exampleOvertaken = some u ∧
    ¬ ∀ claim ∈ s.rows, ∃ p ∈ u.pages, ∃ c ∈ p, c.id = claim.id := by
  obtain ⟨s, hs, hread⟩ := Option.bind_eq_some_iff.mp exampleMiss_ends
  obtain ⟨u, hu, hends⟩ := Option.map_eq_some_iff.mp hread
  simp only [Prod.mk.injEq] at hends
  obtain ⟨first, rows, ended, claims⟩ := hends
  have there : exampleClaim 0 ∈ s.rows := by
    rw [rows]
    decide +kernel
  have distinct : (u.server.db.claims.map instant).Nodup := by
    rw [claims]
    decide +kernel
  have least : ∀ c ∈ u.server.db.claims, instant (exampleClaim 0) ≤ instant c := by
    rw [claims]
    decide +kernel
  refine ⟨s, u, hs, hu, fun all => exampleMiss_not_asCounted ?_⟩
  have asCounted := (walk_shows_all_iff_as_counted hs first hu ended distinct there least).mp all
  exact (Runs.steps_append hs).mpr ⟨exampleFull_asCounted, asCounted⟩

end ClaimListing
