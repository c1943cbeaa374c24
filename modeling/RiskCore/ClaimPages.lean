import RiskCore.ClaimLifecycle
import RiskCore.ClaimPayouts
import RiskCore.TransitionEndpoint

/-!
# Claims moved from the dashboard

The page of a claim offers fewer transitions than claims-service accepts: it never
resolves a rejected claim. Its form outlives a refresh, with the status that was
selected, the notes and the amount, and the claim may have moved since it was
loaded. However many pages are open, and however their requests are interleaved, no
claim is resolved that was never approved.
-/

namespace ClaimPages

open Values ClaimService ClaimRecords
open ClaimPayouts (reached reached_transitioned amount_approving amount_kept)
open TransitionEndpoint (Body isValid)

/-! ## The page and its form -/

/-- `TRANSITIONS`. -/
def transitions : Claim.Status → List Claim.Status
  | .filed => [.underReview]
  | .underReview => [.approved, .rejected]
  | .approved => [.resolved]
  | .rejected => []
  | .resolved => []

/-- The state of `TransitionClaimButton`. `loading` is the request it waits for. -/
structure Form where
  isOpen : Bool
  selectedStatus : Claim.Status
  notes : String
  approvedAmount : String
  loading : Option Nat

/-- The form is there while a transition is offered. -/
structure Page where
  claim : Claim
  form : Option Form

/-- `parses` is `claimSchema.parse`, `decimal` the `DecimalField` of the amount. -/
structure Config where
  parses : Claim → Bool
  decimal : String → Option Amount

/-- What `trim` takes away. -/
def isSpace (c : Char) : Bool :=
  let n := c.toNat
  (0x9 ≤ n && n ≤ 0xd) || n = 0x20 || n = 0xa0 || n = 0x1680 || (0x2000 ≤ n && n ≤ 0x200a) ||
    n = 0x2028 || n = 0x2029 || n = 0x202f || n = 0x205f || n = 0x3000 || n = 0xfeff

def trim (s : String) : String := String.ofList (Texts.strip isSpace s.toList)

/-- The form as it is mounted, or as it was if it is there already. -/
def formOf (nextStatuses : List Claim.Status) (form : Option Form) : Option Form :=
  match nextStatuses with
  | [] => none
  | first :: _ => some (form.getD ⟨false, first, "", "", none⟩)

section
variable (c : Config)

def getClaim (db : Store) (id : UUID) : Option Claim :=
  (getObject db ⟨none, none, none⟩ id).toOption.filter c.parses

/-- `ClaimDetailPage`, over the form that is on the page. -/
def load (db : Store) (id : UUID) (form : Option Form) : Option Page :=
  (getClaim c db id).map (fun claim => ⟨claim, formOf (transitions claim.status) form⟩)

/-- `text.trim() || undefined`. -/
def given (text : String) : Option String :=
  if trim text = "" then none else some (trim text)

/-- What the service reads of the body of `transitionClaim`. -/
def bodyOf (form : Form) : Option Body :=
  match given form.approvedAmount with
  | none => some ⟨form.selectedStatus, given form.notes, none⟩
  | some text => (c.decimal text).map (fun amount =>
      ⟨form.selectedStatus, given form.notes, some (some amount)⟩)

def requestOf (id : UUID) (form : Form) : Option TransitionRequest :=
  (bodyOf c form).bind (fun body => (isValid id body).toOption)

/-! ## Pages and the service -/

inductive Edit where
  | toggle
  | choose (status : Claim.Status)
  | typeNotes (text : String)
  | typeAmount (text : String)

/-- Statuses are chosen among those offered, amounts typed while approving. -/
def Form.edit (nextStatuses : List Claim.Status) (form : Form) : Edit → Option Form
  | .toggle => some { form with isOpen := !form.isOpen }
  | .choose status =>
    if form.isOpen ∧ status ∈ nextStatuses then some { form with selectedStatus := status }
    else none
  | .typeNotes text => if form.isOpen then some { form with notes := text } else none
  | .typeAmount text =>
    if form.isOpen ∧ form.selectedStatus = .approved then
      some { form with approvedAmount := text }
    else none

structure State where
  server : ClaimService.State
  pages : Nat → Option Page

/-- `server` is a step of the service: a filing, or one of a call under way. `lost`
is an answer that does not arrive. -/
inductive Action where
  | server (a : ClaimService.Action)
  | visit (p : Nat) (id : UUID)
  | refresh (p : Nat)
  | edit (p : Nat) (e : Edit)
  | confirm (p : Nat) (n : Nat)
  | answered (p : Nat)
  | lost (p : Nat)

def init : State := ⟨ClaimService.init, fun _ => none⟩

def State.put (s : State) (p : Nat) (page : Option Page) : State :=
  { s with pages := Function.update s.pages p page }

/-- The form of the page, if it has one. -/
def State.form (s : State) (p : Nat) : Option (Claim × Form) :=
  (s.pages p).bind (fun page => page.form.map (fun form => (page.claim, form)))

/-- The form after the answer to its request. -/
def Form.answered (form : Form) (server : ClaimService.State) : Option Form :=
  match form.loading.map server.calls with
  | some (.committed _ _) => some { form with isOpen := false, loading := none }
  | some (.refused _ _) | some (.raised _ _ _) | some (.aborted _) =>
    some { form with loading := none }
  | _ => none

def step (s : State) : Action → Option State
  | .server (.call _ (.transition _)) => none
  | .server a => (ClaimService.step s.server a).map (fun server => { s with server := server })
  | .visit p id => some (s.put p (load c s.server.db id none))
  | .refresh p =>
    (s.pages p).map (fun page => s.put p (load c s.server.db page.claim.id page.form))
  | .edit p e =>
    (s.form p).bind (fun (claim, form) =>
      (form.edit (transitions claim.status) e).map (fun form => s.put p (some ⟨claim, some form⟩)))
  | .confirm p n =>
    (s.form p).bind (fun (claim, form) =>
      if form.isOpen ∧ form.loading = none then
        match requestOf c claim.id form with
        | some req => (ClaimService.step s.server (.call n (.transition req))).map
            (fun server => State.put { s with server := server } p
              (some ⟨claim, some { form with loading := some n }⟩))
        | none => some s
      else none)
  | .answered p =>
    (s.form p).bind (fun (claim, form) =>
      (form.answered s.server).map (fun form => s.put p (some ⟨claim, some form⟩)))
  | .lost p =>
    (s.form p).map (fun (claim, form) =>
      s.put p (some ⟨claim, some { form with loading := none }⟩))

/-- What one step can do, case by case. -/
inductive Step (s : State) : Action → State → Prop where
  | server {a server} (own : ∀ n req, a ≠ .call n (.transition req))
      (moved : ClaimService.step s.server a = some server) :
      Step s (.server a) { s with server := server }
  | visit {p id} : Step s (.visit p id) (s.put p (load c s.server.db id none))
  | refresh {p page} (there : s.pages p = some page) :
      Step s (.refresh p) (s.put p (load c s.server.db page.claim.id page.form))
  | edit {p e claim form new} (there : s.form p = some (claim, form))
      (edited : form.edit (transitions claim.status) e = some new) :
      Step s (.edit p e) (s.put p (some ⟨claim, some new⟩))
  | confirm {p n claim form req server} (there : s.form p = some (claim, form))
      (asked : requestOf c claim.id form = some req)
      (moved : ClaimService.step s.server (.call n (.transition req)) = some server) :
      Step s (.confirm p n)
        (State.put { s with server := server } p
          (some ⟨claim, some { form with loading := some n }⟩))
  | unreadable {p n} : Step s (.confirm p n) s
  | answered {p claim form new} (there : s.form p = some (claim, form))
      (kept : new.selectedStatus = form.selectedStatus) :
      Step s (.answered p) (s.put p (some ⟨claim, some new⟩))
  | lost {p claim form} (there : s.form p = some (claim, form)) :
      Step s (.lost p) (s.put p (some ⟨claim, some { form with loading := none }⟩))

end

variable {c : Config}

theorem answered_keeps {form new : Form} {server : ClaimService.State}
    (h : form.answered server = some new) : new.selectedStatus = form.selectedStatus := by
  unfold Form.answered at h
  split at h <;> cases h <;> rfl

theorem step_sound {s t : State} {a : Action} (h : step c s a = some t) : Step c s a t := by
  cases a with
  | server a =>
    have own : ∀ n req, a ≠ .call n (.transition req) := by
      rintro n req rfl
      cases h
    have moved : (ClaimService.step s.server a).map
        (fun server => ({ s with server := server } : State)) = some t := by
      cases a with
      | call n call =>
        cases call with
        | file data => exact h
        | transition req => exact absurd rfl (own n req)
      | _ => exact h
    obtain ⟨server, hserver, rfl⟩ := Option.map_eq_some_iff.mp moved
    exact .server own hserver
  | visit p id =>
    cases h
    exact .visit
  | refresh p =>
    obtain ⟨page, there, rfl⟩ := Option.map_eq_some_iff.mp h
    exact .refresh there
  | edit p e =>
    obtain ⟨⟨claim, form⟩, there, hrest⟩ := Option.bind_eq_some_iff.mp h
    obtain ⟨new, edited, rfl⟩ := Option.map_eq_some_iff.mp hrest
    exact .edit there edited
  | confirm p n =>
    obtain ⟨⟨claim, form⟩, there, hrest⟩ := Option.bind_eq_some_iff.mp h
    simp only at hrest
    split at hrest
    · split at hrest
      · rename_i req asked
        obtain ⟨server, moved, rfl⟩ := Option.map_eq_some_iff.mp hrest
        exact .confirm there asked moved
      · cases hrest
        exact .unreadable
    · cases hrest
  | answered p =>
    obtain ⟨⟨claim, form⟩, there, hrest⟩ := Option.bind_eq_some_iff.mp h
    obtain ⟨new, hnew, rfl⟩ := Option.map_eq_some_iff.mp hrest
    exact .answered there (answered_keeps hnew)
  | lost p =>
    obtain ⟨⟨claim, form⟩, there, rfl⟩ := Option.map_eq_some_iff.mp h
    exact .lost there

/-! ## What backs a resolution -/

def Approved (db : Store) (id : UUID) : Prop :=
  ∃ r, recordOf db id = some r ∧ reached r .approved

theorem Approved.record {db : Store} {id : UUID} (h : Approved db id) {r : Record}
    (hr : recordOf db id = some r) : reached r .approved := by
  obtain ⟨r', hr', hreached⟩ := h
  cases hr.symm.trans hr'
  exact hreached

/-- The event carries an amount that is not zero. -/
def ReportsAmount (e : Outbox.OutboxEvent) : Prop :=
  ∃ a : Amount, e.data? "approved_amount" = some (.str a.str) ∧ a.cents ≠ 0

structure Paid (r : Record) : Prop where
  current : reached r r.claim.status
  amount : reached r .approved → ∃ a, r.claim.approvedAmount = some a ∧ a.cents ≠ 0
  resolved : reached r .resolved → reached r .approved
  reported : ∀ e ∈ resolvedOf r, ReportsAmount e

theorem paid_filed (env : Env) {claim : Claim} (status : claim.status = .filed) :
    Paid (filedRecord env claim) := by
  have opened : ∀ st, reached (filedRecord env claim) st → st = .filed := by
    rintro st ⟨h, hr, rfl⟩
    rw [List.mem_singleton.mp hr]
    rfl
  constructor
  case current => exact ⟨filedHistory env claim, List.mem_singleton_self _, status.symm⟩
  case amount => exact fun h => absurd (opened _ h) (by decide)
  case resolved => exact fun h => absurd (opened _ h) (by decide)
  case reported =>
    intro e he
    cases he

/-- A transition keeps a record paid, if it resolves only what was approved. -/
theorem paid_transitioned {env : Env} {r : Record} {fromStatus : Claim.Status}
    {req : TransitionRequest} (h : Paid r) (valid : validateTransition req = .ok ())
    (backed : req.newStatus = .resolved → reached r .approved) :
    Paid (r.transitioned env fromStatus req) := by
  have amount : reached (r.transitioned env fromStatus req) .approved →
      ∃ a, (r.transitioned env fromStatus req).claim.approvedAmount = some a ∧ a.cents ≠ 0 := by
    intro hreached
    by_cases approving : req.newStatus = .approved
    · obtain ⟨a, ha, nonzero⟩ := TransitionEndpoint.validateTransition_ok.mp valid approving
      have given : req.approvedAmount ≠ none := ha ▸ Option.some_ne_none a
      exact ⟨a, (amount_approving approving given).trans ha, nonzero⟩
    · rw [amount_kept approving]
      exact h.amount ((reached_transitioned.mp hreached).resolve_right approving)
  constructor
  case current => exact reached_transitioned.mpr (Or.inr rfl)
  case amount => exact amount
  case resolved =>
    intro hreached
    refine reached_transitioned.mpr (Or.inl ?_)
    rcases reached_transitioned.mp hreached with before | resolving
    · exact h.resolved before
    · exact backed resolving
  case reported =>
    intro e he
    rw [resolvedOf_transitioned] at he
    rcases List.mem_append.mp he with he | he
    · exact h.reported e he
    · have resolving : req.newStatus = .resolved := by
        by_contra other
        rw [resolvedEvents, if_neg other] at he
        cases he
      obtain ⟨event, hevent, -, hamount⟩ :=
        resolvedEvents_resolving env (r.claim.transitioned (env.now 0) req) resolving
      obtain ⟨a, ha, nonzero⟩ := amount (reached_transitioned.mpr (Or.inl (backed resolving)))
      have ha : (r.claim.transitioned (env.now 0) req).approvedAmount = some a := ha
      rw [hevent, List.mem_singleton] at he
      refine ⟨a, ?_, nonzero⟩
      rw [he, hamount, ha]
      rfl

theorem approved_commit {db db' : Store} {env : Env} {call : Call} {v : View call}
    (hI : Integrity db) (h : service.commit db env call v = .ok db') {id : UUID}
    (approved : Approved db id) : Approved db' id := by
  obtain ⟨r, hr, hreached⟩ := approved
  cases call with
  | file data =>
    obtain ⟨claim, -, -, -, fresh, records⟩ := fileClaim_records hI h
    have hne : id ≠ claim.id := by
      rintro rfl
      rw [fresh] at hr
      cases hr
    exact ⟨r, by rw [records id, if_neg hne, hr], hreached⟩
  | transition req =>
    obtain ⟨-, records⟩ := transitionStatus_records h
    by_cases hread : id = Claim.id v
    · exact ⟨r.transitioned env (Claim.status v) req, by rw [records id, if_pos hread, hr]; rfl,
        reached_transitioned.mpr (Or.inl hreached)⟩
    · exact ⟨r, by rw [records id, if_neg hread, hr], hreached⟩

theorem paid_commit {db db' : Store} {env : Env} {call : Call} {v : View call}
    (hI : Integrity db) (hK : Known db call v) (hpass : service.check call v = .ok ())
    (h : service.commit db env call v = .ok db')
    (backed : ∀ req, call = .transition req → req.newStatus = .resolved → Approved db req.pk)
    (hR : AllRecords Paid db) : AllRecords Paid db' := by
  cases call with
  | file data => exact allRecords_file hI h (fun claim status _ => paid_filed env status) hR
  | transition req =>
    refine (allRecords_transition h hR).mpr (fun r hr => ?_)
    have hpk : Claim.id v = req.pk := hK.1
    exact paid_transitioned (hR _ r hr) (service_check_transition hpass).1
      (fun resolving => (backed req rfl resolving).record (hpk ▸ hr))

/-- A claim that is approved now has been approved. -/
theorem approved_of_found {db : Store} (hR : AllRecords Paid db) {id : UUID} {claim : Claim}
    (found : Tables.find Claim.id db.claims id = some claim) (status : claim.status = .approved) :
    Approved db id :=
  ⟨_, recordOf_found found, status ▸ (hR id _ (recordOf_found found)).current⟩

/-! ## Pages over runs -/

/-- A page shows approved, and selects resolved, only of a claim that was approved. -/
structure Backed (db : Store) (page : Page) : Prop where
  shown : page.claim.status = .approved → Approved db page.claim.id
  selected : ∀ form, page.form = some form → form.selectedStatus = .resolved →
    Approved db page.claim.id

structure Inv (s : State) : Prop where
  coherent : Requests.Coherent service Integrity Known s.server
  records : AllRecords Paid s.server.db
  calls : ∀ n req, (s.server.calls n).about = some (.transition req) →
    req.newStatus = .resolved → Approved s.server.db req.pk
  pages : ∀ p page, s.pages p = some page → Backed s.server.db page

theorem inv_init : Inv init where
  coherent := coherent_init
  records := by
    intro id r hr
    cases hr
  calls := by
    intro n req h
    cases h
  pages := by
    intro p page h
    cases h

theorem resolved_mem_transitions {status : Claim.Status} :
    .resolved ∈ transitions status ↔ status = .approved := by
  cases status <;> decide

/-- A page as it is loaded, if what its form has selected is backed. -/
theorem backed_load {db : Store} (hR : AllRecords Paid db) {id : UUID} {form : Option Form}
    (before : ∀ f, form = some f → f.selectedStatus = .resolved → Approved db id) {page : Page}
    (h : load c db id form = some page) : Backed db page := by
  obtain ⟨claim, hclaim, rfl⟩ := Option.map_eq_some_iff.mp h
  obtain ⟨hget, -⟩ := Option.filter_eq_some_iff.mp hclaim
  obtain ⟨found, rfl⟩ := getObject_ok (Requests.toOption_some hget)
  have shown : claim.status = .approved → Approved db claim.id := approved_of_found hR found
  refine ⟨shown, fun f hf resolving => ?_⟩
  simp only [formOf] at hf
  split at hf
  · cases hf
  · rename_i first rest offered
    cases form with
    | some old =>
      cases hf
      exact before old rfl resolving
    | none =>
      cases hf
      have first_offered : first ∈ transitions claim.status := offered ▸ List.mem_cons_self
      exact shown (resolved_mem_transitions.mp (resolving ▸ first_offered))

theorem Inv.put {s : State} (h : Inv s) {p : Nat} {page : Option Page}
    (backed : ∀ new, page = some new → Backed s.server.db new) : Inv (s.put p page) := by
  refine ⟨h.coherent, h.records, h.calls, fun q old hq => ?_⟩
  by_cases hne : q = p
  · subst hne
    exact backed old (by simpa [State.put] using hq)
  · exact h.pages q old (by simpa [State.put, hne] using hq)

/-- The page of a form is backed. -/
theorem Inv.form {s : State} (h : Inv s) {p : Nat} {claim : Claim} {form : Form}
    (there : s.form p = some (claim, form)) : Backed s.server.db ⟨claim, some form⟩ := by
  obtain ⟨page, hpage, hrest⟩ := Option.bind_eq_some_iff.mp there
  obtain ⟨f, hf, heq⟩ := Option.map_eq_some_iff.mp hrest
  cases heq
  obtain ⟨claim, _⟩ := page
  cases hf
  exact h.pages p _ hpage

/-- Another form on the page, with what it has selected backed. -/
theorem Inv.put_form {s : State} (h : Inv s) {p : Nat} {claim : Claim} {form new : Form}
    (there : s.form p = some (claim, form))
    (selected : new.selectedStatus = .resolved → Approved s.server.db claim.id) :
    Inv (s.put p (some ⟨claim, some new⟩)) := by
  refine h.put (fun page hpage => ?_)
  cases hpage
  refine ⟨(h.form there).shown, fun f hf resolving => ?_⟩
  cases hf
  exact selected resolving

/-- A step of the service, if it starts no resolution that is not backed. -/
theorem Inv.serve {s : State} (h : Inv s) {a : ClaimService.Action} {server : ClaimService.State}
    (moved : ClaimService.step s.server a = some server)
    (backed : ∀ n req, a = .call n (.transition req) → req.newStatus = .resolved →
      Approved s.server.db req.pk) : Inv { s with server := server } := by
  have kept : AllRecords Paid server.db ∧
      ∀ id, Approved s.server.db id → Approved server.db id := by
    rcases Requests.step_db moved with ⟨same, -⟩ | ⟨n, env, call, v, rfl, at_n, hc, -⟩
    · rw [same]
      exact ⟨h.records, fun _ approved => approved⟩
    · refine ⟨paid_commit h.coherent.db (h.coherent.views n call v (Or.inr (Or.inl at_n)))
        (h.coherent.passed n call v (Or.inl at_n)) hc ?_ h.records,
        fun _ => approved_commit h.coherent.db hc⟩
      rintro req rfl
      exact h.calls n req (by rw [at_n]; rfl)
  refine ⟨ClaimRecords.coherent _ _ _ h.coherent moved, kept.1, fun n req about resolving => ?_,
    fun p page hpage => ?_⟩
  · rcases Requests.step_about moved about with before | asked
    · exact kept.2 _ (h.calls n req before resolving)
    · exact kept.2 _ (backed n req asked resolving)
  · have old := h.pages p page hpage
    exact ⟨fun status => kept.2 _ (old.shown status),
      fun f hf resolving => kept.2 _ (old.selected f hf resolving)⟩

theorem requestOf_some {id : UUID} {form : Form} {req : TransitionRequest}
    (h : requestOf c id form = some req) :
    req.pk = id ∧ req.newStatus = form.selectedStatus := by
  obtain ⟨body, hbody, hvalid⟩ := Option.bind_eq_some_iff.mp h
  obtain ⟨-, -, rfl⟩ := TransitionEndpoint.isValid_ok.mp (Requests.toOption_some hvalid)
  refine ⟨rfl, ?_⟩
  simp only [bodyOf] at hbody
  split at hbody
  · cases hbody
    rfl
  · obtain ⟨amount, -, rfl⟩ := Option.map_eq_some_iff.mp hbody
    rfl

/-- An edit selects what is offered, or leaves the selection. -/
theorem edit_selects {next : List Claim.Status} {form new : Form} {e : Edit}
    (h : form.edit next e = some new) :
    new.selectedStatus ∈ next ∨ new.selectedStatus = form.selectedStatus := by
  cases e with
  | toggle =>
    cases h
    exact Or.inr rfl
  | choose status =>
    obtain ⟨⟨-, offered⟩, heq⟩ := Option.ite_none_right_eq_some.mp h
    cases heq
    exact Or.inl offered
  | typeNotes text =>
    obtain ⟨-, heq⟩ := Option.ite_none_right_eq_some.mp h
    cases heq
    exact Or.inr rfl
  | typeAmount text =>
    obtain ⟨-, heq⟩ := Option.ite_none_right_eq_some.mp h
    cases heq
    exact Or.inr rfl

theorem inv_step : Runs.Inductive (step c) Inv := by
  intro s a t h hst
  cases step_sound hst with
  | server own moved => exact h.serve moved (fun n req asked => absurd asked (own n req))
  | visit =>
    refine h.put (fun page hpage => backed_load h.records ?_ hpage)
    intro f hf
    cases hf
  | refresh there =>
    exact h.put (fun new hnew => backed_load h.records (h.pages _ _ there).selected hnew)
  | @edit p e claim form new there edited =>
    refine h.put_form there (fun resolving => ?_)
    rcases edit_selects edited with offered | same
    · exact (h.form there).shown (resolved_mem_transitions.mp (resolving ▸ offered))
    · exact (h.form there).selected form rfl (same ▸ resolving)
  | @confirm p n claim form req server there asked moved =>
    obtain ⟨hpk, hstatus⟩ := requestOf_some asked
    have selected := (h.form there).selected form rfl
    have served : Inv { s with server := server } := by
      refine h.serve moved (fun m req' same resolving => ?_)
      cases same
      exact hpk ▸ selected (hstatus ▸ resolving)
    have backed : Backed server.db ⟨claim, some form⟩ := served.form (p := p) there
    exact served.put_form (p := p) there (fun resolving => backed.selected form rfl resolving)
  | unreadable => exact h
  | answered there kept =>
    exact h.put_form there (fun resolving => (h.form there).selected _ rfl (kept ▸ resolving))
  | lost there => exact h.put_form there (fun resolving => (h.form there).selected _ rfl resolving)

/-- In every run in which the transitions come from pages of the dashboard, whatever
the pages show and however requests and filings are interleaved: a claim that is or
was resolved has been approved, with an amount that is not zero, and its
`claim.resolved` events carry such an amount. -/
theorem resolved_only_if_approved (as : List Action) (s : State)
    (hrun : Runs.run (step c) init as = some s) :
    AllRecords (fun r => (r.claim.status = .resolved ∨ reached r .resolved →
        reached r .approved ∧ ∃ a, r.claim.approvedAmount = some a ∧ a.cents ≠ 0) ∧
      ∀ e ∈ resolvedOf r, ReportsAmount e) s.server.db := by
  intro id r hr
  have paid := (inv_step.run inv_init hrun).records id r hr
  refine ⟨fun resolved => ?_, paid.reported⟩
  have reached_resolved : reached r .resolved := by
    rcases resolved with status | before
    · exact status ▸ paid.current
    · exact before
  exact ⟨paid.resolved reached_resolved, paid.amount (paid.resolved reached_resolved)⟩

def exampleConfig : Config :=
  ⟨fun _ => true, fun text => if text = "500.00" then some ClaimPayouts.exampleAmount else none⟩

/-- The request of the form on page 0, served as call `n`, its answer, and the refresh. -/
def exampleConfirm (n : Nat) : List Action :=
  [.confirm 0 n, .server (.read n (exampleEnv 0))] ++ (exampleCommit n).map .server ++
    [.answered 0, .refresh 0, .edit 0 .toggle]

/-- One page takes a claim from its filing to its approval; opened again, it resolves it. -/
def exampleRun : List Action :=
  exampleFiling.map .server ++ [.visit 0 ⟨0⟩, .edit 0 .toggle] ++ exampleConfirm 1 ++
    [.edit 0 (.choose .approved), .edit 0 (.typeAmount "500.00")] ++ exampleConfirm 2 ++
    [.visit 0 ⟨0⟩, .edit 0 .toggle, .confirm 0 3, .server (.read 3 (exampleEnv 0))] ++
    (exampleCommit 3).map .server

theorem exampleRun_resolves :
    (Runs.run (step exampleConfig) init exampleRun).map (fun s =>
      (recordOf s.server.db ⟨0⟩).map (fun r => (r.claim.status, (resolvedOf r).length))) =
      some (some (.resolved, 1)) := by
  decide +kernel

theorem exampleRun_approved : ∃ s r, Runs.run (step exampleConfig) init exampleRun = some s ∧
    recordOf s.server.db ⟨0⟩ = some r ∧ r.claim.status = .resolved ∧ reached r .approved ∧
      (resolvedOf r).length = 1 ∧ ∀ e ∈ resolvedOf r, ReportsAmount e := by
  obtain ⟨s, hs, hrest⟩ := Option.map_eq_some_iff.mp exampleRun_resolves
  obtain ⟨r, hr, hends⟩ := Option.map_eq_some_iff.mp hrest
  obtain ⟨status, once⟩ := Prod.mk.inj hends
  obtain ⟨approved, reported⟩ := resolved_only_if_approved exampleRun s hs ⟨0⟩ r hr
  exact ⟨s, r, hs, hr, status, (approved (Or.inl status)).1, once, reported⟩

/-! ## The walk the dashboard offers -/

def Offered (a b : Claim.Status) : Prop := b ∈ transitions a

def FollowsOffered (r : Record) : Prop :=
  Walks.IsWalk Offered .filed (changes r) r.claim.status

/-- At a commit the claim still has the status the request read. -/
def StatusAsRead (s : State) (a : Action) (t : State) : Prop :=
  match a with
  | .server a =>
    Requests.OnCommit service (OnTransition ClaimLifecycle.StatusAsRead) s.server a t.server
  | _ => True

theorem valid_offered {a b : Claim.Status} (h : b ∈ validTransitions a)
    (other : a ≠ .rejected) : Offered a b := by
  revert h
  cases a <;> cases b <;> simp_all [Offered, transitions, validTransitions]

/-- A walk that has been approved does not end rejected. -/
theorem not_rejected {r : Record} (h : FollowsOffered r) (approved : reached r .approved) :
    r.claim.status ≠ .rejected := by
  obtain ⟨row, hrow, harrived⟩ := approved
  have stays : r.claim.status = .approved ∨ r.claim.status = .resolved := by
    refine h.stays (C := fun status => status = .approved ∨ status = .resolved) ?_
      (List.mem_map_of_mem hrow) (Or.inl harrived)
    rintro a b hedge (rfl | rfl)
    · exact Or.inr (List.mem_singleton.mp hedge)
    · cases hedge
  rcases stays with status | status <;> rw [status] <;> decide

theorem filed_follows {env : Env} {claim : Claim} (status : claim.status = .filed) :
    FollowsOffered (filedRecord env claim) := by
  have hstatus : (filedRecord env claim).claim.status = .filed := status
  rw [FollowsOffered, changes_filed, hstatus]
  exact Walks.isWalk_start

/-- A transition of the dashboard continues the walk iff it commits as read. -/
theorem transitioned_follows_iff {env : Env} {r : Record} {read : Claim}
    {req : TransitionRequest} (h : FollowsOffered r) (hcheck : checkTransition read req = .ok ())
    (backed : req.newStatus = .resolved → reached r .approved) :
    FollowsOffered (r.transitioned env read.status req) ↔
      ClaimLifecycle.StatusAsRead r read req := by
  have edge := (checkTransition_ok hcheck).1
  rw [FollowsOffered, changes_transitioned]
  constructor
  · intro hw
    exact (Option.some.inj ((h.snoc_iff _ _).mp hw).1).symm
  · intro fresh
    refine (h.snoc_iff _ _).mpr ⟨by rw [fresh], ?_⟩
    rw [fresh]
    refine valid_offered edge (fun rejected => ?_)
    rw [rejected] at edge
    exact not_rejected h (backed (List.mem_singleton.mp edge)) (fresh.trans rejected)

theorem follows_step {s t : State} {a : Action} (h : Inv s)
    (hp : AllRecords FollowsOffered s.server.db) (hst : step c s a = some t) :
    AllRecords FollowsOffered t.server.db ↔ StatusAsRead s a t := by
  cases step_sound hst with
  | @server a server own moved =>
    rcases Requests.step_db moved with ⟨same, quiet⟩ | ⟨n, env, call, v, rfl, at_n, hc, -⟩
    · exact iff_of_true (same ▸ hp) (quiet _)
    · have condition : StatusAsRead s (.server (.commit n env)) { s with server := server } ↔
          OnTransition ClaimLifecycle.StatusAsRead s.server.db call v server.db :=
        Requests.onCommit_iff (t := server) at_n hc
      rw [condition]
      cases call with
      | file data =>
        exact iff_of_true
          (allRecords_file h.coherent.db hc (fun claim status _ => filed_follows status) hp) trivial
      | transition req =>
        have hpass := h.coherent.passed n (.transition req) v (Or.inl at_n)
        have hpk : Claim.id v = req.pk :=
          (h.coherent.views n (.transition req) v (Or.inr (Or.inl at_n))).1
        refine (allRecords_transition hc hp).trans (forall₂_congr (fun r hr => ?_))
        exact transitioned_follows_iff (hp _ r hr) (service_check_transition hpass).2
          (fun resolving => (h.calls n req (by rw [at_n]; rfl) resolving).record (hpk ▸ hr))
  | @confirm p n claim form req server there asked moved =>
    have same : server.db = s.server.db := by
      rcases Requests.step_db moved with ⟨same, -⟩ | ⟨_, _, _, _, heq, -⟩
      · exact same
      · cases heq
    exact iff_of_true (same ▸ hp) trivial
  | _ => exact iff_of_true hp trivial

/-- In a run in which the transitions come from pages of the dashboard, every claim's
history is a walk of the transitions the dashboard offers, in every state, if and only
if each transition commits against the status it read. -/
theorem walks_offered_iff_status_as_read (as : List Action) :
    Runs.Always (step c) (fun s => AllRecords FollowsOffered s.server.db) init as ↔
      Runs.Steps (step c) StatusAsRead init as := by
  refine Runs.always_iff_steps inv_step (fun s a t h hp hst => follows_step h hp hst) inv_init ?_
  intro id r hr
  cases hr

end ClaimPages
