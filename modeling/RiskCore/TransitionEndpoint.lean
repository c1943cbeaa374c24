import RiskCore.ClaimRecords
import RiskCore.Texts

/-!
# POST /transition/

One request to `ClaimViewSet.transition` with nothing else running: the claim is
read, the body goes through `ClaimTransitionSerializer`, and the service moves the
claim. The serializer takes any amount but zero for an approval and asks no notes
of a rejection.
-/

namespace TransitionEndpoint

open Values ClaimService

/-! ## The request -/

/-- `str.isspace`, which is what `strip` takes away. -/
def isSpace (c : Char) : Bool :=
  let n := c.toNat
  (0x9 ≤ n && n ≤ 0xd) || (0x1c ≤ n && n ≤ 0x20) || n = 0x85 || n = 0xa0 || n = 0x1680 ||
    (0x2000 ≤ n && n ≤ 0x200a) || n = 0x2028 || n = 0x2029 || n = 0x202f || n = 0x205f ||
    n = 0x3000

def strip (s : String) : String := String.ofList (Texts.strip isSpace s.toList)

/-- The body; notes and amount may be missing, and the amount may be null. -/
structure Body where
  newStatus : Claim.Status
  notes : Option String
  approvedAmount : Option (Option Amount)

/-- The `CharField` of the notes. -/
def validateNotes : Option String → Except ClaimError String
  | none => .ok ""
  | some data =>
    let value := strip data
    if value = "" then .ok ""
    else if '\x00' ∈ value.toList then
      .error (.validationError "notes" "Null characters are not allowed.")
    else .ok value

/-- `ClaimTransitionSerializer.is_valid`: the fields, then `validate`. -/
def isValid (pk : UUID) (body : Body) : Except ClaimError TransitionRequest := do
  let notes ← validateNotes body.notes
  let req := ⟨pk, ⟨none, none, none⟩, body.newStatus, notes, body.approvedAmount.join⟩
  validateTransition req
  return req

/-- `ClaimViewSet.transition`, without query parameters. -/
def transition (db : Store) (env : Env) (pk : UUID) (body : Body) : Except ClaimError Store := do
  let claim ← getObject db ⟨none, none, none⟩ pk
  let req ← isValid pk body
  checkTransition claim req
  transitionStatus db env claim req

/-- The answer and the tables after it; what raises is rolled back. -/
def respond (db : Store) (env : Env) (pk : UUID) (body : Body) : Except ClaimError Unit × Store :=
  match transition db env pk body with
  | .ok db' => (.ok (), db')
  | .error e => (.error e, db)

/-! ## What is documented -/

/-- The notes given; none are the empty text. -/
def Body.given (body : Body) : String := body.notes.getD ""

/-- The notes as the field reads them. -/
def Body.text (body : Body) : String := strip (body.notes.getD "")

structure Documented (claim : Claim) (body : Body) : Prop where
  edge : body.newStatus ∈ validTransitions claim.status
  amount : body.newStatus = .approved →
    ∃ amount, body.approvedAmount.join = some amount ∧ 0 < amount.cents
  notes : body.newStatus = .rejected → body.text ≠ ""

/-- The claim's row after an accepted request. -/
def moved (body : Body) (updatedAt : DateTime) (claim : Claim) : Claim :=
  { claim with
    status := body.newStatus
    approvedAmount :=
      if body.newStatus = .approved then body.approvedAmount.join else claim.approvedAmount
    updatedAt := updatedAt }

/-- What an accepted request writes, with these notes. -/
structure Written (notes : String) (claim : Claim) (body : Body) (db db' : Store) : Prop where
  claims : ∃ t, db'.claims = Tables.update Claim.id db.claims claim.id (moved body t)
  history : ∃ h, db'.history = db.history ++ [h] ∧ h.claimId = claim.id ∧
    h.fromStatus = some claim.status ∧ h.toStatus = body.newStatus ∧ h.notes = notes
  outbox : db.outbox <+: db'.outbox

/-- The endpoint does what is documented on this request, with these notes. -/
structure Enforced (db : Store) (env : Env) (claim : Claim) (body : Body) (notes : String) :
    Prop where
  accepts : (respond db env claim.id body).1 = .ok () ↔ Documented claim body
  writes : (respond db env claim.id body).1 = .ok () →
    Written notes claim body db (respond db env claim.id body).2
  refuses : (respond db env claim.id body).1 ≠ .ok () → (respond db env claim.id body).2 = db

/-- Where what is checked is what is documented: the change is no edge, or the
notes hold a NUL character and an approval lacks a positive amount, or they hold
none and it is neither an approval of a negative amount nor a rejection without
notes. -/
def ChecksAgree (claim : Claim) (body : Body) : Prop :=
  body.newStatus ∈ validTransitions claim.status →
    if '\x00' ∈ (body.notes.getD "").toList then
      body.newStatus = .approved ∧ ∀ amount ∈ body.approvedAmount.join, amount.cents ≤ 0
    else
      (body.newStatus = .approved → ∀ amount ∈ body.approvedAmount.join, 0 ≤ amount.cents) ∧
        (body.newStatus = .rejected → body.text ≠ "")

/-! ## What is checked -/

theorem mem_strip {c : Char} (hc : isSpace c = false) (s : String) :
    c ∈ (strip s).toList ↔ c ∈ s.toList := by
  rw [strip, String.toList_ofList, Texts.mem_strip hc]

/-- The field refuses notes with a NUL character, and strips the others. -/
theorem validateNotes_eq (body : Body) :
    validateNotes body.notes = if '\x00' ∈ (body.notes.getD "").toList then
      .error (.validationError "notes" "Null characters are not allowed.") else .ok body.text := by
  unfold Body.text
  cases body.notes with
  | none => rfl
  | some data =>
    have hnul : '\x00' ∈ (strip data).toList ↔ '\x00' ∈ data.toList := mem_strip (by decide) data
    simp only [validateNotes, Option.getD_some, hnul]
    by_cases blank : strip data = ""
    · have absent : '\x00' ∉ data.toList := by
        rw [← hnul, blank]
        exact List.not_mem_nil
      rw [if_pos blank, if_neg absent, blank]
    · rw [if_neg blank]

/-- The request the service gets. -/
def request (pk : UUID) (body : Body) : TransitionRequest :=
  ⟨pk, ⟨none, none, none⟩, body.newStatus, body.text, body.approvedAmount.join⟩

theorem validateTransition_ok {req : TransitionRequest} :
    validateTransition req = .ok () ↔ (req.newStatus = .approved →
      ∃ amount, req.approvedAmount = some amount ∧ amount.cents ≠ 0) := by
  obtain ⟨pk, filters, newStatus, notes, approvedAmount⟩ := req
  cases approvedAmount with
  | none => simp [validateTransition]
  | some amount => by_cases zero : amount.cents = 0 <;> simp [validateTransition, zero]

/-- The serializer lets an edge through when the service does. -/
theorem checkTransition_iff {claim : Claim} {req : TransitionRequest}
    (valid : validateTransition req = .ok ()) :
    checkTransition claim req = .ok () ↔ req.newStatus ∈ validTransitions claim.status := by
  refine ⟨fun h => (checkTransition_ok h).1, fun edge => ?_⟩
  have given : ¬ (req.newStatus = .approved ∧ req.approvedAmount = none) := by
    rintro ⟨approval, missing⟩
    obtain ⟨amount, hamount, _⟩ := validateTransition_ok.mp valid approval
    rw [missing] at hamount
    cases hamount
  simp only [checkTransition, if_neg (not_not.mpr edge), if_neg given]

theorem isValid_ok {pk : UUID} {body : Body} {req : TransitionRequest} :
    isValid pk body = .ok req ↔ '\x00' ∉ (body.notes.getD "").toList ∧
      validateTransition (request pk body) = .ok () ∧ req = request pk body := by
  simp only [isValid, Requests.bind_ok, validateNotes_eq]
  by_cases nul : '\x00' ∈ (body.notes.getD "").toList
  · simp [nul]
  · rw [if_neg nul]
    constructor
    · rintro ⟨notes, hnotes, u, hv, hreq⟩
      cases hnotes
      exact ⟨nul, hv, (Except.ok.inj hreq).symm⟩
    · rintro ⟨_, hv, rfl⟩
      exact ⟨body.text, rfl, (), hv, rfl⟩

section
variable {db : Store} {env : Env} {claim : Claim} {body : Body}

theorem getObject_stored (stored : Tables.find Claim.id db.claims claim.id = some claim) :
    getObject db ⟨none, none, none⟩ claim.id = .ok claim := by
  simp [getObject, stored, ClaimFilters.matches, passes]

/-- The tables after the transaction of this claim. -/
def committed (db : Store) (env : Env) (claim : Claim) (body : Body) : Store :=
  let req := request claim.id body
  let row := claim.transitioned (env.now 0) req
  ⟨Tables.update Claim.id db.claims claim.id (fun row => row.transitioned (env.now 0) req),
    db.history ++ [transitionHistory env row claim.status req],
    db.outbox ++ statusChangedEvent env row claim.status req :: resolvedEvents env row req⟩

/-- What both layers check together. -/
def Checked (claim : Claim) (body : Body) : Prop :=
  '\x00' ∉ (body.notes.getD "").toList ∧ body.newStatus ∈ validTransitions claim.status ∧
    (body.newStatus = .approved →
      ∃ amount, body.approvedAmount.join = some amount ∧ amount.cents ≠ 0)

theorem transition_ok (stored : Tables.find Claim.id db.claims claim.id = some claim)
    {db' : Store} : transition db env claim.id body = .ok db' ↔
      Checked claim body ∧ db' = committed db env claim body := by
  have hcommit : transitionStatus db env claim (request claim.id body) =
      .ok (committed db env claim body) := by
    simp only [transitionStatus, stored]
    rfl
  simp only [transition, Requests.bind_ok, getObject_stored stored]
  constructor
  · rintro ⟨read, hread, req, hreq, u, hcheck, hdb⟩
    cases hread
    obtain ⟨nul, hv, rfl⟩ := isValid_ok.mp hreq
    rw [hcommit] at hdb
    exact ⟨⟨nul, (checkTransition_iff hv).mp hcheck, validateTransition_ok.mp hv⟩,
      (Except.ok.inj hdb).symm⟩
  · rintro ⟨⟨nul, edge, amount⟩, rfl⟩
    have hv : validateTransition (request claim.id body) = .ok () :=
      validateTransition_ok.mpr amount
    exact ⟨claim, rfl, _, isValid_ok.mpr ⟨nul, hv, rfl⟩, (), (checkTransition_iff hv).mpr edge,
      hcommit⟩

variable (env) in
theorem respond_checked (stored : Tables.find Claim.id db.claims claim.id = some claim)
    (checked : Checked claim body) :
    respond db env claim.id body = (.ok (), committed db env claim body) := by
  simp only [respond, (transition_ok stored).mpr ⟨checked, rfl⟩]

variable (env) in
theorem respond_unchecked (stored : Tables.find Claim.id db.claims claim.id = some claim)
    (unchecked : ¬ Checked claim body) :
    ∃ e, respond db env claim.id body = (.error e, db) := by
  cases h : transition db env claim.id body with
  | ok db' => exact absurd ((transition_ok stored).mp h).1 unchecked
  | error e => exact ⟨e, by simp only [respond, h]⟩

theorem committed_written (checked : Checked claim body) :
    Written body.text claim body db (committed db env claim body) where
  claims := by
    refine ⟨env.now 0, ?_⟩
    have same : (fun row : Claim => row.transitioned (env.now 0) (request claim.id body)) =
        moved body (env.now 0) := by
      funext row
      simp only [Claim.transitioned, moved, request]
      by_cases approval : body.newStatus = .approved
      · obtain ⟨amount, hamount, _⟩ := checked.2.2 approval
        simp [approval, hamount]
      · simp [approval]
    simp only [committed, same]
  history := ⟨_, rfl, rfl, rfl, rfl, rfl⟩
  outbox := List.prefix_append _ _

/-- The row of the history has the notes as the field read them. -/
theorem committed_written_iff (checked : Checked claim body) {notes : String} :
    Written notes claim body db (committed db env claim body) ↔ body.text = notes := by
  constructor
  · intro h
    obtain ⟨row, hrow, -, -, -, hnotes⟩ := h.history
    have own := List.append_cancel_left hrow
    simp only [List.cons.injEq, and_true] at own
    rw [← hnotes, ← own]
    rfl
  · rintro rfl
    exact committed_written checked

/-- The frame of the endpoint holds on every request; what may fail is whom it
accepts, and whether the notes are stripped. -/
theorem enforced_iff_checked (stored : Tables.find Claim.id db.claims claim.id = some claim)
    {notes : String} : Enforced db env claim body notes ↔
      (Checked claim body ↔ Documented claim body) ∧ (Checked claim body → body.text = notes) := by
  by_cases checked : Checked claim body
  · have hres := respond_checked env stored checked
    constructor
    · intro h
      refine ⟨⟨fun _ => h.accepts.mp (by rw [hres]), fun _ => checked⟩, fun _ => ?_⟩
      have written := h.writes (by rw [hres])
      rw [hres] at written
      exact (committed_written_iff checked).mp written
    · rintro ⟨same, unstripped⟩
      refine ⟨?_, fun _ => ?_, fun refused => ?_⟩
      · rw [hres]
        exact iff_of_true rfl (same.mp checked)
      · rw [hres]
        exact (committed_written_iff checked).mpr (unstripped checked)
      · rw [hres] at refused
        exact absurd rfl refused
  · obtain ⟨e, hres⟩ := respond_unchecked env stored checked
    constructor
    · intro h
      refine ⟨⟨fun hc => absurd hc checked, fun hd => ?_⟩, fun hc => absurd hc checked⟩
      have hok := h.accepts.mpr hd
      rw [hres] at hok
      cases hok
    · rintro ⟨same, -⟩
      refine ⟨?_, fun ok => ?_, fun _ => ?_⟩
      · rw [hres]
        exact iff_of_false (by simp) (fun hd => checked (same.mpr hd))
      · rw [hres] at ok
        cases ok
      · rw [hres]

end

/-- Blank notes hold no NUL character. -/
theorem text_of_nul {body : Body} (nul : '\x00' ∈ (body.notes.getD "").toList) :
    body.text ≠ "" := by
  intro blank
  rw [← mem_strip (by decide), ← Body.text, blank] at nul
  exact absurd nul List.not_mem_nil

theorem checked_iff_documented {claim : Claim} {body : Body} :
    (Checked claim body ↔ Documented claim body) ↔ ChecksAgree claim body := by
  rw [ChecksAgree]
  by_cases edge : body.newStatus ∈ validTransitions claim.status
  · have checked : Checked claim body ↔ '\x00' ∉ (body.notes.getD "").toList ∧
        (body.newStatus = .approved →
          ∃ amount, body.approvedAmount.join = some amount ∧ amount.cents ≠ 0) := by
      simp only [Checked, edge, true_and]
    have documented : Documented claim body ↔ (body.newStatus = .approved →
        ∃ amount, body.approvedAmount.join = some amount ∧ 0 < amount.cents) ∧
          (body.newStatus = .rejected → body.text ≠ "") :=
      ⟨fun h => ⟨h.amount, h.notes⟩, fun h => ⟨edge, h.1, h.2⟩⟩
    rw [checked, documented]
    simp only [edge, forall_const]
    by_cases nul : '\x00' ∈ (body.notes.getD "").toList
    · have noted := text_of_nul nul
      simp only [nul, not_true_eq_false, false_and, false_iff]
      cases body.approvedAmount.join <;> simp [noted]
    · simp only [nul, not_false_eq_true, true_and]
      cases hs : body.newStatus with
      | approved => cases body.approvedAmount.join <;> simp
      | rejected => simp
      | _ => simp
  · refine iff_of_true (iff_of_false ?_ ?_) (fun h => absurd h edge)
    · exact fun checked => edge checked.2.1
    · exact fun documented => edge documented.edge

/-- For every stored claim and every body: the endpoint does what is documented iff what is
checked agrees with it there and, where the request is as documented, stripping leaves the
notes as they were given. With the notes as the field reads them, iff the checks agree. -/
theorem enforced_iff (db : Store) (env : Env) (claim : Claim) (body : Body)
    (stored : Tables.find Claim.id db.claims claim.id = some claim) :
    (Enforced db env claim body body.given ↔
        ChecksAgree claim body ∧ (Documented claim body → body.text = body.given)) ∧
      (Enforced db env claim body body.text ↔ ChecksAgree claim body) := by
  constructor
  · rw [enforced_iff_checked stored, checked_iff_documented]
    refine and_congr_right (fun agree => ?_)
    rw [checked_iff_documented.mpr agree]
  · rw [enforced_iff_checked stored, checked_iff_documented]
    exact and_iff_left (fun _ => rfl)

/-! ## A claim under review -/

open ClaimRecords

def exampleClaim : Claim :=
  { newClaim (exampleEnv 0) "CLM-2025-000001" exampleData with status := .underReview }

def exampleStore : Store := ⟨[exampleClaim], [], []⟩

/-- `{"new_status": "REJECTED", "notes": ...}`, or without the notes. -/
def exampleRejection (notes : Option String) : Body := ⟨.rejected, notes, none⟩

theorem exampleRejection_enforced :
    Enforced exampleStore (exampleEnv 100) exampleClaim (exampleRejection (some "Sin cobertura"))
        "Sin cobertura" ∧
      Enforced exampleStore (exampleEnv 100) exampleClaim
        (exampleRejection (some " Sin cobertura ")) "Sin cobertura" := by
  constructor
  · refine (enforced_iff exampleStore (exampleEnv 100) exampleClaim
      (exampleRejection (some "Sin cobertura")) rfl).1.mpr ⟨?_, fun _ => ?_⟩
    · unfold ChecksAgree
      decide
    · decide
  · refine (enforced_iff exampleStore (exampleEnv 100) exampleClaim
      (exampleRejection (some " Sin cobertura ")) rfl).2.mpr ?_
    unfold ChecksAgree
    decide

/-- A rejection without notes is accepted, and so is an approval of -1.00; blanks around the
notes are lost. -/
theorem exampleRejection_not_enforced :
    ¬ Enforced exampleStore (exampleEnv 100) exampleClaim (exampleRejection none) "" ∧
      ¬ Enforced exampleStore (exampleEnv 100) exampleClaim
        ⟨.approved, some "Aprobado", some (some ⟨-100, by decide⟩)⟩ "Aprobado" ∧
      ¬ Enforced exampleStore (exampleEnv 100) exampleClaim
        (exampleRejection (some " Sin cobertura ")) " Sin cobertura " := by
  refine ⟨?_, ?_, ?_⟩
  · intro h
    exact (h.accepts.mp rfl).notes rfl rfl
  · intro h
    obtain ⟨amount, hamount, positive⟩ := (h.accepts.mp (by decide)).amount rfl
    cases hamount
    exact absurd positive (by decide)
  · intro h
    have written := (enforced_iff_checked (by rfl)).mp h
    have checked : Checked exampleClaim (exampleRejection (some " Sin cobertura ")) :=
      ⟨by decide, by decide, nofun⟩
    exact absurd (written.2 checked) (by decide)

end TransitionEndpoint
