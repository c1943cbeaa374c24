import RiskCore.NotificationConsumer
import RiskCore.Runs

/-!
# Executions of the e-mail task for one notification

`send_email_notification` step by step: look the row up and render, hand the mail
to the SMTP server, save the row, create the log. The worker may die between any
two steps, and with `task_acks_late` the task is then executed again; nothing in
it asks whether it has run before.
-/

namespace EmailTask

open Values NotificationConsumer

inductive NotificationLog.Status where
  | success
  | failure
deriving DecidableEq

structure NotificationLog where
  attempt : Nat
  status : NotificationLog.Status
  errorMessage : String

/-- Where an execution stands: rendered, mailed or refused by the server, and
with the row saved as SENT or FAILED but not yet logged. -/
inductive Phase where
  | idle
  | ready (attempt : Nat)
  | mailed (attempt : Nat)
  | refused (attempt : Nat) (error : String)
  | savedSent (attempt : Nat)
  | savedFailed (attempt : Nat) (error : String)

/-- `mails` counts the mails the server took and `wasSent` records that the row has
been SENT. -/
structure State where
  status : Notification.Status
  sentAt : Option DateTime
  logs : List NotificationLog
  phase : Phase
  mails : Nat
  wasSent : Bool

/-- `retries` is `self.request.retries`, which only the attempt number and the log
lines depend on. -/
inductive Action where
  | start (retries : Nat)
  | mail
  | refuse (error : String)
  | saveSent (now : DateTime)
  | logSuccess
  | saveFailed
  | logFailure
  | die

/-- A notification as the consumer creates it. -/
def init : State := ⟨.pending, none, [], .idle, 0, false⟩

def step (s : State) : Action → Option State
  | .start retries =>
    match s.phase with
    | .idle => some { s with phase := .ready (retries + 1) }
    | _ => none
  | .mail =>
    match s.phase with
    | .ready attempt => some { s with phase := .mailed attempt, mails := s.mails + 1 }
    | _ => none
  | .refuse error =>
    match s.phase with
    | .ready attempt => some { s with phase := .refused attempt error }
    | _ => none
  | .saveSent now =>
    match s.phase with
    | .mailed attempt =>
      some { s with
        status := .sent
        sentAt := some now
        phase := .savedSent attempt
        wasSent := true }
    | _ => none
  | .logSuccess =>
    match s.phase with
    | .savedSent attempt =>
      some { s with logs := s.logs ++ [⟨attempt, .success, ""⟩], phase := .idle }
    | _ => none
  | .saveFailed =>
    match s.phase with
    | .refused attempt error =>
      some { s with status := .failed, phase := .savedFailed attempt error }
    | _ => none
  | .logFailure =>
    -- `self.retry` ends the execution, whether or not it enqueues another
    match s.phase with
    | .savedFailed attempt error =>
      some { s with logs := s.logs ++ [⟨attempt, .failure, error⟩], phase := .idle }
    | _ => none
  | .die =>
    match s.phase with
    | .idle => none
    | _ => some { s with phase := .idle }

/-- What one step can do, action by action. -/
inductive Step (s : State) : Action → State → Prop where
  | start {retries} (idle : s.phase = .idle) :
      Step s (.start retries) { s with phase := .ready (retries + 1) }
  | mail {attempt} (ready : s.phase = .ready attempt) :
      Step s .mail { s with phase := .mailed attempt, mails := s.mails + 1 }
  | refuse {attempt error} (ready : s.phase = .ready attempt) :
      Step s (.refuse error) { s with phase := .refused attempt error }
  | saveSent {attempt now} (mailed : s.phase = .mailed attempt) :
      Step s (.saveSent now)
        { s with status := .sent, sentAt := some now, phase := .savedSent attempt, wasSent := true }
  | logSuccess {attempt} (saved : s.phase = .savedSent attempt) :
      Step s .logSuccess { s with logs := s.logs ++ [⟨attempt, .success, ""⟩], phase := .idle }
  | saveFailed {attempt error} (refused : s.phase = .refused attempt error) :
      Step s .saveFailed { s with status := .failed, phase := .savedFailed attempt error }
  | logFailure {attempt error} (saved : s.phase = .savedFailed attempt error) :
      Step s .logFailure { s with logs := s.logs ++ [⟨attempt, .failure, error⟩], phase := .idle }
  | die (busy : s.phase ≠ .idle) : Step s .die { s with phase := .idle }

theorem step_sound {s t : State} {a : Action} (h : step s a = some t) : Step s a t := by
  cases a with
  | start retries =>
    simp only [step] at h
    split at h
    · rename_i idle
      cases h
      exact .start idle
    · cases h
  | mail =>
    simp only [step] at h
    split at h
    · rename_i attempt ready
      cases h
      exact .mail ready
    · cases h
  | refuse error =>
    simp only [step] at h
    split at h
    · rename_i attempt ready
      cases h
      exact .refuse ready
    · cases h
  | saveSent now =>
    simp only [step] at h
    split at h
    · rename_i attempt mailed
      cases h
      exact .saveSent mailed
    · cases h
  | logSuccess =>
    simp only [step] at h
    split at h
    · rename_i attempt saved
      cases h
      exact .logSuccess saved
    · cases h
  | saveFailed =>
    simp only [step] at h
    split at h
    · rename_i attempt error refused
      cases h
      exact .saveFailed refused
    · cases h
  | logFailure =>
    simp only [step] at h
    split at h
    · rename_i attempt error saved
      cases h
      exact .logFailure saved
    · cases h
  | die =>
    simp only [step] at h
    split at h
    · cases h
    · rename_i busy
      cases h
      exact .die busy

/-! ## What is asked, and when it holds -/

def successes (s : State) : Nat := s.logs.countP (fun log => log.status = .success)

/-- The row says SENT exactly when a success is logged. -/
def Logged (s : State) : Prop := s.status = .sent ↔ 0 < successes s

/-- At most one mail has gone out, a row once SENT is SENT, and just the SENT rows
have a time of sending. -/
structure Once (s : State) : Prop where
  mails : s.mails ≤ 1
  stays : s.wasSent = true → s.status = .sent
  timed : s.status = .sent ↔ s.sentAt ≠ none

/-- Between saving the row and creating its log an execution is about to log. -/
def Logging (s : State) : Prop := ∃ attempt, s.phase = .savedSent attempt

/-- No mail goes out after the first, and no execution saves FAILED over SENT. -/
def FirstMailOnly (s : State) (a : Action) (_ : State) : Prop :=
  match a with
  | .mail => s.mails = 0
  | .saveFailed => s.status ≠ .sent
  | _ => True

/-- No execution gets as far as saving SENT. -/
def NoneSaved (_ : State) (a : Action) (_ : State) : Prop :=
  match a with
  | .saveSent _ => False
  | _ => True

/-- No worker dies between saving SENT and logging it. -/
def NoDeathLogging (s : State) (a : Action) (_ : State) : Prop :=
  match a with
  | .die => ¬ Logging s
  | _ => True

/-- A mail counted as sent has its log, or is on its way to it. -/
def underway : Phase → Nat
  | .mailed _ => 1
  | .savedSent _ => 1
  | _ => 0

/-- What holds in every state, whatever happens. -/
structure Inv (s : State) : Prop where
  counted : successes s + underway s.phase ≤ s.mails
  wasSent : s.status = .sent → s.wasSent = true
  sent : Logging s → s.wasSent = true
  timed : s.wasSent = true ↔ s.sentAt ≠ none

theorem inv_init : Inv init where
  counted := Nat.le_refl 0
  wasSent := by
    intro h
    cases h
  sent := by
    rintro ⟨attempt, h⟩
    cases h
  timed := by decide

theorem not_logging {s : State} {phase : Phase} (h : s.phase = phase)
    (other : ∀ attempt, phase ≠ .savedSent attempt) : ¬ Logging s := by
  rintro ⟨attempt, hphase⟩
  exact other attempt (h.symm.trans hphase)

/-- A step that leaves the row, the logs and the mails alone. -/
theorem Inv.moved {s : State} (hs : Inv s) {phase : Phase} (h : underway phase = 0) :
    Inv { s with phase := phase } where
  counted := by
    have hcounted := hs.counted
    change successes s + underway phase ≤ s.mails
    omega
  wasSent := hs.wasSent
  sent := by
    rintro ⟨attempt, hphase⟩
    have hphase' : phase = .savedSent attempt := hphase
    rw [hphase'] at h
    cases h
  timed := hs.timed

theorem successes_log (s : State) (log : NotificationLog) (phase : Phase) :
    successes { s with logs := s.logs ++ [log], phase := phase } =
      successes s + if log.status = .success then 1 else 0 := by
  simp [successes, List.countP_append, List.countP_singleton]

/-- A log is created after the row is saved, and ends the execution. -/
theorem Inv.logged {s : State} (hs : Inv s) {log : NotificationLog}
    (counted : successes s + (if log.status = .success then 1 else 0) ≤ s.mails) :
    Inv { s with logs := s.logs ++ [log], phase := .idle } where
  counted := by
    rw [successes_log]
    exact counted
  wasSent := hs.wasSent
  sent := by
    rintro ⟨attempt, hidle⟩
    cases hidle
  timed := hs.timed

theorem inv_step : Runs.Inductive step Inv := by
  intro s a t hs h
  have hcounted := hs.counted
  cases step_sound h with
  | start idle => exact hs.moved rfl
  | mail ready =>
    rw [ready] at hcounted
    refine ⟨Nat.succ_le_succ hcounted, hs.wasSent, ?_, hs.timed⟩
    rintro ⟨attempt', hmailed⟩
    cases hmailed
  | refuse ready => exact hs.moved rfl
  | saveSent mailed =>
    rw [mailed] at hcounted
    exact ⟨hcounted, fun _ => rfl, fun _ => rfl, by simp⟩
  | logSuccess saved =>
    rw [saved] at hcounted
    exact hs.logged hcounted
  | saveFailed refused =>
    rw [refused] at hcounted
    refine ⟨hcounted, ?_, ?_, hs.timed⟩
    · intro hfailed
      cases hfailed
    · rintro ⟨attempt', hsaved⟩
      cases hsaved
  | logFailure saved =>
    rw [saved] at hcounted
    exact hs.logged hcounted
  | die busy => exact hs.moved rfl

/-- While an execution is about to log its success, no success is logged yet: its
mail is the only one. -/
theorem successes_zero {s : State} (hs : Inv s) (once : Once s) (h : underway s.phase = 1) :
    successes s = 0 := by
  have hcounted := hs.counted
  have hmails := once.mails
  omega

theorem once_step_iff {s t : State} {a : Action} (hs : Inv s) (once : Once s)
    (h : step s a = some t) : Once t ↔ FirstMailOnly s a t := by
  obtain ⟨hmails, hstays, htimed⟩ := once
  cases step_sound h with
  | mail ready =>
    constructor
    · intro ht
      have hle : s.mails + 1 ≤ 1 := ht.mails
      change s.mails = 0
      omega
    · intro hzero
      have hnone : s.mails = 0 := hzero
      exact ⟨by simp [hnone], hstays, htimed⟩
  | saveFailed refused =>
    constructor
    · intro ht hsent
      cases ht.stays (hs.wasSent hsent)
    · intro hother
      have hunsent : s.status ≠ .sent := hother
      have hnever : ¬ s.wasSent = true := fun hwas => hunsent (hstays hwas)
      have hnone : ¬ s.sentAt ≠ none := fun hat => hunsent (htimed.mpr hat)
      refine ⟨hmails, fun hwas => absurd hwas hnever, ?_⟩
      exact iff_of_false (by simp) hnone
  | saveSent mailed => exact iff_of_true ⟨hmails, fun _ => rfl, by simp⟩ trivial
  | start idle => exact iff_of_true ⟨hmails, hstays, htimed⟩ trivial
  | refuse ready => exact iff_of_true ⟨hmails, hstays, htimed⟩ trivial
  | logSuccess saved => exact iff_of_true ⟨hmails, hstays, htimed⟩ trivial
  | logFailure saved => exact iff_of_true ⟨hmails, hstays, htimed⟩ trivial
  | die busy => exact iff_of_true ⟨hmails, hstays, htimed⟩ trivial

/-! ## The status and the logs -/

/-- Saving FAILED leaves a row without a success and without SENT. -/
theorem logged_unsent {s : State} (h : successes s = 0) (hstatus : s.status ≠ .sent) :
    Logged s := by
  constructor
  · intro hsent
    exact absurd hsent hstatus
  · intro hpos
    omega

theorem not_logged_sent {s : State} (h : successes s = 0) (hstatus : s.status = .sent) :
    ¬ Logged s := by
  intro hlogged
  have hpos := hlogged.mp hstatus
  omega

theorem successes_unsent {s : State} (logged : Logged s) (h : s.status ≠ .sent) :
    successes s = 0 := by
  by_contra hne
  exact h (logged.mpr (by omega))

/-- Judged in every state, the logs agree with the status until an execution saves
SENT: the state it leaves behind has no success logged yet. -/
theorem logged_step_iff {s t : State} {a : Action} (hs : Inv s) (once : Once s)
    (logged : Logged s) (good : FirstMailOnly s a t) (h : step s a = some t) :
    Logged t ↔ NoneSaved s a t := by
  cases step_sound h with
  | saveSent mailed =>
    have hzero : successes s = 0 := successes_zero hs once (by rw [mailed]; rfl)
    exact iff_of_false (not_logged_sent hzero rfl) id
  | logSuccess saved =>
    -- the row is SENT here, so its one success would already be logged
    have hzero : successes s = 0 := successes_zero hs once (by rw [saved]; rfl)
    have hsent : s.status = .sent := once.stays (hs.sent ⟨_, saved⟩)
    exact absurd logged (not_logged_sent hzero hsent)
  | saveFailed refused =>
    have hzero : successes s = 0 := successes_unsent logged good
    exact iff_of_true (logged_unsent hzero nofun) trivial
  | logFailure saved =>
    refine iff_of_true ?_ trivial
    rw [Logged, successes_log]
    exact logged
  | start idle => exact iff_of_true logged trivial
  | mail ready => exact iff_of_true logged trivial
  | refuse ready => exact iff_of_true logged trivial
  | die busy => exact iff_of_true logged trivial

/-- Judged outside the window between the two writes, they agree until a worker
dies in it. -/
theorem logged_outside_step_iff {s t : State} {a : Action} (hs : Inv s) (once : Once s)
    (logged : ¬ Logging s → Logged s) (good : FirstMailOnly s a t) (h : step s a = some t) :
    (¬ Logging t → Logged t) ↔ NoDeathLogging s a t := by
  cases step_sound h with
  | start idle => exact iff_of_true (fun _ => logged (not_logging idle nofun)) trivial
  | mail ready =>
    exact iff_of_true (fun _ => logged (not_logging ready (fun _ => nofun))) trivial
  | refuse ready =>
    exact iff_of_true (fun _ => logged (not_logging ready (fun _ => nofun))) trivial
  | saveSent mailed => exact iff_of_true (fun outside => absurd ⟨_, rfl⟩ outside) trivial
  | logSuccess saved =>
    have hsent : s.status = .sent := once.stays (hs.sent ⟨_, saved⟩)
    refine iff_of_true (fun _ => iff_of_true hsent ?_) trivial
    rw [successes_log]
    exact Nat.succ_pos _
  | saveFailed refused =>
    have hlogged := logged (not_logging refused (fun _ => nofun))
    have hzero : successes s = 0 := successes_unsent hlogged good
    exact iff_of_true (fun _ => logged_unsent hzero nofun) trivial
  | logFailure saved =>
    refine iff_of_true (fun _ => ?_) trivial
    rw [Logged, successes_log]
    exact logged (not_logging saved (fun _ => nofun))
  | die busy =>
    constructor
    · rintro hafter ⟨attempt, saved⟩
      have hzero : successes s = 0 := successes_zero hs once (by rw [saved]; rfl)
      have hsent : s.status = .sent := once.stays (hs.sent ⟨attempt, saved⟩)
      exact not_logged_sent hzero hsent (hafter (not_logging rfl (fun _ => nofun)))
    · intro hnot _
      exact logged hnot

theorem once_init : Once init where
  mails := Nat.zero_le 1
  stays := nofun
  timed := by decide

theorem logged_init : Logged init := logged_unsent rfl nofun

/-- Whatever the executions, what a notification is promised holds in every state
exactly when no mail goes out after the first, FAILED is never saved over SENT and
no execution gets as far as saving SENT; and it holds in every state outside the
window between saving SENT and logging it exactly when, besides, no worker dies
in that window. -/
theorem idempotent_iff (as : List Action) :
    (Runs.Always step (fun s => Once s ∧ Logged s) init as ↔
      Runs.Steps step (fun s a t => FirstMailOnly s a t ∧ NoneSaved s a t) init as) ∧
    (Runs.Always step (fun s => Once s ∧ (¬ Logging s → Logged s)) init as ↔
      Runs.Steps step (fun s a t => FirstMailOnly s a t ∧ NoDeathLogging s a t) init as) := by
  constructor
  · refine Runs.always_iff_steps inv_step ?_ inv_init ⟨once_init, logged_init⟩
    rintro s a t hs ⟨once, logged⟩ h
    rw [once_step_iff hs once h]
    exact and_congr_right (fun good => logged_step_iff hs once logged good h)
  · refine Runs.always_iff_steps inv_step ?_ inv_init ⟨once_init, fun _ => logged_init⟩
    rintro s a t hs ⟨once, logged⟩ h
    rw [once_step_iff hs once h]
    exact and_congr_right (fun good => logged_outside_step_iff hs once logged good h)

/-- The mail goes out, the worker dies before it acknowledges, and the second
execution meets a server that refuses. -/
def redelivered : List Action :=
  [.start 0, .mail, .saveSent (exampleInstant 10 0), .logSuccess,
    .start 0, .refuse "Connection refused", .saveFailed, .logFailure]

theorem redelivered_not_idempotent :
    ¬ Runs.Always step (fun s => Once s ∧ (¬ Logging s → Logged s)) init redelivered := by
  refine Runs.not_always_of_run (f := fun s => some (s.wasSent, s.status)) (b := (true, .failed))
    (by decide) ?_
  rintro s hs ⟨once, -⟩
  obtain ⟨hwas, hstatus⟩ := Prod.mk.inj (Option.some.inj hs)
  cases hstatus.symm.trans (once.stays hwas)

end EmailTask
