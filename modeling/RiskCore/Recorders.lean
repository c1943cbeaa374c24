import Mathlib.Data.List.Forall2
import RiskCore.Deliveries
import RiskCore.Ledgers

/-!
# Consumers as ledgers

A handler that makes at most one row at a time, of the message in hand and under
a key no row has yet. Fed from a log of messages of emitted entries, it keeps a
ledger of them: whatever is redelivered, lost or cut short, its rows are recorded
entries, each at most once.
-/

namespace Recorders

open Deliveries
open Offsets (Handler Next)

universe u v w x y z
variable {M : Type u} {D : Type v} {P : Type w} {O : Type x} {B : Type y} {E : Type z}
  {K : Type z}

/-- `asks row m` says that the row is what the message asks for. -/
structure Records (h : Handler M D P O) (rows : D → List B) (rowKey : B → K)
    (asks : B → M → Prop) (ready : D → M → P → Prop) : Prop where
  start : ∀ store m, ready store m h.start
  call : ∀ {m p o store store' next}, ready store m p →
    h.next m p o store = some (store', next) →
      (rows store' = rows store ∨ ∃ row, rows store' = rows store ++ [row] ∧ asks row m ∧
        ∀ r ∈ rows store, rowKey r ≠ rowKey row) ∧
      ∀ p', next = .goto p' → ready store' m p'

/-- The message in hand is from the log, and the handler ready for it. -/
def Fed (ready : D → M → P → Prop) (log : List M) (c : State M D P) : Prop :=
  ∀ m p, c.current = some (m, p) → m ∈ log ∧ ready c.store m p

variable {h : Handler M D P O} {rows : D → List B} {rowKey : B → K} {asks : B → M → Prop}
  {ready : D → M → P → Prop} {log : List M}

theorem Fed.grow {log' : List M} {c : State M D P} (hc : Fed ready log c) (grown : log ⊆ log') :
    Fed ready log' c :=
  fun m p hm => ⟨grown (hc m p hm).1, (hc m p hm).2⟩

theorem proceed_store (c : State M D P) (m : M) (store : D) (next : Next P) :
    (c.proceed m store next).store = store := by
  cases next <;> rfl

/-- What one step does to the rows. -/
theorem step_rows (records : Records h rows rowKey asks ready) {c c' : State M D P}
    {f : Feed O} (hc : Fed ready log c) (hst : (feed log f).bind (step h c) = some c') :
    Fed ready log c' ∧ (rows c'.store = rows c.store ∨ ∃ m ∈ log, ∃ row,
      rows c'.store = rows c.store ++ [row] ∧ asks row m ∧
        ∀ r ∈ rows c.store, rowKey r ≠ rowKey row) := by
  obtain ⟨a, ha, hst⟩ := Option.bind_eq_some_iff.mp hst
  cases a with
  | deliver m =>
    simp only [step] at hst
    split at hst
    · cases hst
      refine ⟨?_, Or.inl rfl⟩
      intro m' p' hm'
      cases hm'
      exact ⟨feed_deliver ha, records.start c.store m⟩
    · cases hst
  | call o =>
    simp only [step] at hst
    split at hst
    · cases hst
    · rename_i m p busy
      obtain ⟨⟨store, next⟩, hnext, rfl⟩ := Option.map_eq_some_iff.mp hst
      obtain ⟨hm, hready⟩ := hc m p busy
      obtain ⟨moved, goes⟩ := records.call hready hnext
      constructor
      · intro m' p' hm'
        cases next with
        | goto p =>
          cases hm'
          exact ⟨hm, goes _ rfl⟩
        | commit => cases hm'
        | leave => cases hm'
        | die => cases hm'
      · rw [proceed_store]
        rcases moved with same | ⟨row, grown, hasks, free⟩
        · exact Or.inl same
        · exact Or.inr ⟨m, hm, row, grown, hasks, free⟩
  | crash =>
    cases hst
    refine ⟨?_, Or.inl rfl⟩
    intro m p hm
    cases hm

variable {key : E → K} {message : E → M}

/-- The rows are the recorded entries, one by one. -/
def Kept (asks : B → M → Prop) (message : E → M) (rows : List B) (l : Ledgers.Ledger E) : Prop :=
  List.Forall₂ (fun row e => asks row (message e)) rows l.recorded

theorem keys_eq {es : List E} (named : ∀ row, ∀ e ∈ es, asks row (message e) → key e = rowKey row) :
    ∀ {bs : List B}, List.Forall₂ (fun row e => asks row (message e)) bs es →
      es.map key = bs.map rowKey := by
  induction es with
  | nil =>
    intro bs hkept
    cases hkept
    rfl
  | cons e es ih =>
    intro bs hkept
    cases hkept with
    | @cons row _ _ _ hrow hrest =>
      rw [List.map_cons, List.map_cons, named row e List.mem_cons_self hrow,
        ih (fun row e he => named row e (List.mem_cons_of_mem _ he)) hrest]

/-- A step of the consumer is a step of the ledger, or none. -/
theorem step_records [DecidableEq K] (records : Records h rows rowKey asks ready)
    {c c' : State M D P}
    {f : Feed O} {l : Ledgers.Ledger E} (hc : Fed ready log c)
    (covered : ∀ m ∈ log, ∃ e ∈ l.emitted, message e = m)
    (named : ∀ row, ∀ e ∈ l.emitted, asks row (message e) → key e = rowKey row)
    (sound : Ledgers.Sound key l) (kept : Kept asks message (rows c.store) l)
    (hst : (feed log f).bind (step h c) = some c') :
    ∃ bs l', Runs.run (Ledgers.step key) l bs = some l' ∧ l'.emitted = l.emitted ∧
      Kept asks message (rows c'.store) l' := by
  obtain ⟨-, same | ⟨m, hm, row, grown, hasks, free⟩⟩ := step_rows records hc hst
  · refine ⟨[], l, rfl, rfl, ?_⟩
    rw [same]
    exact kept
  · obtain ⟨e, he, rfl⟩ := covered m hm
    have hkeys := keys_eq (fun row e he => named row e (sound.emitted he)) kept
    have new : key e ∉ l.recorded.map key := by
      rw [hkeys, named row e he hasks]
      intro hin
      obtain ⟨r, hr, hsame⟩ := List.mem_map.mp hin
      exact free r hr hsame
    obtain ⟨i, hi⟩ := Ledgers.record_step he new
    refine ⟨[.record i], _, Runs.run_cons.mpr ⟨_, hi, rfl⟩, rfl, ?_⟩
    rw [grown]
    exact List.rel_append kept (.cons hasks .nil)

end Recorders
