import Mathlib.Data.List.Nodup
import Mathlib.Data.List.Perm.Subperm
import RiskCore.Runs

/-!
# Ledgers

What a journal of events is for: an entry is recorded only when it has been
emitted, and under its key at most once. So the ledger never holds more than was
emitted, and it holds all of it as soon as no key is missing.
-/

namespace Ledgers

universe u v w
variable {E : Type u} {K : Type v} [DecidableEq K]

structure Ledger (E : Type u) where
  emitted : List E
  recorded : List E

/-- `record i` enters the `i`-th emitted entry. -/
inductive Action (E : Type u) where
  | emit (e : E)
  | record (i : Nat)

def Ledger.record (key : E → K) (l : Ledger E) (e : E) : Option (Ledger E) :=
  if key e ∈ l.recorded.map key then none else some { l with recorded := l.recorded ++ [e] }

def step (key : E → K) (l : Ledger E) : Action E → Option (Ledger E)
  | .emit e => some { l with emitted := l.emitted ++ [e] }
  | .record i => (l.emitted[i]?).bind (l.record key)

variable {key : E → K}

theorem emit_run (l : Ledger E) (new : List E) :
    Runs.run (step key) l (new.map .emit) = some { l with emitted := l.emitted ++ new } := by
  induction new generalizing l with
  | nil => simp
  | cons e new ih =>
    refine Runs.run_cons.mpr ⟨_, rfl, (ih _).trans ?_⟩
    simp

theorem record_step {l : Ledger E} {e : E} (emitted : e ∈ l.emitted)
    (new : key e ∉ l.recorded.map key) :
    ∃ i, step key l (.record i) = some { l with recorded := l.recorded ++ [e] } := by
  obtain ⟨i, hi⟩ := List.mem_iff_getElem?.mp emitted
  refine ⟨i, ?_⟩
  simp only [step, hi, Option.bind_some, Ledger.record, if_neg new]

structure Sound (key : E → K) (l : Ledger E) : Prop where
  emitted : l.recorded ⊆ l.emitted
  once : (l.recorded.map key).Nodup

theorem sound : Runs.Inductive (step key) (Sound key) := by
  intro l a l' h hst
  cases a with
  | emit e =>
    cases hst
    exact ⟨fun x hx => List.mem_append_left _ (h.emitted hx), h.once⟩
  | record i =>
    obtain ⟨e, he, hrecord⟩ := Option.bind_eq_some_iff.mp hst
    unfold Ledger.record at hrecord
    split at hrecord
    · cases hrecord
    · rename_i new
      cases hrecord
      constructor
      · refine List.append_subset.mpr ⟨h.emitted, ?_⟩
        exact List.cons_subset.mpr ⟨List.mem_of_getElem? he, List.nil_subset _⟩
      · rw [List.map_append]
        refine List.nodup_append.mpr ⟨h.once, List.nodup_singleton _, ?_⟩
        rintro k hk k' hk' rfl
        rw [List.map_singleton, List.mem_singleton] at hk'
        exact new (hk' ▸ hk)

omit [DecidableEq K] in
theorem sound_empty : Sound key (⟨[], []⟩ : Ledger E) := ⟨List.nil_subset _, List.nodup_nil⟩

omit [DecidableEq K] in
/-- Every entry once at most. -/
theorem Sound.subperm {l : Ledger E} (h : Sound key l) : l.recorded.Subperm l.emitted :=
  (List.Nodup.of_map key h.once).subperm h.emitted

omit [DecidableEq K] in
/-- All of them, when every key is there and none was emitted twice. -/
theorem Sound.perm {l : Ledger E} (h : Sound key l) (distinct : (l.emitted.map key).Nodup)
    (complete : ∀ e ∈ l.emitted, key e ∈ l.recorded.map key) : l.recorded.Perm l.emitted := by
  refine (List.perm_ext_iff_of_nodup (List.Nodup.of_map key h.once)
    (List.Nodup.of_map key distinct)).mpr (fun e => ?_)
  refine ⟨fun he => h.emitted he, fun he => ?_⟩
  obtain ⟨e', he', hkey⟩ := List.mem_map.mp (complete e he)
  rw [← List.inj_on_of_nodup_map distinct (h.emitted he') he hkey]
  exact he'

end Ledgers
