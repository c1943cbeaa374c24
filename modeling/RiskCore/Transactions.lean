import Mathlib.Logic.Basic

/-!
# Programs with atomic blocks

A program on one database connection, made of statements and nested atomic
blocks. At any of its points an exception may be raised or the process may die.
Leaving a block on an exception restores the state it was entered in; only
leaving the outermost one normally commits. A connection that is lost takes its
uncommitted work with it.

`Follows` gives a program inside a block its meaning as a function on databases,
`Settles` a whole call: whatever happens to it, the database is as before or as
that function leaves it.
-/

namespace Transactions

variable {D E α β : Type}

inductive Fault (E : Type) where
  | raised (e : E)
  | died

/-- `committed` is what other connections see and `working` what this one sees;
`blocks` are the states the open blocks were entered in, innermost first, and
`passed` counts the points passed. -/
structure World (D : Type) where
  committed : D
  working : D
  blocks : List D
  passed : Nat

/-- What goes wrong at which point. -/
abbrev Faults (E : Type) := Nat → Option (Fault E)

def Program (D E α : Type) := Faults E → World D → Except (Fault E) α × World D

instance : Monad (Program D E) where
  pure a := fun _ w => (.ok a, w)
  bind p q := fun faults w =>
    match p faults w with
    | (.ok a, w') => q a faults w'
    | (.error x, w') => (.error x, w')

def World.tick (w : World D) : World D := { w with passed := w.passed + 1 }

def point : Program D E Unit := fun faults w =>
  (match faults w.passed with
    | some x => .error x
    | none => .ok (), w.tick)

/-- A statement takes effect at once outside all blocks. -/
def effect (f : D → Except E (α × D)) : Program D E α := fun _ w =>
  match f w.working with
  | .ok (a, d) =>
    (.ok a, { w with working := d, committed := if w.blocks.isEmpty then d else w.committed })
  | .error e => (.error (.raised e), w)

def statement (f : D → Except E (α × D)) : Program D E α := do
  point
  effect f

def read (f : D → Except E α) : Program D E α :=
  statement (fun d => (f d).map (fun a => (a, d)))

def write (f : D → Except E D) : Program D E Unit :=
  statement (fun d => (f d).map (fun d' => ((), d')))

/-- One statement for each row of a bulk insert. -/
def writes : List (D → Except E D) → Program D E Unit
  | [] => pure ()
  | f :: fs => do
    write f
    writes fs

def World.enter (w : World D) : World D := { w with blocks := w.working :: w.blocks }

/-- The commit, or the release of the savepoint, is a point of its own. -/
def closing (p : Program D E α) : Program D E α := do
  let a ← p
  point
  return a

/-- `with transaction.atomic():` -/
def atomic (p : Program D E α) : Program D E α := fun faults w =>
  match closing p faults w.enter with
  | (.ok a, w') =>
    (.ok a, { w' with
      blocks := w.blocks
      committed := if w.blocks.isEmpty then w'.working else w'.committed })
  | (.error x, w') => (.error x, { w' with working := w.working, blocks := w.blocks })

/-- A call on a fresh connection to `d`. -/
def run (p : Program D E α) (faults : Faults E) (d : D) : Except (Fault E) α × World D :=
  p faults ⟨d, d, [], 0⟩

@[simp] theorem World.enter_committed (w : World D) : w.enter.committed = w.committed := rfl

@[simp] theorem World.enter_working (w : World D) : w.enter.working = w.working := rfl

theorem World.enter_inside (w : World D) : w.enter.blocks ≠ [] := by simp [World.enter]

theorem bind_eq (p : Program D E α) (q : α → Program D E β) (faults : Faults E) (w : World D) :
    (p >>= q) faults w = match p faults w with
      | (.ok a, w') => q a faults w'
      | (.error x, w') => (.error x, w') := rfl

/-! ## Inside a block -/

/-- How a program that runs inside a block ends, next to the function `f`: it
commits nothing and leaves the blocks as they were; where it ends normally it
has done what `f` does, and without faults it does just that. -/
structure Follows (p : Program D E α) (f : D → Except E (α × D)) : Prop where
  committed : ∀ faults w, w.blocks ≠ [] → (p faults w).2.committed = w.committed
  blocks : ∀ faults w, w.blocks ≠ [] → (p faults w).2.blocks = w.blocks
  ends : ∀ faults w a, w.blocks ≠ [] → (p faults w).1 = .ok a →
    f w.working = .ok (a, (p faults w).2.working)
  quiet : ∀ faults w, w.blocks ≠ [] → (∀ n, faults n = none) →
    (p faults w).1 = match f w.working with
      | .ok (a, _) => .ok a
      | .error e => .error (.raised e)

theorem Follows.pure (a : α) : Follows (D := D) (E := E) (pure a) (fun d => .ok (a, d)) where
  committed := fun _ _ _ => rfl
  blocks := fun _ _ _ => rfl
  ends := by
    intro faults w b _ h
    cases h
    rfl
  quiet := fun _ _ _ _ => rfl

theorem Follows.bind {p : Program D E α} {q : α → Program D E β} {f : D → Except E (α × D)}
    {g : α → D → Except E (β × D)} (hp : Follows p f) (hq : ∀ a, Follows (q a) (g a)) :
    Follows (p >>= q) (fun d => (f d).bind (fun r => g r.1 r.2)) := by
  constructor
  · intro faults w inside
    have hcommitted := hp.committed faults w inside
    have hblocks := hp.blocks faults w inside
    rw [bind_eq]
    rcases hrun : p faults w with ⟨r, w'⟩
    rw [hrun] at hcommitted hblocks
    cases r with
    | error x => exact hcommitted
    | ok a =>
      have inside' : w'.blocks ≠ [] := hblocks ▸ inside
      exact ((hq a).committed faults w' inside').trans hcommitted
  · intro faults w inside
    have hblocks := hp.blocks faults w inside
    rw [bind_eq]
    rcases hrun : p faults w with ⟨r, w'⟩
    rw [hrun] at hblocks
    cases r with
    | error x => exact hblocks
    | ok a =>
      have inside' : w'.blocks ≠ [] := hblocks ▸ inside
      exact ((hq a).blocks faults w' inside').trans hblocks
  · intro faults w b inside hend
    have hblocks := hp.blocks faults w inside
    have hends := hp.ends faults w
    rw [bind_eq] at hend ⊢
    rcases hrun : p faults w with ⟨r, w'⟩
    rw [hrun] at hblocks hend hends
    cases r with
    | error x => cases hend
    | ok a =>
      have inside' : w'.blocks ≠ [] := hblocks ▸ inside
      simp only [hends a inside rfl, Except.bind]
      exact (hq a).ends faults w' b inside' hend
  · intro faults w inside quiet
    have hblocks := hp.blocks faults w inside
    have hends := hp.ends faults w
    have hquiet := hp.quiet faults w inside quiet
    rw [bind_eq]
    rcases hrun : p faults w with ⟨r, w'⟩
    rw [hrun] at hblocks hends hquiet
    cases r with
    | error x =>
      cases hf : f w.working with
      | error e =>
        rw [hf] at hquiet
        cases hquiet
        rfl
      | ok r =>
        rw [hf] at hquiet
        cases hquiet
    | ok a =>
      have inside' : w'.blocks ≠ [] := hblocks ▸ inside
      simp only [hends a inside rfl, Except.bind]
      exact (hq a).quiet faults w' inside' quiet

theorem Follows.point : Follows (D := D) (E := E) point (fun d => .ok ((), d)) where
  committed := fun _ _ _ => rfl
  blocks := fun _ _ _ => rfl
  ends := fun _ _ _ _ _ => rfl
  quiet := by
    intro faults w _ quiet
    simp only [Transactions.point, quiet]

theorem Follows.effect (f : D → Except E (α × D)) : Follows (effect f) f := by
  constructor
  · intro faults w inside
    unfold Transactions.effect
    cases hf : f w.working with
    | error e => rfl
    | ok r => simp [inside]
  · intro faults w inside
    unfold Transactions.effect
    cases hf : f w.working <;> rfl
  · intro faults w a inside h
    unfold Transactions.effect at h ⊢
    cases hf : f w.working with
    | error e =>
      simp only [hf] at h
      cases h
    | ok r =>
      simp only [hf] at h
      cases h
      rfl
  · intro faults w inside _
    unfold Transactions.effect
    cases hf : f w.working <;> rfl

theorem Follows.statement (f : D → Except E (α × D)) : Follows (statement f) f :=
  Follows.point.bind (fun _ => Follows.effect f)

theorem Follows.read (f : D → Except E α) :
    Follows (read f) (fun d => (f d).map (fun a => (a, d))) := Follows.statement _

theorem Follows.write (f : D → Except E D) :
    Follows (write f) (fun d => (f d).map (fun d' => ((), d'))) := Follows.statement _

theorem Follows.bind_write {f : D → Except E D} {q : Program D E β} {g : D → Except E (β × D)}
    (hq : Follows q g) :
    Follows (do Transactions.write f; q) (fun d => (f d).bind g) := by
  have h := (Follows.write f).bind (fun _ => hq)
  have heq : (fun d => ((f d).map (fun d' => ((), d'))).bind (fun r => g r.2)) =
      fun d => (f d).bind g := by
    funext d
    cases f d <;> rfl
  exact heq ▸ h

/-- The writes of a list one after the other. -/
def inTurn : List (D → Except E D) → D → Except E D
  | [], d => .ok d
  | f :: fs, d => (f d).bind (inTurn fs)

theorem Follows.writes (fs : List (D → Except E D)) :
    Follows (writes fs) (fun d => (inTurn fs d).map (fun d' => ((), d'))) := by
  induction fs with
  | nil => exact Follows.pure ()
  | cons f fs ih =>
    have h := Follows.bind_write (f := f) ih
    have heq : (fun d => (f d).bind (fun d => (inTurn fs d).map (fun d' => ((), d')))) =
        fun d => (inTurn (f :: fs) d).map (fun d' => ((), d')) := by
      funext d
      simp only [inTurn]
      cases f d <;> rfl
    exact heq ▸ h

theorem Follows.congr {p : Program D E α} {f g : D → Except E (α × D)} (h : Follows p f)
    (same : ∀ d, f d = g d) : Follows p g := by
  have heq : f = g := funext same
  exact heq ▸ h

theorem Follows.closing {p : Program D E α} {f : D → Except E (α × D)} (h : Follows p f) :
    Follows (closing p) f := by
  refine (h.bind (fun a => Follows.point.bind (fun _ => Follows.pure a))).congr ?_
  intro d
  cases f d <;> rfl

theorem Follows.atomic {p : Program D E α} {f : D → Except E (α × D)} (h : Follows p f) :
    Follows (atomic p) f := by
  have hbody := h.closing
  constructor
  · intro faults w inside
    have hcommitted := hbody.committed faults w.enter w.enter_inside
    unfold Transactions.atomic
    rcases hrun : Transactions.closing p faults w.enter with ⟨r, w'⟩
    rw [hrun] at hcommitted
    cases r with
    | error x => exact hcommitted
    | ok a => simpa [inside] using hcommitted
  · intro faults w inside
    unfold Transactions.atomic
    rcases hrun : Transactions.closing p faults w.enter with ⟨r, w'⟩
    cases r <;> rfl
  · intro faults w a inside hend
    have hends := hbody.ends faults w.enter a w.enter_inside
    unfold Transactions.atomic at hend ⊢
    rcases hrun : Transactions.closing p faults w.enter with ⟨r, w'⟩
    rw [hrun] at hends hend
    cases r with
    | error x => cases hend
    | ok b => exact hends hend
  · intro faults w inside quiet
    have hquiet := hbody.quiet faults w.enter w.enter_inside quiet
    unfold Transactions.atomic
    rcases hrun : Transactions.closing p faults w.enter with ⟨r, w'⟩
    rw [hrun] at hquiet
    cases r <;> exact hquiet

/-! ## Whole calls -/

/-- Between calls no block is open and nothing is uncommitted. -/
structure World.Idle (w : World D) : Prop where
  closed : w.blocks = []
  saved : w.working = w.committed

/-- How a call ends, next to the function `f`: the database is as before or as
`f` leaves it, the latter whenever the call returns; without faults it does just
what `f` does. -/
structure Settles (p : Program D E α) (f : D → Except E (α × D)) : Prop where
  idle : ∀ faults w, w.Idle → (p faults w).2.Idle
  either : ∀ faults w, w.Idle → (p faults w).2.committed = w.committed ∨
    ∃ a, f w.committed = .ok (a, (p faults w).2.committed)
  ends : ∀ faults w a, w.Idle → (p faults w).1 = .ok a →
    f w.committed = .ok (a, (p faults w).2.committed)
  quiet : ∀ faults w, w.Idle → (∀ n, faults n = none) →
    (p faults w).1 = match f w.committed with
      | .ok (a, _) => .ok a
      | .error e => .error (.raised e)

theorem Settles.pure (a : α) : Settles (D := D) (E := E) (pure a) (fun d => .ok (a, d)) where
  idle := fun _ _ h => h
  either := fun _ _ _ => Or.inl rfl
  ends := by
    intro faults w b _ h
    cases h
    rfl
  quiet := fun _ _ _ _ => rfl

theorem Settles.congr {p : Program D E α} {f g : D → Except E (α × D)} (h : Settles p f)
    (same : ∀ d, f d = g d) : Settles p g := by
  have heq : f = g := funext same
  exact heq ▸ h

/-- The outermost block is the transaction. -/
theorem Follows.settles {p : Program D E α} {f : D → Except E (α × D)} (h : Follows p f) :
    Settles (Transactions.atomic p) f := by
  have hbody := h.closing
  constructor
  · rintro faults w ⟨hclosed, hsaved⟩
    have hcommitted := hbody.committed faults w.enter w.enter_inside
    unfold Transactions.atomic
    rcases hrun : Transactions.closing p faults w.enter with ⟨r, w'⟩
    rw [hrun] at hcommitted
    cases r with
    | error x => exact ⟨hclosed, hsaved.trans hcommitted.symm⟩
    | ok a => exact ⟨hclosed, by simp [hclosed]⟩
  · rintro faults w ⟨hclosed, hsaved⟩
    have hcommitted := hbody.committed faults w.enter w.enter_inside
    have hends := hbody.ends faults w.enter
    unfold Transactions.atomic
    rcases hrun : Transactions.closing p faults w.enter with ⟨r, w'⟩
    rw [hrun] at hcommitted hends
    cases r with
    | error x => exact Or.inl hcommitted
    | ok a =>
      have hdone := hends a w.enter_inside rfl
      exact Or.inr ⟨a, by simpa [hclosed, hsaved] using hdone⟩
  · rintro faults w a ⟨hclosed, hsaved⟩ hend
    have hends := hbody.ends faults w.enter a w.enter_inside
    unfold Transactions.atomic at hend ⊢
    rcases hrun : Transactions.closing p faults w.enter with ⟨r, w'⟩
    rw [hrun] at hends hend
    cases r with
    | error x => cases hend
    | ok b => simpa [hclosed, hsaved] using hends hend
  · rintro faults w ⟨hclosed, hsaved⟩ quiet
    have hquiet := hbody.quiet faults w.enter w.enter_inside quiet
    unfold Transactions.atomic
    rcases hrun : Transactions.closing p faults w.enter with ⟨r, w'⟩
    rw [hrun] at hquiet
    cases r <;> simpa [hsaved] using hquiet

theorem World.Idle.tick {w : World D} (h : w.Idle) : w.tick.Idle := ⟨h.closed, h.saved⟩

/-- How a read between calls ends: by a fault, on what it found, or well. -/
inductive ReadEnd (f : D → Except E α) (faults : Faults E) (w : World D) :
    Except (Fault E) α → Prop where
  | fault {x} (at_point : faults w.passed = some x) : ReadEnd f faults w (.error x)
  | refused {e} (found : f w.committed = .error e) : ReadEnd f faults w (.error (.raised e))
  | done {a} (found : f w.committed = .ok a) : ReadEnd f faults w (.ok a)

theorem read_idle (f : D → Except E α) (faults : Faults E) {w : World D} (idle : w.Idle) :
    ∃ r, read f faults w = (r, w.tick) ∧ ReadEnd f faults w r := by
  have hrun : read f faults w = match faults w.passed with
      | some x => (.error x, w.tick)
      | none => effect (fun d => (f d).map (fun a => (a, d))) faults w.tick := by
    change (point >>= fun _ => effect _) faults w = _
    rw [bind_eq]
    unfold point
    cases faults w.passed <;> rfl
  have heffect : effect (fun d => (f d).map (fun a => (a, d))) faults w.tick =
      match f w.committed with
      | .ok a => (.ok a, w.tick)
      | .error e => (.error (.raised e), w.tick) := by
    obtain ⟨committed, working, blocks, passed⟩ := w
    obtain ⟨hclosed, hsaved⟩ := idle
    cases hclosed
    cases hsaved
    simp only [effect, World.tick]
    cases f committed <;> rfl
  rw [hrun, heffect]
  cases hfault : faults w.passed with
  | some x => exact ⟨_, rfl, .fault hfault⟩
  | none =>
    cases hf : f w.committed with
    | error e => exact ⟨_, rfl, .refused hf⟩
    | ok a => exact ⟨_, rfl, .done hf⟩

/-- A check that leaves the database alone comes before the transaction. -/
theorem Settles.after_read {p : α → Program D E β} {f : D → Except E α}
    {g : α → D → Except E (β × D)} (h : ∀ a, Settles (p a) (g a)) :
    Settles (Transactions.read f >>= p) (fun d => (f d).bind (fun a => g a d)) := by
  constructor
  · intro faults w idle
    obtain ⟨r, hrun, hr⟩ := read_idle f faults idle
    rw [bind_eq, hrun]
    cases r with
    | error x => exact idle.tick
    | ok a => exact (h a).idle faults w.tick idle.tick
  · intro faults w idle
    obtain ⟨r, hrun, hr⟩ := read_idle f faults idle
    rw [bind_eq, hrun]
    cases hr with
    | fault _ => exact Or.inl rfl
    | refused _ => exact Or.inl rfl
    | done found =>
      simp only [found]
      exact (h _).either faults w.tick idle.tick
  · intro faults w b idle hend
    obtain ⟨r, hrun, hr⟩ := read_idle f faults idle
    rw [bind_eq, hrun] at hend ⊢
    cases hr with
    | fault _ => cases hend
    | refused _ => cases hend
    | done found =>
      simp only [found]
      exact (h _).ends faults w.tick b idle.tick hend
  · intro faults w idle quiet
    obtain ⟨r, hrun, hr⟩ := read_idle f faults idle
    rw [bind_eq, hrun]
    cases hr with
    | fault at_point =>
      rw [quiet] at at_point
      cases at_point
    | refused found => simp only [found, Except.bind]
    | done found =>
      simp only [found]
      exact (h _).quiet faults w.tick idle.tick quiet

/-- What is done after the transaction, on no table, may fail too. -/
theorem Settles.closing {p : Program D E α} {f : D → Except E (α × D)} (h : Settles p f) :
    Settles (closing p) f := by
  have heq : ∀ faults w, Transactions.closing p faults w = match p faults w with
      | (.ok a, w') =>
        (match faults w'.passed with
          | some x => .error x
          | none => .ok a, w'.tick)
      | (.error x, w') => (.error x, w') := by
    intro faults w
    change (p >>= fun a => point >>= fun _ => Pure.pure a) faults w = _
    rw [bind_eq]
    rcases p faults w with ⟨r, w'⟩
    cases r with
    | error x => rfl
    | ok a =>
      simp only [bind_eq, point]
      cases faults w'.passed <;> rfl
  constructor
  · intro faults w idle
    have hidle := h.idle faults w idle
    rw [heq]
    rcases hrun : p faults w with ⟨r, w'⟩
    rw [hrun] at hidle
    cases r with
    | error x => exact hidle
    | ok a => exact hidle.tick
  · intro faults w idle
    have heither := h.either faults w idle
    rw [heq]
    rcases hrun : p faults w with ⟨r, w'⟩
    rw [hrun] at heither
    cases r <;> exact heither
  · intro faults w a idle hend
    have hends := h.ends faults w
    rw [heq] at hend ⊢
    rcases hrun : p faults w with ⟨r, w'⟩
    rw [hrun] at hends hend
    cases r with
    | error x => cases hend
    | ok b =>
      simp only at hend
      cases hfault : faults w'.passed with
      | some x =>
        rw [hfault] at hend
        cases hend
      | none =>
        rw [hfault] at hend
        cases hend
        exact hends a idle rfl
  · intro faults w idle quiet
    have hquiet := h.quiet faults w idle quiet
    rw [heq]
    rcases hrun : p faults w with ⟨r, w'⟩
    rw [hrun] at hquiet
    cases r with
    | error x => exact hquiet
    | ok a =>
      simp only [quiet]
      exact hquiet

end Transactions
