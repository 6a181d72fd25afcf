import Secp256k1.Event

/-!
Computations that draw randomness, report events and may fail.

The randomness comes from a source of which nothing is assumed: it may fail, repeat itself or
be known to an adversary. A computation runs on a state that holds the source, the events
reported so far and a store of the caller's choice. What it did to that state stays even if it
fails in the end.
-/

namespace Secp256k1

/-- A source of random bytes and words, with states of type `σ`. -/
class RandomSource (σ : Type) where
  /-- Take `n` bytes; a source may refuse. -/
  bytes (n : Nat) : σ → Option (Vector UInt8 n) × σ
  /-- Take one word. -/
  word : σ → UInt64 × σ

/-- What a computation runs on. -/
structure State (σ ω : Type) where
  source : σ
  /-- The latest event comes first. -/
  events : List Event
  store : ω

/-- A computation with a result of type `α`. -/
abbrev Engine (σ ω α : Type) : Type := ExceptT Error (StateM (State σ ω)) α

namespace Engine

variable {σ ω α β : Type}

/-- The outcome of a computation, and the state after it. -/
def run (x : Engine σ ω α) (s : State σ ω) : Except Error α × State σ ω :=
  StateT.run (ExceptT.run x) s

/-- Report events in the given order. -/
def report (es : List Event) : Engine σ ω Unit :=
  modify fun s => { s with events := es.reverse ++ s.events }

/-- The store. -/
def stored : Engine σ ω ω := return (← get).store

/-- Change the store. -/
def update (f : ω → ω) : Engine σ ω Unit := modify fun s => { s with store := f s.store }

/-- The next word of the source. -/
def drawWord [RandomSource σ] : Engine σ ω UInt64 :=
  modifyGet fun s =>
    let (w, source) := RandomSource.word s.source
    (w, { s with source })

/-- The next `n` bytes of the source, unless it refuses. -/
def drawBytes [RandomSource σ] (n : Nat) : Engine σ ω (Vector UInt8 n) := do
  let drawn ← modifyGet fun s =>
    let (b, source) := RandomSource.bytes n s.source
    (b, { s with source })
  match drawn with
  | some b => return b
  | none => throw (.computationFailed "secure random" "random generator failure")

@[simp] theorem run_pure (a : α) (s : State σ ω) : (pure a : Engine σ ω α).run s = (.ok a, s) := rfl

@[simp] theorem run_throw (e : Error) (s : State σ ω) :
    (throw e : Engine σ ω α).run s = (.error e, s) := rfl

/-- The second computation runs on the state that the first one leaves, unless that failed. -/
theorem run_bind (x : Engine σ ω α) (f : α → Engine σ ω β) (s : State σ ω) :
    (x >>= f).run s =
      match x.run s with
      | (.ok a, t) => (f a).run t
      | (.error e, t) => (.error e, t) := by
  change (match x s with | (r, t) => (ExceptT.bindCont f r) t) = _
  rcases h : x s with ⟨_ | _, t⟩ <;> simp [run, StateT.run, ExceptT.run, h] <;> rfl

theorem run_tryCatch (x : Engine σ ω α) (f : Error → Engine σ ω α) (s : State σ ω) :
    (tryCatch x f).run s =
      match x.run s with
      | (.ok a, t) => (.ok a, t)
      | (.error e, t) => (f e).run t := by
  change (ExceptT.tryCatch x f) s = _
  simp only [ExceptT.tryCatch, ExceptT.mk, bind, StateT.bind]
  rcases h : x s with ⟨_ | _, t⟩
  · simp [run, StateT.run, ExceptT.run, h]
  · simp [run, StateT.run, ExceptT.run, h]
    rfl

@[simp] theorem run_lift (x : Except Error α) (s : State σ ω) :
    (liftM x : Engine σ ω α).run s = (x, s) := rfl

@[simp] theorem run_report (es : List Event) (s : State σ ω) :
    (report es).run s = (.ok (), { s with events := es.reverse ++ s.events }) := rfl

@[simp] theorem run_stored (s : State σ ω) : stored.run s = (.ok s.store, s) := rfl

@[simp] theorem run_update (f : ω → ω) (s : State σ ω) :
    (update f).run s = (.ok (), { s with store := f s.store }) := rfl

theorem run_ok_bind (a : α) (f : α → Engine σ ω β) (s : State σ ω) :
    (liftM (Except.ok a : Except Error α) >>= f).run s = (f a).run s := rfl

theorem run_error_bind (e : Error) (f : α → Engine σ ω β) (s : State σ ω) :
    (liftM (Except.error e : Except Error α) >>= f).run s = (.error e, s) := rfl

theorem run_report_bind (es : List Event) (f : Unit → Engine σ ω α) (s : State σ ω) :
    (report es >>= f).run s = (f ()).run { s with events := es.reverse ++ s.events } := rfl

theorem run_stored_bind (f : ω → Engine σ ω α) (s : State σ ω) :
    (stored >>= f).run s = (f s.store).run s := rfl

theorem run_update_bind (g : ω → ω) (f : Unit → Engine σ ω α) (s : State σ ω) :
    (update g >>= f).run s = (f ()).run { s with store := g s.store } := rfl

@[simp] theorem run_drawWord [RandomSource σ] (s : State σ ω) :
    drawWord.run s =
      (.ok (RandomSource.word s.source).1,
        { s with source := (RandomSource.word s.source).2 }) := rfl

theorem run_drawBytes [RandomSource σ] (n : Nat) (s : State σ ω) :
    (drawBytes n).run s =
      (match (RandomSource.bytes n s.source).1 with
        | some b => .ok b
        | none => .error (.computationFailed "secure random" "random generator failure"),
        { s with source := (RandomSource.bytes n s.source).2 }) := by
  rw [drawBytes, run_bind]
  change (match (RandomSource.bytes n s.source).1 with
    | some b => _
    | none => _ : Engine σ ω _).run _ = _
  cases (RandomSource.bytes n s.source).1 <;> rfl

end Engine

end Secp256k1
