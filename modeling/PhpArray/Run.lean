import PhpArray.Failure
import PhpArray.Literal.Scalar

/-!
Runs: a result or a failure, together with what was noted on the way. Notes made before a failure
are kept.
-/

namespace PhpArray

inductive Note where
  /-- A document is asked for. -/
  | loading (path : String)
  /-- A document is put in place of an include. -/
  | including (path : String) (depth : Int)
  /-- The text of a scalar is none of its kind. -/
  | unparsed (value : String) (kind : Literal.Kind)
deriving DecidableEq, Repr

structure Run (α : Type) where
  outcome : Except Failure α
  notes : List Note

namespace Run

variable {α β : Type}

def fail (failure : Failure) : Run α :=
  ⟨.error failure, []⟩

def note (note : Note) : Run Unit :=
  ⟨.ok (), [note]⟩

def ofExcept (outcome : Except Failure α) : Run α :=
  ⟨outcome, []⟩

def bind (r : Run α) (next : α → Run β) : Run β :=
  match r.outcome with
  | .error failure => ⟨.error failure, r.notes⟩
  | .ok a =>
    let rest := next a
    ⟨rest.outcome, r.notes ++ rest.notes⟩

instance : Monad Run where
  pure a := ⟨.ok a, []⟩
  bind := bind

/-- The documents that were asked for, in order. -/
def loads (r : Run α) : List String :=
  r.notes.filterMap fun
    | .loading path => some path
    | _ => none

@[ext] theorem ext_parts {r s : Run α} (houtcome : r.outcome = s.outcome)
    (hnotes : r.notes = s.notes) : r = s := by
  cases r
  cases s
  simp_all

@[simp] theorem outcome_pure (a : α) : (pure a : Run α).outcome = .ok a := rfl

@[simp] theorem notes_pure (a : α) : (pure a : Run α).notes = [] := rfl

@[simp] theorem outcome_fail (failure : Failure) :
    (fail failure : Run α).outcome = .error failure := rfl

@[simp] theorem notes_fail (failure : Failure) : (fail failure : Run α).notes = [] := rfl

/-- A run goes on behind a result, and its notes follow those made before. -/
theorem bind_of_ok {r : Run α} {a : α} (next : α → Run β) (h : r.outcome = .ok a) :
    (r >>= next) = ⟨(next a).outcome, r.notes ++ (next a).notes⟩ := by
  show bind r next = _
  simp [bind, h]

/-- A run stops at a failure and keeps the notes made before. -/
theorem bind_of_error {r : Run α} {failure : Failure} (next : α → Run β)
    (h : r.outcome = .error failure) : (r >>= next) = ⟨.error failure, r.notes⟩ := by
  show bind r next = _
  simp [bind, h]

instance : LawfulMonad Run := by
  refine LawfulMonad.mk' Run ?_ ?_ ?_
  · intro α r
    show bind r (fun a => pure (id a)) = r
    apply ext_parts
    · cases houtcome : r.outcome <;> simp [bind, houtcome, pure]
    · cases houtcome : r.outcome <;> simp [bind, houtcome, pure]
  · intro α β a next
    show bind (pure a) next = next a
    apply ext_parts
    · rfl
    · simp [bind, pure]
  · intro α β γ r next last
    show bind (bind r next) last = bind r fun a => bind (next a) last
    apply ext_parts
    · cases hfirst : r.outcome with
      | error failure => simp [bind, hfirst]
      | ok a => cases hsecond : (next a).outcome <;> simp [bind, hfirst, hsecond]
    · cases hfirst : r.outcome with
      | error failure => simp [bind, hfirst]
      | ok a => cases hsecond : (next a).outcome <;> simp [bind, hfirst, hsecond]

end Run

end PhpArray
