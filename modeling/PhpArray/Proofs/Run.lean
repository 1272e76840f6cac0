import Mathlib.Data.List.Forall2
import PhpArray.Run

/-!
How runs compose: what a run of several steps results in, which documents it asks for, and two ways
in which one run stands for another. The same run may be made at another depth, which changes its
notes and nothing else; and a run that was given more levels extends one that was given fewer.
-/

namespace PhpArray

/-- The note of the same event so many levels deeper. -/
def Note.deeper (levels : Int) : Note → Note
  | .including path depth => .including path (levels + depth)
  | note => note

namespace Run

variable {α β γ : Type}

@[simp] theorem outcome_note (n : Note) : (note n).outcome = .ok () := rfl

@[simp] theorem notes_note (n : Note) : (note n).notes = [n] := rfl

@[simp] theorem outcome_ofExcept (outcome : Except Failure α) :
    (ofExcept outcome).outcome = outcome := rfl

@[simp] theorem notes_ofExcept (outcome : Except Failure α) :
    (ofExcept outcome).notes = [] := rfl

@[simp] theorem ofExcept_ok (a : α) : ofExcept (.ok a) = pure a := rfl

@[simp] theorem ofExcept_error (failure : Failure) :
    (ofExcept (.error failure) : Run α) = fail failure := rfl

/-- A failure ends a run. -/
@[simp] theorem fail_bind (failure : Failure) (next : α → Run β) :
    ((fail failure : Run α) >>= next) = fail failure :=
  bind_of_error next rfl

theorem bind_ok_iff {r : Run α} {next : α → Run β} {b : β} :
    (r >>= next).outcome = .ok b ↔ ∃ a, r.outcome = .ok a ∧ (next a).outcome = .ok b := by
  cases h : r.outcome with
  | error failure => simp [bind_of_error next h]
  | ok a => simp [bind_of_ok next h]

theorem map_ok_iff {r : Run α} {f : α → β} {b : β} :
    (f <$> r).outcome = .ok b ↔ ∃ a, r.outcome = .ok a ∧ f a = b := by
  rw [map_eq_pure_bind, bind_ok_iff]
  simp

theorem outcome_map (f : α → β) (r : Run α) : (f <$> r).outcome = r.outcome.map f := by
  rw [map_eq_pure_bind]
  cases h : r.outcome with
  | error failure => simp [bind_of_error _ h, Except.map]
  | ok a => simp [bind_of_ok _ h, Except.map]

@[simp] theorem notes_map (f : α → β) (r : Run α) : (f <$> r).notes = r.notes := by
  rw [map_eq_pure_bind]
  cases h : r.outcome with
  | error failure => simp [bind_of_error _ h]
  | ok a => simp [bind_of_ok _ h]

@[simp] theorem loads_map (f : α → β) (r : Run α) : (f <$> r).loads = r.loads := by
  simp [loads]

@[simp] theorem map_fail (f : α → β) (failure : Failure) :
    f <$> (fail failure : Run α) = fail failure := by
  rw [map_eq_pure_bind, fail_bind]

/-- Steps over a list succeed together, each with its own result. -/
theorem mapM_ok_iff {f : α → Run β} {as : List α} {bs : List β} :
    (as.mapM f).outcome = .ok bs ↔ List.Forall₂ (fun a b => (f a).outcome = .ok b) as bs := by
  induction as generalizing bs with
  | nil => simp [eq_comm]
  | cons a as ih =>
      simp only [List.mapM_cons, bind_ok_iff, outcome_pure, Except.ok.injEq,
        List.forall₂_cons_left_iff]
      constructor
      · rintro ⟨b, hb, rest, hrest, rfl⟩
        exact ⟨b, rest, hb, ih.1 hrest, rfl⟩
      · rintro ⟨b, rest, hb, hrest, rfl⟩
        exact ⟨b, hb, rest, ih.2 hrest, rfl⟩

/-- Steps over two lists make one run if they are equal one by one. -/
theorem mapM_eq_of_forall₂ {step : α → Run γ} {step' : β → Run γ} {as : List α} {bs : List β}
    (h : List.Forall₂ (fun a b => step' b = step a) as bs) : bs.mapM step' = as.mapM step := by
  induction h with
  | nil => rfl
  | cons hhead _ ih => rw [List.mapM_cons, List.mapM_cons, hhead, ih]

/-- What is done to the result of each step may as well be done to all results at the end. -/
theorem mapM_map_result (f : β → γ) (step : α → Run β) (as : List α) :
    (as.mapM fun a => f <$> step a) = List.map f <$> as.mapM step := by
  induction as with
  | nil => simp
  | cons a as ih => simp [List.mapM_cons, ih, map_bind, bind_map_left]

/-- The same run so many levels deeper. -/
def deeper (levels : Int) (r : Run α) : Run α :=
  ⟨r.outcome, r.notes.map (Note.deeper levels)⟩

@[simp] theorem outcome_deeper (levels : Int) (r : Run α) :
    (r.deeper levels).outcome = r.outcome := rfl

/-- Which documents are asked for does not depend on the depth. -/
@[simp] theorem loads_deeper (levels : Int) (r : Run α) : (r.deeper levels).loads = r.loads := by
  unfold loads deeper
  rw [List.filterMap_map]
  congr 1
  funext note
  cases note <;> rfl

@[simp] theorem deeper_pure (levels : Int) (a : α) : (pure a : Run α).deeper levels = pure a := rfl

@[simp] theorem deeper_fail (levels : Int) (failure : Failure) :
    (fail failure : Run α).deeper levels = fail failure := rfl

@[simp] theorem deeper_note (levels : Int) (n : Note) :
    (note n).deeper levels = note (n.deeper levels) := rfl

@[simp] theorem deeper_ofExcept (levels : Int) (outcome : Except Failure α) :
    (ofExcept outcome).deeper levels = ofExcept outcome := rfl

@[simp] theorem deeper_bind (levels : Int) (r : Run α) (next : α → Run β) :
    (r >>= next).deeper levels = r.deeper levels >>= fun a => (next a).deeper levels := by
  cases h : r.outcome with
  | error failure =>
      have hdeeper : (r.deeper levels).outcome = .error failure := h
      rw [bind_of_error next h, bind_of_error _ hdeeper]
      rfl
  | ok a =>
      have hdeeper : (r.deeper levels).outcome = .ok a := h
      rw [bind_of_ok next h, bind_of_ok _ hdeeper]
      simp [deeper]

@[simp] theorem deeper_map (levels : Int) (f : α → β) (r : Run α) :
    (f <$> r).deeper levels = f <$> r.deeper levels := by
  rw [map_eq_pure_bind, map_eq_pure_bind, deeper_bind]
  rfl

@[simp] theorem deeper_mapM (levels : Int) (step : α → Run β) (as : List α) :
    (as.mapM step).deeper levels = as.mapM fun a => (step a).deeper levels := by
  induction as with
  | nil => simp
  | cons a as ih => simp [List.mapM_cons, ih]

/-- A run that stands for another, which may have run out of levels: if it has not, they are one. -/
def Extends (longer r : Run α) : Prop :=
  r.outcome ≠ .error .nesting → longer = r

theorem Extends.refl (r : Run α) : Extends r r :=
  fun _ => rfl

theorem extends_nesting (longer : Run α) : Extends longer (fail .nesting) :=
  fun h => absurd rfl h

theorem Extends.bind {longer r : Run α} {next' next : α → Run β} (hfirst : Extends longer r)
    (hnext : ∀ a, Extends (next' a) (next a)) : Extends (longer >>= next') (r >>= next) := by
  intro hends
  cases h : r.outcome with
  | error failure =>
      rw [bind_of_error next h] at hends
      have hsame : longer = r := by
        apply hfirst
        intro hnesting
        rw [h] at hnesting
        cases hnesting
        exact hends rfl
      rw [hsame, bind_of_error _ h, bind_of_error _ h]
  | ok a =>
      rw [bind_of_ok next h] at hends
      have hsame : longer = r := hfirst (by simp [h])
      rw [hsame, bind_of_ok _ h, bind_of_ok _ h, hnext a hends]

/-- A run has levels to spare if each of its steps has. -/
theorem bind_ne_nesting {r : Run α} {next : α → Run β} (hfirst : r.outcome ≠ .error .nesting)
    (hnext : ∀ a, r.outcome = .ok a → (next a).outcome ≠ .error .nesting) :
    (r >>= next).outcome ≠ .error .nesting := by
  cases h : r.outcome with
  | error failure =>
      rw [bind_of_error next h]
      intro hnesting
      cases hnesting
      exact hfirst h
  | ok a =>
      rw [bind_of_ok next h]
      exact hnext a h

theorem mapM_ne_nesting {step : α → Run β} {as : List α}
    (h : ∀ a ∈ as, (step a).outcome ≠ .error .nesting) :
    (as.mapM step).outcome ≠ .error .nesting := by
  induction as with
  | nil => simp
  | cons a as ih =>
      rw [List.mapM_cons]
      apply bind_ne_nesting (h a (by simp))
      intro _ _
      exact bind_ne_nesting (ih fun b hb => h b (by simp [hb])) fun _ _ => by simp

/-- A run that ends well and asks for no documents. -/
structure Yields (r : Run α) (a : α) : Prop where
  outcome : r.outcome = .ok a
  loads : r.loads = []

theorem Yields.pure (a : α) : Yields (pure a) a :=
  ⟨rfl, rfl⟩

theorem Yields.bind {r : Run α} {next : α → Run β} {a : α} {b : β} (hfirst : r.Yields a)
    (hnext : (next a).Yields b) : (r >>= next).Yields b := by
  have hbind := bind_of_ok next hfirst.outcome
  refine ⟨by rw [hbind, hnext.outcome], ?_⟩
  have hloads := hfirst.loads
  have hloads' := hnext.loads
  rw [hbind]
  unfold Run.loads at hloads hloads' ⊢
  rw [List.filterMap_append, hloads, hloads', List.append_nil]

theorem Yields.map {r : Run α} {a : α} (f : α → β) (h : r.Yields a) : (f <$> r).Yields (f a) := by
  rw [map_eq_pure_bind]
  exact h.bind (Yields.pure (f a))

theorem Yields.mapM {step : α → Run β} {as : List α} {bs : List β}
    (h : List.Forall₂ (fun a b => (step a).Yields b) as bs) : (as.mapM step).Yields bs := by
  induction h with
  | nil => exact Yields.pure []
  | cons hhead _ ih =>
      rw [List.mapM_cons]
      exact hhead.bind (ih.bind (Yields.pure _))

end Run

end PhpArray
