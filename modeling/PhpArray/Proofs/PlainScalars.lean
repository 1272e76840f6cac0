import Mathlib.Tactic.SplitIfs
import PhpArray.Yaml.Builder
import PhpArray.Yaml.Lexer

/-!
The texts of plain scalars. Blanks and line ends are taken into a plain scalar only when more text
follows, so its text does not end in one. The tag of a plain scalar is therefore that of the whole
text: there is no line feed at its end that would not count.
-/

namespace PhpArray.Yaml

namespace Scan

variable {α β σ : Type} {start behind : Cursor}

theorem run_bind_ok_iff {reading : Scan α} {next : α → Scan β} {b : β} :
    (reading >>= next).run start = .ok (b, behind) ↔
      ∃ a middle, reading.run start = .ok (a, middle) ∧ (next a).run middle = .ok (b, behind) := by
  rw [StateT.run_bind]
  cases hreading : reading.run start with
  | error fault => simp [Bind.bind, Except.bind]
  | ok result =>
      constructor
      · exact fun h => ⟨result.1, result.2, rfl, h⟩
      · rintro ⟨a, middle, hresult, h⟩
        obtain rfl := Except.ok.inj hresult
        exact h

theorem run_pure_ok_iff {a b : α} :
    (pure a : Scan α).run start = .ok (b, behind) ↔ a = b ∧ start = behind := by
  rw [StateT.run_pure]
  exact ⟨fun h => Prod.mk.inj (Except.ok.inj h), fun h => by rw [h.1, h.2]; rfl⟩

/-- What every turn of a loop keeps holds when the loop is done. -/
theorem turn_invariant {body : σ → Scan (ForInStep σ)} (Inv : σ → Prop)
    (hbody : ∀ s start next behind, Inv s → (body s).run start = .ok (next, behind) →
      Inv next.value)
    {n : Nat} {s result : σ} (hs : Inv s) (h : (turn body n s).run start = .ok (result, behind)) :
    Inv result := by
  induction n generalizing s start with
  | zero =>
      obtain ⟨rfl, -⟩ := run_pure_ok_iff.1 h
      exact hs
  | succ n ih =>
      rw [turn, run_bind_ok_iff] at h
      obtain ⟨next, middle, hturn, h⟩ := h
      have hnext := hbody s start next middle hs hturn
      cases next with
      | done s' =>
          obtain ⟨rfl, -⟩ := run_pure_ok_iff.1 h
          exact hnext
      | yield s' => exact ih hnext h

theorem loop_invariant {body : σ → Scan (ForInStep σ)} (Inv : σ → Prop)
    (hbody : ∀ s start next behind, Inv s → (body s).run start = .ok (next, behind) →
      Inv next.value)
    {s result : σ} (hs : Inv s) (h : (loop s body).run start = .ok (result, behind)) :
    Inv result := by
  rw [loop, run_bind_ok_iff] at h
  obtain ⟨n, middle, -, h⟩ := h
  exact turn_invariant Inv hbody hs h

/-- The characters of a run are no gaps. -/
theorem isGap_of_mem_plainRun {inFlow : Bool} {text : List Char} :
    ∀ c ∈ text.take (plainRun inFlow text), isGap c = false := by
  induction text with
  | nil => simp [plainRun]
  | cons c rest ih =>
      rw [plainRun]
      split
      next => simp
      next hgoes =>
        rw [List.take_succ_cons, List.forall_mem_cons]
        refine ⟨?_, ih⟩
        simp only [endsPlain, Bool.or_eq_true, not_or, Bool.not_eq_true] at hgoes
        exact hgoes.1.1

/-- A text that does not end in a blank or a line end. -/
def EndsInText (text : List Char) : Prop :=
  ∀ c ∈ text.getLast?, isGap c = false

theorem endsInText_append_plainRun {inFlow : Bool} {rest : List Char}
    (hrun : plainRun inFlow rest ≠ 0) (front : List Char) :
    EndsInText (front ++ rest.take (plainRun inFlow rest)) := by
  have hne : rest.take (plainRun inFlow rest) ≠ [] := by
    rw [Ne, List.take_eq_nil_iff, not_or]
    refine ⟨hrun, ?_⟩
    rintro rfl
    exact hrun rfl
  intro c hc
  rw [List.getLast?_append, List.getLast?_eq_some_getLast hne, Option.some_or] at hc
  obtain rfl := Option.some.inj hc
  exact isGap_of_mem_plainRun _ (List.getLast_mem hne)

/-- The scalar grows by whole runs only; what was taken behind the last one is left out. -/
theorem endsInText_plainScalar {inFlow : Bool} {parent : Int} {text : String} {flag : Bool}
    (h : (plainScalar inFlow parent).run start = .ok ((text, flag), behind)) :
    EndsInText text.toList := by
  rw [plainScalar, run_bind_ok_iff] at h
  obtain ⟨scalar, middle, hloop, h⟩ := h
  obtain ⟨hresult, -⟩ := run_pure_ok_iff.1 h
  rw [← (Prod.mk.inj hresult).1, String.toList_ofList]
  refine loop_invariant (fun scalar => EndsInText scalar.text) ?_ (by simp [EndsInText]) hloop
  intro scalar start next behind hscalar hturn
  -- Looking at the next characters leaves the cursor where it is, so the run that is measured is
  -- the run that is taken.
  obtain ⟨cursor, _, hget, hturn⟩ := run_bind_ok_iff.1 hturn
  obtain ⟨rfl, rfl⟩ := Prod.mk.inj (Except.ok.inj hget)
  obtain ⟨c, _, hpeek, hturn⟩ := run_bind_ok_iff.1 hturn
  obtain ⟨rfl, rfl⟩ := Prod.mk.inj (Except.ok.inj hpeek)
  split at hturn
  next =>
    obtain ⟨rfl, -⟩ := run_pure_ok_iff.1 hturn
    exact hscalar
  next hgoes =>
    have hrun : plainRun inFlow start.rest ≠ 0 := by
      simp only [Bool.or_eq_true, beq_iff_eq, not_or] at hgoes
      exact hgoes.2
    obtain ⟨run, _, htake, hturn⟩ := run_bind_ok_iff.1 hturn
    obtain ⟨rfl, -⟩ := Prod.mk.inj (Except.ok.inj htake)
    obtain ⟨_, _, -, hturn⟩ := run_bind_ok_iff.1 hturn
    obtain ⟨_, _, -, hturn⟩ := run_bind_ok_iff.1 hturn
    obtain ⟨_, _, -, hturn⟩ := run_bind_ok_iff.1 hturn
    split at hturn
    all_goals
      obtain ⟨rfl, -⟩ := run_pure_ok_iff.1 hturn
      exact endsInText_append_plainRun hrun _

end Scan

/-- The text of a plain scalar that is read at some place, inside a flow collection or a block. -/
def IsPlainText (text : String) : Prop :=
  ∃ inFlow parent start,
    ((Scan.plainScalar inFlow parent).run start).toOption.map (·.1.1) = some text

theorem IsPlainText.dropFinalBreak {text : String} (h : IsPlainText text) :
    ImplicitTag.dropFinalBreak text = text := by
  obtain ⟨inFlow, parent, start, htext⟩ := h
  obtain ⟨⟨⟨text, flag⟩, behind⟩, hresult, rfl⟩ := Option.map_eq_some_iff.1 htext
  have hscan : (Scan.plainScalar inFlow parent).run start = .ok ((text, flag), behind) := by
    cases hrun : (Scan.plainScalar inFlow parent).run start with
    | error fault => simp [hrun, Except.toOption] at hresult
    | ok result =>
        rw [hrun] at hresult
        rw [Option.some.inj hresult]
  have hend := Scan.endsInText_plainScalar hscan
  unfold ImplicitTag.dropFinalBreak
  split
  next c rest hreverse =>
    have hlast : text.toList.getLast? = some '\n' := by
      rw [← List.head?_reverse, hreverse]
      rfl
    exact absurd (hend '\n' hlast) (by decide)
  next => rfl

/-- A plain scalar without a tag gets the tag of what its text is written like. -/
theorem IsPlainText.scalarTag {text : String} (h : IsPlainText text) :
    Build.scalarTag none text true = coreTag ((ImplicitTag.kind? text).getD "str") := by
  simp only [Build.scalarTag, if_true, ImplicitTag.ofText, h.dropFinalBreak]

theorem coreTag_inj {name name' : String} : coreTag name = coreTag name' ↔ name = name' := by
  unfold coreTag
  generalize "tag:yaml.org,2002:" = front
  rw [← String.toList_inj, ← String.toList_inj, String.toList_append, String.toList_append,
    List.append_cancel_left_eq]

namespace ImplicitTag

variable {text : String}

theorem isNumber_of_kind? {name : String} (h : (kind? text).getD "str" = name) :
    (name = "float" → isFloat text.toList = true) ∧ (name = "int" → isInt text.toList = true) := by
  subst h
  unfold kind?
  split_ifs with _ hfloat hint <;> simp [*]

end ImplicitTag

end PhpArray.Yaml
