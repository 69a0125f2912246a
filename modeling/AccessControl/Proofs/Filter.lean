import AccessControl.Decision
import AccessControl.Proofs.Inquiry

/-! # Plans and their filters

A plan is decided by `Plan.evaluate`, and its filter by `RecordFilter.holds`.  Both walk the same
groups in the same order, so they agree on a plan as soon as they agree on its comparisons
(`agree_render`), in whichever sense of `Agreement`.  The same holds of the candidates of a request
and the filter made of them (`agree_selection`). -/

namespace AccessControl

/-- Deciding a comparison for a resource agrees with deciding its filter. -/
def Agreement.OnComparisons (A : Agreement) (r : Registry) (s : Scope) (subject : Resource) : Prop :=
  ∀ c f, Comparison.render (RecordFilter.language r) (RecordFilter.rootOf s.type) s.principal c = .ok f →
    A.rel (c.evaluate r s subject) (f.holds r subject)

namespace Plan

variable {A : Agreement} {r : Registry} {s : Scope} {subject : Resource}

mutual

/-- A plan agrees with its filter. -/
theorem agree_render (h : A.OnComparisons r s subject) : ∀ (plan : Plan) (f : RecordFilter),
    plan.render (RecordFilter.language r) (RecordFilter.rootOf s.type) s.principal = .ok f →
    A.rel (plan.evaluate r s subject) (f.holds r subject)
  | .compare c, f, hf => h c f hf
  | .all parts, f, hf => by
      obtain ⟨fs, hfs, hf⟩ := bind_eq_ok.mp hf
      cases hf
      exact agree_renderAll h parts fs hfs
  | .any parts, f, hf => by
      obtain ⟨fs, hfs, hf⟩ := bind_eq_ok.mp hf
      cases hf
      exact agree_renderAny h parts fs hfs
  | .not inner, f, hf => by
      obtain ⟨g, hg, hf⟩ := bind_eq_ok.mp hf
      cases hf
      exact A.bind (agree_render h inner g hg) fun b => A.refl _

/-- Plans of which all must hold agree with their filters. -/
theorem agree_renderAll (h : A.OnComparisons r s subject) :
    ∀ (parts : List Plan) (fs : List RecordFilter),
    renderParts (RecordFilter.language r) (RecordFilter.rootOf s.type) s.principal parts = .ok fs →
    A.rel (evaluateAll r s subject parts) (RecordFilter.holdsAll r subject fs)
  | [], fs, hfs => by
      cases hfs
      exact A.refl _
  | part :: rest, fs, hfs => by
      obtain ⟨f, hf, hfs⟩ := bind_eq_ok.mp hfs
      obtain ⟨more, hmore, hfs⟩ := bind_eq_ok.mp hfs
      cases hfs
      exact A.branch (agree_render h part f hf) (agree_renderAll h rest more hmore) (A.refl _)

/-- Plans of which some must hold agree with their filters. -/
theorem agree_renderAny (h : A.OnComparisons r s subject) :
    ∀ (parts : List Plan) (fs : List RecordFilter),
    renderParts (RecordFilter.language r) (RecordFilter.rootOf s.type) s.principal parts = .ok fs →
    A.rel (evaluateAny r s subject parts) (RecordFilter.holdsAny r subject fs)
  | [], fs, hfs => by
      cases hfs
      exact A.refl _
  | part :: rest, fs, hfs => by
      obtain ⟨f, hf, hfs⟩ := bind_eq_ok.mp hfs
      obtain ⟨more, hmore, hfs⟩ := bind_eq_ok.mp hfs
      cases hfs
      exact A.branch (agree_render h part f hf) (A.refl _) (agree_renderAny h rest more hmore)

end

end Plan

/-! ### Selecting records -/

namespace RecordFilter

variable {α : Type} {r : Registry} {view : α → Resource} {f : RecordFilter}

/-- Where a filter can be decided for every record, the records for which it holds are kept. -/
theorem outcome_select_ok {kept : α → Bool} : ∀ records : List α,
    (∀ x ∈ records, (f.holds r (view x)).outcome = .ok (kept x)) →
    (select r view f records).outcome = .ok (records.filter kept)
  | [], _ => rfl
  | x :: rest, h => by
      have hx := h x List.mem_cons_self
      have ih := outcome_select_ok rest fun y hy => h y (List.mem_cons_of_mem x hy)
      simp only [select, Inquiry.outcome_bind, hx, ih, ok_bind, Inquiry.outcome_pure]
      cases hkept : kept x with
      | true => rw [List.filter_cons_of_pos hkept]; rfl
      | false => rw [List.filter_cons_of_neg (by rw [hkept]; decide)]; rfl

/-- The first record for which a filter cannot be decided fails the selection. -/
theorem outcome_select_error {x : α} {e : Failure} {after : List α}
    (hx : (f.holds r (view x)).outcome = .error e) : ∀ before : List α,
    (∀ y ∈ before, ∃ b, (f.holds r (view y)).outcome = .ok b) →
    (select r view f (before ++ x :: after)).outcome = .error e
  | [], _ => by
      simp only [List.nil_append, select, Inquiry.outcome_bind, hx, error_bind]
  | y :: before, h => by
      obtain ⟨b, hb⟩ := h y List.mem_cons_self
      have ih : (select r view f (before ++ x :: after)).outcome = .error e :=
        outcome_select_error hx before fun z hz => h z (List.mem_cons_of_mem y hz)
      simp only [List.cons_append, select, Inquiry.outcome_bind, hb, ih, ok_bind, error_bind]

end RecordFilter

/-! ### Candidates -/

/-- Whether what was selected holds for a record; without a filter nothing is selected. -/
def Selection.holds (r : Registry) (subject : Resource) (selection : Selection RecordFilter) :
    Inquiry Bool :=
  match selection.filter? with
  | none => return false
  | some f => f.holds r subject

namespace Request

variable {A : Agreement} {r : Registry} {s : Scope} {subject : Resource}

/-- The filter of several fragments holds when one of them does. -/
theorem holds_combine (r : Registry) (subject : Resource) (fs : List RecordFilter) :
    (combine (RecordFilter.language r) fs).holds r subject = RecordFilter.holdsAny r subject fs := by
  match fs with
  | [] => rfl
  | [only] =>
      show only.holds r subject =
        (only.holds r subject >>= fun b => if b then pure true else pure false)
      have hb : (fun b : Bool => if b then (pure true : Inquiry Bool) else pure false) = pure := by
        funext b
        cases b <;> rfl
      rw [hb, bind_pure]
  | _ :: _ :: _ => rfl

/-- Looking for a candidate that grants agrees with deciding the candidates' fragments. -/
theorem agree_fragments (h : A.OnComparisons r s subject) :
    ∀ (candidates : List Permission) (fs : List RecordFilter),
    fragments (RecordFilter.language r) (RecordFilter.rootOf s.type) s.principal candidates = .ok fs →
    A.rel (do return (← firstGrant r s subject candidates).isSome)
      (RecordFilter.holdsAny r subject fs)
  | [], fs, hfs => by
      cases hfs
      exact A.refl _
  | p :: rest, fs, hfs => by
      have step : (do return (← firstGrant r s subject (p :: rest)).isSome : Inquiry Bool) =
          (permits r s subject p >>= fun b => if b then pure true
            else do return (← firstGrant r s subject rest).isSome) := by
        rw [firstGrant, bind_assoc]
        congr 1
        funext b
        cases b <;> rfl
      rw [step]
      rw [fragments] at hfs
      cases hp : p.plan with
      | none =>
          rw [hp] at hfs
          cases hfs
          simp only [permits, hp, pure_bind]
          exact A.refl _
      | some plan =>
          simp only [hp] at hfs
          obtain ⟨f, hf, hfs⟩ := bind_eq_ok.mp hfs
          obtain ⟨more, hmore, hfs⟩ := bind_eq_ok.mp hfs
          cases hfs
          have hplan : A.rel (permits r s subject p) (f.holds r subject) := by
            simp only [permits, hp]
            exact plan.agree_render h f hf
          exact A.branch hplan (A.refl _) (agree_fragments h rest more hmore)

/-- Checking a request agrees with deciding its filter, if comparisons do. -/
theorem agree_selection {q : Request} {ps : Permissions} {selection : Selection RecordFilter}
    (h : A.OnComparisons r ⟨q.principal, q.type, []⟩ subject)
    (hq : q.filter r ps (RecordFilter.language r) (RecordFilter.rootOf q.type) = .ok selection) :
    A.rel (do return (← q.check r ps subject []).granted) (selection.holds r subject) := by
  obtain ⟨found, hfound, hq⟩ := bind_eq_ok.mp hq
  have hcheck : (do return (← q.check r ps subject []).granted : Inquiry Bool) =
      (do return (← firstGrant r ⟨q.principal, q.type, []⟩ subject found).isSome) := by
    unfold check
    rw [hfound]
    simp only [Inquiry.lift_ok, pure_bind, bind_assoc, Decision.granted]
  rw [hcheck]
  cases found with
  | nil =>
      cases hq
      exact A.refl _
  | cons p rest =>
      obtain ⟨fs, hfs, hq⟩ := bind_eq_ok.mp hq
      cases hq
      show A.rel _ ((combine (RecordFilter.language r) fs).holds r subject)
      rw [holds_combine]
      exact agree_fragments h (p :: rest) fs hfs

end Request
end AccessControl
