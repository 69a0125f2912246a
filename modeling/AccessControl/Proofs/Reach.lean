import AccessControl.Proofs.Filter

/-! # Following paths of relations

A comparison beyond relations is decided in two ways.  `Registry.reach` collects everything at the
end of the path, one relation after another, and compares afterwards; a filter goes down along one
record at a time and stops at the first that satisfies it.  Both visit the same records in the same
order, so wherever the whole path can be followed they have the same outcome
(`outcome_holds_of_reach`). -/

namespace AccessControl

namespace RecordFilter

/-- The filter that holds where `leaf` holds for something at the end of a path. -/
def along (r : Registry) (leaf : RecordFilter) (type : String) :
    List String → Except Failure RecordFilter
  | [] => .ok leaf
  | name :: rest => do
    let found ← r.relation type name
    return traverse type name (← along r leaf found.target rest)

/-- Rendering a comparison at the end of a path gives the filter along that path. -/
theorem render_path (r : Registry) (field : String) (operator : Operator) (v : Value) :
    ∀ (path : List String) (scope : Reached),
    (do (language r).compare (← (language r).traverseAll scope path) field operator v) =
      (do return traversed scope.hops (← along r (compare field operator v) scope.type path))
  | [], scope => rfl
  | name :: rest, scope => by
      simp only [FilterLanguage.traverseAll, along, language]
      cases hname : r.relation scope.type name with
      | error e => rfl
      | ok found =>
          have ih := render_path r field operator v rest
            ⟨found.target, (scope.type, name) :: scope.hops⟩
          simp only [ok_bind, pure, Except.pure]
          refine ih.trans ?_
          cases along r (compare field operator v) found.target rest <;> rfl

/-- The filter of a comparison. -/
theorem render_comparison {r : Registry} {type : String} {p : Principal} {c : Comparison}
    {f : RecordFilter} (h : c.render (language r) (rootOf type) p = .ok f) :
    ∃ v, c.expected p = .ok v ∧
      along r (compare c.path.field c.operator v) type c.path.relations = .ok f := by
  obtain ⟨v, hv, h⟩ := bind_eq_ok.mp h
  refine ⟨v, hv, ?_⟩
  have hpath := render_path r c.path.field c.operator v c.path.relations (rootOf type)
  rw [hpath] at h
  obtain ⟨g, hg, h⟩ := bind_eq_ok.mp h
  cases h
  exact hg

/-! ### Searching in a list -/

/-- A search in two lists, one after the other. -/
theorem holdsForSome_append (test : Resource → Inquiry Bool) (xs ys : List Resource) :
    holdsForSome test (xs ++ ys) =
      (holdsForSome test xs >>= fun b => if b then return true else holdsForSome test ys) := by
  induction xs with
  | nil => simp [holdsForSome]
  | cons x xs ih =>
      simp only [List.cons_append, holdsForSome, bind_assoc]
      congr 1
      funext b
      cases b with
      | true => simp
      | false => simpa using ih

/-- Comparing a field of several resources is searching for one that the comparison holds for. -/
theorem outcome_holdsForSome_compare (r : Registry) (field : String) (operator : Operator)
    (v : Value) : ∀ xs : List Resource,
    (holdsForSome (fun x => (compare field operator v).holds r x) xs).outcome =
      compareSome field operator v xs
  | [] => rfl
  | x :: xs => by
      simp only [holdsForSome, compareSome, Inquiry.outcome_bind, holds, Inquiry.outcome_lift]
      congr 1
      funext b
      cases b with
      | true => rfl
      | false => exact outcome_holdsForSome_compare r field operator v xs

end RecordFilter

namespace Registry

open RecordFilter

variable {r : Registry}

/-- What one relation reaches from a resource, once the relation is known. -/
theorem outcome_related {type name : String} {found : Relation} (h : r.relation type name = .ok found)
    (x : Resource) :
    (r.related type x name).outcome =
      (do return (found.target, ← (r.ask type x name).outcome)) := by
  simp only [related, h, Inquiry.lift_ok, pure_bind, Inquiry.outcome_bind, Inquiry.outcome_pure]
  rfl

/-- Where one step can be taken from all of several resources, searching behind each of them in turn
is searching in all that the step reaches. -/
theorem outcome_search_of_relatedToAll {type name : String} (test : Resource → Inquiry Bool) :
    ∀ (xs : List Resource) {ys : List Resource}, (r.relatedToAll type name xs).outcome = .ok ys →
    (holdsForSome (fun x => do holdsForSome test (← join r type x name)) xs).outcome =
      (holdsForSome test ys).outcome
  | [], ys, h => by
      cases h
      rfl
  | x :: xs, ys, h => by
      simp only [relatedToAll, Inquiry.outcome_bind] at h
      obtain ⟨⟨target, reached⟩, hx, h⟩ := bind_eq_ok.mp h
      obtain ⟨more, hxs, h⟩ := bind_eq_ok.mp h
      cases h
      have ih := outcome_search_of_relatedToAll test xs hxs
      have hjoin : (join r type x name).outcome = .ok reached.toList := by
        simp only [join, Inquiry.outcome_bind, hx]
        rfl
      rw [holdsForSome_append]
      simp only [holdsForSome, Inquiry.outcome_bind, hjoin, ok_bind]
      congr 1
      funext b
      cases b with
      | true => rfl
      | false => exact ih

/-- Where a path can be followed from all of several resources, its filter holds for one of them
when the filter at its end holds for something reached. -/
theorem outcome_search_of_reachFrom {leaf : RecordFilter} :
    ∀ (path : List String) (type : String) (xs : List Resource) {ys : List Resource}
      {f : RecordFilter}, (r.reachFrom type xs path).outcome = .ok ys →
    along r leaf type path = .ok f →
    (holdsForSome (fun x => f.holds r x) xs).outcome =
      (holdsForSome (fun x => leaf.holds r x) ys).outcome
  | [], type, xs, ys, f, hr, hf => by
      cases hr
      cases hf
      rfl
  | name :: rest, type, xs, ys, f, hr, hf => by
      obtain ⟨found, hfound, hf⟩ := bind_eq_ok.mp hf
      obtain ⟨g, hg, hf⟩ := bind_eq_ok.mp hf
      cases hf
      rw [reachFrom] at hr
      cases xs with
      | nil =>
          cases hr
          rfl
      | cons x xs =>
          simp only [List.isEmpty_cons, Bool.false_eq_true, if_false, hfound, Inquiry.lift_ok,
            pure_bind, Inquiry.outcome_bind] at hr
          obtain ⟨next, hnext, hr⟩ := bind_eq_ok.mp hr
          rw [← outcome_search_of_reachFrom rest found.target next hr hg,
            ← outcome_search_of_relatedToAll _ (x :: xs) hnext]
          rfl

/-- Where the path of a comparison can be followed, the filter of the comparison has the outcome of
the comparison itself. -/
theorem outcome_holds_of_reach {s : Scope} {subject : Resource} {c : Comparison} {f : RecordFilter}
    {v : Value} {ys : List Resource} (hv : c.expected s.principal = .ok v)
    (hf : along r (compare c.path.field c.operator v) s.type c.path.relations = .ok f)
    (hcontext : s.context = [])
    (hr : (r.reach s.type subject c.path.relations s.context).outcome = .ok ys) :
    (c.evaluate r s subject).outcome = (f.holds r subject).outcome := by
  simp only [Comparison.evaluate, hv, Inquiry.lift_ok, pure_bind]
  cases hpath : c.path.relations with
  | nil =>
      rw [hpath] at hf
      cases hf
      rfl
  | cons name rest =>
      rw [hpath] at hf hr
      obtain ⟨found, hfound, hf⟩ := bind_eq_ok.mp hf
      obtain ⟨g, hg, hf⟩ := bind_eq_ok.mp hf
      cases hf
      simp only [Inquiry.outcome_bind, hr, ok_bind, Inquiry.outcome_lift]
      rw [← outcome_holdsForSome_compare r]
      simp only [reach, firstStep, hcontext, List.lookup_nil, Inquiry.outcome_bind] at hr
      obtain ⟨⟨target, reached⟩, hstep, hr⟩ := bind_eq_ok.mp hr
      have htarget : target = found.target := by
        rw [outcome_related hfound] at hstep
        obtain ⟨a, -, ha⟩ := bind_eq_ok.mp hstep
        cases ha
        rfl
      subst htarget
      rw [← outcome_search_of_reachFrom rest found.target reached.toList hr hg]
      simp only [holds, join, Inquiry.outcome_bind, hstep, ok_bind]
      rfl

end Registry
end AccessControl
