import AccessControl.Proofs.Dependence
import AccessControl.Proofs.Link

/-! # How much is looked up

A check collects everything at the end of a path before it compares; a filter goes down along one
record at a time and stops at the first that satisfies it.  So over a catalog the filter of a request
asks providers at most as often as the check does for the same record
(`Request.lookups_filter_le_check`).

Both come to the same comparisons in the same order (`Plan.reached`, `Request.reached`), because they
have the same outcome for each of them.  What either asks in all is the sum of what it asks for these
(`lookups_evaluate`, `lookups_render`), so that single comparisons are all there is to compare
(`lookups_holds_le_evaluate`). -/

namespace AccessControl

/-! ### Adding up -/

namespace Inquiry
variable {α β : Type}

@[simp] theorem lookups_lift (x : Except Failure α) : (liftM x : Inquiry α).lookups = 0 := rfl

/-- What goes on without lookups adds none. -/
theorem lookups_bind_free (x : Inquiry α) {f : α → Inquiry β} (hf : ∀ a, (f a).lookups = 0) :
    (x >>= f).lookups = x.lookups := by
  cases hx : x.outcome with
  | error e => rw [lookups_bind_error hx]
  | ok a => rw [lookups_bind_ok hx, hf, Nat.add_zero]

theorem lookups_map_pure (x : Inquiry α) (f : α → β) :
    (do return f (← x) : Inquiry β).lookups = x.lookups :=
  lookups_bind_free x fun _ => rfl

/-- A test and the way to go on that its answer chooses. -/
theorem lookups_branch (x : Inquiry Bool) (a b : Inquiry α) :
    (x >>= fun t => if t then a else b).lookups =
      x.lookups + match x.outcome with
        | .ok true => a.lookups
        | .ok false => b.lookups
        | .error _ => 0 := by
  cases hx : x.outcome with
  | error e => rw [lookups_bind_error hx, Nat.add_zero]
  | ok t =>
      rw [lookups_bind_ok hx]
      cases t <;> rfl

end Inquiry

/-! ### The comparisons that are reached -/

namespace Plan

mutual

/-- The comparisons that deciding a plan for a resource comes to, in their order. -/
def reached (r : Registry) (s : Scope) (subject : Resource) : Plan → List Comparison
  | .compare c => [c]
  | .all parts => reachedAll r s subject parts
  | .any parts => reachedAny r s subject parts
  | .not inner => reached r s subject inner

/-- The comparisons that are reached until some plan does not hold. -/
def reachedAll (r : Registry) (s : Scope) (subject : Resource) : List Plan → List Comparison
  | [] => []
  | part :: rest => reached r s subject part ++
      match (evaluate r s subject part).outcome with
      | .ok true => reachedAll r s subject rest
      | _ => []

/-- The comparisons that are reached until some plan holds. -/
def reachedAny (r : Registry) (s : Scope) (subject : Resource) : List Plan → List Comparison
  | [] => []
  | part :: rest => reached r s subject part ++
      match (evaluate r s subject part).outcome with
      | .ok false => reachedAny r s subject rest
      | _ => []

end

end Plan

namespace Plan
variable {r : Registry} {s : Scope} {subject : Resource}

mutual

/-- What is reached in a plan is one of its comparisons. -/
theorem mem_of_reached : ∀ (plan : Plan) {c : Comparison},
    c ∈ plan.reached r s subject → c ∈ plan.comparisons
  | .compare _, _, hc => hc
  | .all parts, _, hc => mem_of_reachedAll parts hc
  | .any parts, _, hc => mem_of_reachedAny parts hc
  | .not inner, _, hc => by
      rw [reached] at hc
      exact mem_of_reached inner hc

theorem mem_of_reachedAll : ∀ (parts : List Plan) {c : Comparison},
    c ∈ reachedAll r s subject parts → c ∈ comparisonsOf parts
  | part :: rest, c, hc => by
      refine List.mem_append.mpr ?_
      rcases List.mem_append.mp hc with hc | hc
      · exact .inl (mem_of_reached part hc)
      · split at hc
        · exact .inr (mem_of_reachedAll rest hc)
        · cases hc

theorem mem_of_reachedAny : ∀ (parts : List Plan) {c : Comparison},
    c ∈ reachedAny r s subject parts → c ∈ comparisonsOf parts
  | part :: rest, c, hc => by
      refine List.mem_append.mpr ?_
      rcases List.mem_append.mp hc with hc | hc
      · exact .inl (mem_of_reached part hc)
      · split at hc
        · exact .inr (mem_of_reachedAny rest hc)
        · cases hc

end

end Plan

/-- What is counted for each of several comparisons, in all. -/
def Comparison.total (count : Comparison → Nat) : List Comparison → Nat
  | [] => 0
  | c :: cs => count c + total count cs

namespace Comparison

/-- The lookups that deciding the filter of a comparison makes, if it has one. -/
def filterLookups (r : Registry) (s : Scope) (subject : Resource) (c : Comparison) : Nat :=
  match c.render (RecordFilter.language r) (RecordFilter.rootOf s.type) s.principal with
  | .ok f => (f.holds r subject).lookups
  | .error _ => 0

variable {count count' : Comparison → Nat}

@[simp] theorem total_singleton (count : Comparison → Nat) (c : Comparison) :
    total count [c] = count c := Nat.add_zero _

@[simp] theorem total_append (count : Comparison → Nat) : ∀ cs ds : List Comparison,
    total count (cs ++ ds) = total count cs + total count ds
  | [], ds => (Nat.zero_add _).symm
  | c :: cs, ds => by rw [List.cons_append, total, total, total_append count cs ds, Nat.add_assoc]

theorem total_le : ∀ {cs : List Comparison},
    (∀ c ∈ cs, count c ≤ count' c) → total count cs ≤ total count' cs
  | [], _ => Nat.le_refl 0
  | c :: cs, h => by
      obtain ⟨hc, hcs⟩ := List.forall_mem_cons.mp h
      exact Nat.add_le_add hc (total_le hcs)

theorem total_congr {cs : List Comparison} (h : ∀ c ∈ cs, count c = count' c) :
    total count cs = total count' cs :=
  Nat.le_antisymm (total_le fun c hc => Nat.le_of_eq (h c hc))
    (total_le fun c hc => Nat.le_of_eq (h c hc).symm)

theorem total_eq_zero : ∀ {cs : List Comparison}, (∀ c ∈ cs, count c = 0) → total count cs = 0
  | [], _ => rfl
  | c :: cs, h => by
      obtain ⟨hc, hcs⟩ := List.forall_mem_cons.mp h
      rw [total, hc, total_eq_zero hcs]

end Comparison

open Comparison (total filterLookups)

namespace Inquiry
variable {α : Type} {x : Inquiry Bool} {y : Inquiry α} {a : α} {count : Comparison → Nat}
  {cs ds : List Comparison}

/-- What is looked up by going on where a test holds. -/
theorem lookups_conjunction (hx : x.lookups = total count cs) (hy : y.lookups = total count ds) :
    (x >>= fun t => if t then y else pure a).lookups = total count (cs ++
      match x.outcome with
      | .ok true => ds
      | _ => []) := by
  rw [lookups_branch, Comparison.total_append, hx]
  cases x.outcome with
  | error e => rfl
  | ok t =>
      cases t with
      | true => rw [hy]
      | false => rfl

/-- What is looked up by going on where a test does not hold. -/
theorem lookups_disjunction (hx : x.lookups = total count cs) (hy : y.lookups = total count ds) :
    (x >>= fun t => if t then pure a else y).lookups = total count (cs ++
      match x.outcome with
      | .ok false => ds
      | _ => []) := by
  rw [lookups_branch, Comparison.total_append, hx]
  cases x.outcome with
  | error e => rfl
  | ok t =>
      cases t with
      | true => rfl
      | false => rw [hy]

end Inquiry

namespace Plan
variable {r : Registry} {s : Scope} {subject : Resource}

mutual

/-- Deciding a plan looks up what deciding the comparisons that it comes to does. -/
theorem lookups_evaluate : ∀ plan : Plan, (plan.evaluate r s subject).lookups =
    total (fun c => (c.evaluate r s subject).lookups) (plan.reached r s subject)
  | .compare c => by rw [reached, Comparison.total_singleton, evaluate]
  | .all parts => lookups_evaluateAll parts
  | .any parts => lookups_evaluateAny parts
  | .not inner => by rw [evaluate, Inquiry.lookups_map_pure, lookups_evaluate inner, reached]

theorem lookups_evaluateAll : ∀ parts : List Plan, (evaluateAll r s subject parts).lookups =
    total (fun c => (c.evaluate r s subject).lookups) (reachedAll r s subject parts)
  | [] => rfl
  | part :: rest => Inquiry.lookups_conjunction (lookups_evaluate part) (lookups_evaluateAll rest)

theorem lookups_evaluateAny : ∀ parts : List Plan, (evaluateAny r s subject parts).lookups =
    total (fun c => (c.evaluate r s subject).lookups) (reachedAny r s subject parts)
  | [] => rfl
  | part :: rest => Inquiry.lookups_disjunction (lookups_evaluate part) (lookups_evaluateAny rest)

end

mutual

/-- Deciding the filter of a plan looks up what deciding the filters of the comparisons that the plan
comes to does. -/
theorem lookups_render (h : Agreement.sameOutcome.OnComparisons r s subject) :
    ∀ (plan : Plan) (f : RecordFilter),
    plan.render (RecordFilter.language r) (RecordFilter.rootOf s.type) s.principal = .ok f →
    (f.holds r subject).lookups = total (filterLookups r s subject) (plan.reached r s subject)
  | .compare c, f, hf => by
      rw [reached, Comparison.total_singleton, filterLookups]
      rw [render] at hf
      rw [hf]
  | .all parts, f, hf => by
      obtain ⟨fs, hfs, hf⟩ := bind_eq_ok.mp hf
      cases hf
      exact lookups_renderAll h parts fs hfs
  | .any parts, f, hf => by
      obtain ⟨fs, hfs, hf⟩ := bind_eq_ok.mp hf
      cases hf
      exact lookups_renderAny h parts fs hfs
  | .not inner, f, hf => by
      obtain ⟨g, hg, hf⟩ := bind_eq_ok.mp hf
      cases hf
      show (RecordFilter.holds r subject (.not g)).lookups = _
      rw [RecordFilter.holds, Inquiry.lookups_map_pure, lookups_render h inner g hg, reached]

theorem lookups_renderAll (h : Agreement.sameOutcome.OnComparisons r s subject) :
    ∀ (parts : List Plan) (fs : List RecordFilter),
    renderParts (RecordFilter.language r) (RecordFilter.rootOf s.type) s.principal parts = .ok fs →
    (RecordFilter.holdsAll r subject fs).lookups =
      total (filterLookups r s subject) (reachedAll r s subject parts)
  | [], fs, hfs => by
      cases hfs
      rfl
  | part :: rest, fs, hfs => by
      obtain ⟨f, hf, hfs⟩ := bind_eq_ok.mp hfs
      obtain ⟨more, hmore, hfs⟩ := bind_eq_ok.mp hfs
      cases hfs
      have houtcome : (part.evaluate r s subject).outcome = (f.holds r subject).outcome :=
        part.agree_render h f hf
      rw [reachedAll, houtcome]
      exact Inquiry.lookups_conjunction (lookups_render h part f hf)
        (lookups_renderAll h rest more hmore)

theorem lookups_renderAny (h : Agreement.sameOutcome.OnComparisons r s subject) :
    ∀ (parts : List Plan) (fs : List RecordFilter),
    renderParts (RecordFilter.language r) (RecordFilter.rootOf s.type) s.principal parts = .ok fs →
    (RecordFilter.holdsAny r subject fs).lookups =
      total (filterLookups r s subject) (reachedAny r s subject parts)
  | [], fs, hfs => by
      cases hfs
      rfl
  | part :: rest, fs, hfs => by
      obtain ⟨f, hf, hfs⟩ := bind_eq_ok.mp hfs
      obtain ⟨more, hmore, hfs⟩ := bind_eq_ok.mp hfs
      cases hfs
      have houtcome : (part.evaluate r s subject).outcome = (f.holds r subject).outcome :=
        part.agree_render h f hf
      rw [reachedAny, houtcome]
      exact Inquiry.lookups_disjunction (lookups_render h part f hf)
        (lookups_renderAny h rest more hmore)

end

end Plan

/-! ### Single comparisons -/

namespace RecordFilter
variable {r : Registry}

/-- Searching for a resource by a comparison of its own field looks nothing up. -/
theorem lookups_holdsForSome_compare (field : String) (operator : Operator) (v : Value) :
    ∀ xs : List Resource,
      (holdsForSome (fun x => (compare field operator v).holds r x) xs).lookups = 0
  | [] => rfl
  | x :: xs => by
      rw [holdsForSome, Inquiry.lookups_branch, lookups_holdsForSome_compare field operator v xs, holds,
        Inquiry.lookups_lift]
      cases (liftM (compareField field (x.field field) operator v) : Inquiry Bool).outcome with
      | error e => rfl
      | ok b => cases b <;> rfl

end RecordFilter

namespace Registry

open RecordFilter

variable {r : Registry}

/-- Searching behind each of several resources in turn looks up no more than taking a step from all of
them and searching in what is reached. -/
theorem lookups_search_le_relatedToAll {type name : String} (test : Resource → Inquiry Bool) :
    ∀ (xs : List Resource) {ys : List Resource}, (r.relatedToAll type name xs).outcome = .ok ys →
    (holdsForSome (fun x => do holdsForSome test (← join r type x name)) xs).lookups ≤
      (r.relatedToAll type name xs).lookups + (holdsForSome test ys).lookups
  | [], ys, _ => Nat.zero_le _
  | x :: xs, ys, h => by
      simp only [relatedToAll, Inquiry.outcome_bind] at h
      obtain ⟨⟨target, reached⟩, hx, h⟩ := bind_eq_ok.mp h
      obtain ⟨more, hxs, h⟩ := bind_eq_ok.mp h
      cases h
      have ih := lookups_search_le_relatedToAll test xs hxs
      have hjoin : (join r type x name).outcome = .ok reached.toList := by
        simp only [join, Inquiry.outcome_bind, hx]
        rfl
      have hsame : (join r type x name).lookups = (r.related type x name).lookups :=
        Inquiry.lookups_map_pure _ _
      have hall : (r.relatedToAll type name (x :: xs)).lookups =
          (r.related type x name).lookups + (r.relatedToAll type name xs).lookups := by
        rw [relatedToAll, Inquiry.lookups_bind_ok hx, Inquiry.lookups_map_pure]
      rw [holdsForSome, Inquiry.lookups_branch, Inquiry.lookups_bind_ok hjoin, Inquiry.outcome_bind,
        hjoin, ok_bind, holdsForSome_append, Inquiry.lookups_branch, hall, hsame]
      cases (holdsForSome test reached.toList).outcome with
      | error e =>
          dsimp only
          omega
      | ok b =>
          cases b with
          | true =>
              simp only [Inquiry.lookups_pure]
              omega
          | false =>
              dsimp only
              omega

/-- Where a path can be followed from all of several resources, searching with its filter looks up no
more than following the path. -/
theorem lookups_search_le_reachFrom {field : String} {operator : Operator} {v : Value} :
    ∀ (path : List String) (type : String) (xs : List Resource) {ys : List Resource}
      {f : RecordFilter}, (r.reachFrom type xs path).outcome = .ok ys →
    along r (compare field operator v) type path = .ok f →
    (holdsForSome (fun x => f.holds r x) xs).lookups ≤ (r.reachFrom type xs path).lookups
  | [], type, xs, ys, f, _, hf => by
      cases hf
      rw [lookups_holdsForSome_compare]
      exact Nat.zero_le _
  | name :: rest, type, [], ys, f, _, _ => Nat.zero_le _
  | name :: rest, type, x :: xs, ys, f, hr, hf => by
      obtain ⟨found, hfound, hf⟩ := bind_eq_ok.mp hf
      obtain ⟨g, hg, hf⟩ := bind_eq_ok.mp hf
      cases hf
      simp only [reachFrom, List.isEmpty_cons, Bool.false_eq_true, if_false, hfound, Inquiry.lift_ok,
        pure_bind, Inquiry.outcome_bind] at hr ⊢
      obtain ⟨next, hnext, hr⟩ := bind_eq_ok.mp hr
      have hstep := lookups_search_le_relatedToAll (fun x => g.holds r x) (x :: xs) hnext
      have hrest := lookups_search_le_reachFrom rest found.target next hr hg
      rw [Inquiry.lookups_bind_ok hnext]
      exact Nat.le_trans hstep (Nat.add_le_add_left hrest _)

end Registry

namespace Comparison
variable {r : Registry} {s : Scope} {subject : Resource} {c : Comparison}

theorem lookups_evaluate_of_error {e : Failure} (h : c.expected s.principal = .error e) :
    (c.evaluate r s subject).lookups = 0 := by
  rw [evaluate, h]
  rfl

/-- A comparison of a field of the resource itself looks nothing up. -/
theorem lookups_evaluate_of_field (hpath : c.path.relations = []) :
    (c.evaluate r s subject).lookups = 0 := by
  cases hv : c.expected s.principal with
  | error e => exact lookups_evaluate_of_error hv
  | ok v =>
      simp only [evaluate, hv, Inquiry.lift_ok, pure_bind, hpath]
      rfl

/-- A comparison beyond relations looks up what its path does. -/
theorem lookups_evaluate_of_path {v : Value} (hv : c.expected s.principal = .ok v) {name : String}
    {rest : List String} (hpath : c.path.relations = name :: rest) :
    (c.evaluate r s subject).lookups =
      (r.reach s.type subject (name :: rest) s.context).lookups := by
  simp only [evaluate, hv, Inquiry.lift_ok, pure_bind, hpath]
  exact Inquiry.lookups_bind_free _ fun _ => rfl

/-- Over a registry that answers for every known relation, the filter of a comparison looks up no more
than the comparison itself. -/
theorem lookups_holds_le_evaluate (h : r.Answers) (hcontext : s.context = []) {f : RecordFilter}
    (hf : c.render (RecordFilter.language r) (RecordFilter.rootOf s.type) s.principal = .ok f) :
    (f.holds r subject).lookups ≤ (c.evaluate r s subject).lookups := by
  obtain ⟨v, hv, hf⟩ := RecordFilter.render_comparison hf
  obtain ⟨target, htarget⟩ := RecordFilter.follow_of_along _ _ hf
  cases hpath : c.path.relations with
  | nil =>
      rw [hpath] at hf
      cases hf
      exact Nat.zero_le _
  | cons name rest =>
      rw [hpath] at hf htarget
      obtain ⟨found, hfound, hf⟩ := bind_eq_ok.mp hf
      obtain ⟨g, hg, hf⟩ := bind_eq_ok.mp hf
      cases hf
      obtain ⟨found', hfound', htarget⟩ := bind_eq_ok.mp htarget
      cases hfound.symm.trans hfound'
      obtain ⟨reached, hask⟩ := h s.type name found hfound subject
      obtain ⟨ys, hys⟩ := Registry.reachFrom_of_follow h rest found.target reached.toList htarget
      have hstep : (r.related s.type subject name).outcome = .ok (found.target, reached) := by
        rw [Registry.outcome_related hfound, hask]
        rfl
      have hjoin : (RecordFilter.join r s.type subject name).outcome = .ok reached.toList := by
        rw [RecordFilter.join, Inquiry.outcome_bind, hstep]
        rfl
      have hsearch := Registry.lookups_search_le_reachFrom rest found.target reached.toList hys hg
      rw [lookups_evaluate_of_path hv hpath, hcontext, Registry.reach, Registry.firstStep,
        List.lookup_nil, RecordFilter.holds, Inquiry.lookups_bind_ok hjoin,
        Inquiry.lookups_bind_ok hstep, RecordFilter.join, Inquiry.lookups_map_pure]
      exact Nat.add_le_add_left hsearch _

theorem filterLookups_le_evaluate (h : r.Answers) (hcontext : s.context = []) (c : Comparison) :
    filterLookups r s subject c ≤ (c.evaluate r s subject).lookups := by
  unfold filterLookups
  split
  · rename_i f hf
    exact lookups_holds_le_evaluate h hcontext hf
  · exact Nat.zero_le _

/-- The filter of a comparison is made of what it expects and of its path. -/
theorem render_eq_along (r : Registry) (type : String) (p : Principal) (c : Comparison) :
    c.render (RecordFilter.language r) (RecordFilter.rootOf type) p = (do
      RecordFilter.along r (.compare c.path.field c.operator (← c.expected p)) type
        c.path.relations) := by
  unfold render
  cases c.expected p with
  | error e => rfl
  | ok v =>
      have hpath := RecordFilter.render_path r c.path.field c.operator v c.path.relations
        (RecordFilter.rootOf type)
      rw [ok_bind, ok_bind, hpath]
      exact bind_pure _

/-- Beyond no more than one relation, the two look up the same. -/
theorem filterLookups_eq_evaluate (hcontext : s.context = []) (hlength : c.path.relations.length ≤ 1) :
    filterLookups r s subject c = (c.evaluate r s subject).lookups := by
  unfold filterLookups
  rw [render_eq_along]
  cases hv : c.expected s.principal with
  | error e => rw [lookups_evaluate_of_error hv, error_bind]
  | ok v =>
      rw [ok_bind]
      match hpath : c.path.relations with
      | [] =>
          rw [lookups_evaluate_of_field hpath]
          rfl
      | [name] =>
          rw [lookups_evaluate_of_path hv hpath, hcontext, RecordFilter.along, Registry.reach,
            Registry.firstStep, List.lookup_nil]
          cases hfound : r.relation s.type name with
          | error e =>
              rw [error_bind, Registry.related, hfound]
              rfl
          | ok found =>
              show (RecordFilter.holds r subject (.traverse s.type name _)).lookups = _
              rw [RecordFilter.holds, Inquiry.lookups_bind_free _ fun _ =>
                RecordFilter.lookups_holdsForSome_compare _ _ _ _, RecordFilter.join]
              rw [Inquiry.lookups_map_pure]
              exact (Inquiry.lookups_bind_free _ fun _ => rfl).symm
      | _ :: _ :: _ =>
          rw [hpath] at hlength
          simp at hlength

end Comparison

/-! ### Requests -/

namespace Request

/-- The comparisons that looking for a grant comes to, up to the first permission that holds. -/
def reachedBy (r : Registry) (s : Scope) (subject : Resource) : List Permission → List Comparison
  | [] => []
  | p :: rest => (p.plan.map (·.reached r s subject)).getD [] ++
      match (permits r s subject p).outcome with
      | .ok false => reachedBy r s subject rest
      | _ => []

/-- The comparisons that a request comes to for a resource. -/
def reached (q : Request) (r : Registry) (ps : Permissions) (subject : Resource) : List Comparison :=
  reachedBy r ⟨q.principal, q.type, []⟩ subject (ps.candidates q.principal q.type q.action)

section reached
variable {r : Registry} {s : Scope} {subject : Resource}

theorem lookups_permits (p : Permission) : (permits r s subject p).lookups =
    total (fun c => (c.evaluate r s subject).lookups)
      ((p.plan.map (·.reached r s subject)).getD []) := by
  unfold permits
  cases p.plan with
  | none => rfl
  | some plan => exact plan.lookups_evaluate

theorem lookups_firstGrant : ∀ candidates : List Permission,
    (firstGrant r s subject candidates).lookups =
      total (fun c => (c.evaluate r s subject).lookups) (reachedBy r s subject candidates)
  | [] => rfl
  | p :: rest => Inquiry.lookups_disjunction (lookups_permits p) (lookups_firstGrant rest)

/-- Deciding the filters of candidates looks up what deciding the filters of the comparisons that are
reached does. -/
theorem lookups_fragments (h : Agreement.sameOutcome.OnComparisons r s subject) :
    ∀ (candidates : List Permission) (fs : List RecordFilter),
    fragments (RecordFilter.language r) (RecordFilter.rootOf s.type) s.principal candidates = .ok fs →
    (RecordFilter.holdsAny r subject fs).lookups =
      total (filterLookups r s subject) (reachedBy r s subject candidates)
  | [], fs, hfs => by
      cases hfs
      rfl
  | p :: rest, fs, hfs => by
      rw [fragments] at hfs
      cases hp : p.plan with
      | none =>
          rw [hp] at hfs
          cases hfs
          rw [reachedBy, permits, hp]
          rfl
      | some plan =>
          simp only [hp] at hfs
          obtain ⟨f, hf, hfs⟩ := bind_eq_ok.mp hfs
          obtain ⟨more, hmore, hfs⟩ := bind_eq_ok.mp hfs
          cases hfs
          have houtcome : (plan.evaluate r s subject).outcome = (f.holds r subject).outcome :=
            plan.agree_render h f hf
          rw [reachedBy, permits, hp]
          dsimp only [Option.map_some, Option.getD_some]
          rw [houtcome]
          exact Inquiry.lookups_disjunction (plan.lookups_render h f hf)
            (lookups_fragments h rest more hmore)

/-- A comparison that is reached is one of a candidate. -/
theorem mentions_of_mem_reachedBy : ∀ {candidates : List Permission} {c : Comparison},
    c ∈ reachedBy r s subject candidates → Mentions candidates c
  | p :: rest, c, hc => by
      rcases List.mem_append.mp hc with hc | hc
      · cases hp : p.plan with
        | none =>
            rw [hp] at hc
            cases hc
        | some plan =>
            rw [hp] at hc
            exact ⟨p, List.mem_cons_self, plan, hp, plan.mem_of_reached hc⟩
      · split at hc
        · obtain ⟨p', hp', hmentions⟩ := mentions_of_mem_reachedBy hc
          exact ⟨p', List.mem_cons_of_mem p hp', hmentions⟩
        · cases hc

end reached

section request
variable {r : Registry} {q : Request} {ps : Permissions} {a : Action} {subject : Resource}

/-- A check looks up what deciding the comparisons that it comes to does. -/
theorem lookups_check (ha : r.resolveAction q.type q.action = .ok a) :
    (q.check r ps subject []).lookups =
      total (fun c => (c.evaluate r ⟨q.principal, q.type, []⟩ subject).lookups)
        (q.reached r ps subject) := by
  rw [check_eq_firstGrant ha, Inquiry.lookups_map_pure, lookups_firstGrant]
  rfl

/-- Deciding what is selected looks up what deciding the filters of the comparisons that the check
comes to does. -/
theorem lookups_selection
    (h : Agreement.sameOutcome.OnComparisons r ⟨q.principal, q.type, []⟩ subject)
    (ha : r.resolveAction q.type q.action = .ok a) {selection : Selection RecordFilter}
    (hq : q.filter r ps (RecordFilter.language r) (RecordFilter.rootOf q.type) = .ok selection) :
    (selection.holds r subject).lookups =
      total (filterLookups r ⟨q.principal, q.type, []⟩ subject) (q.reached r ps subject) := by
  unfold reached
  rw [filter, candidates_ok ha, ok_bind] at hq
  cases hfound : ps.candidates q.principal q.type q.action with
  | nil =>
      rw [hfound] at hq
      cases hq
      rfl
  | cons p rest =>
      rw [hfound] at hq
      obtain ⟨fs, hfs, hq⟩ := bind_eq_ok.mp hq
      cases hq
      show ((combine (RecordFilter.language r) fs).holds r subject).lookups = _
      rw [holds_combine]
      exact lookups_fragments h (p :: rest) fs hfs

end request

end Request

/-! ### Tasks of one case -/

namespace Office

def busyRegistry : Registry := ⟨[busyCases, tasks].map (·.provider busyCatalog)⟩

/-- Users may view a task if its case has a task of an urgent case. -/
def roundRule : Permission where
  id := Permissions.idOf "user" ⟨"task", "view"⟩ 0
  role := "user"
  action := ⟨"task", "view"⟩
  condition := some
    (.compare "relatedCase.tasks.relatedCase.urgent" .equals (.literal (.infer (.boolean true))))
  plan := some (.compare
    ⟨⟨["relatedCase", "tasks", "relatedCase"], "urgent"⟩, .equals, .value (.boolean true), .boolean⟩)

/-- The filter that the rule makes. -/
def roundFilter : RecordFilter :=
  .traverse "task" "relatedCase" (.traverse "case" "tasks" urgentFilter)

/-- The filter of the rule for one task. -/
def looseFilter : RecordFilter := .compare "id" .equals (.string "t3")

end Office

namespace Request

/-- Over a catalog, deciding the filter of a request for a record looks up no more than the check
does.  Both look up the same if no path of a candidate has more than one relation, and neither looks
anything up if no comparison that is reached leads along relations. -/
theorem lookups_filter_le_check {c : Catalog} {declarations : List Declaration} {r : Registry}
    (hr : c.registry declarations = .ok r) (q : Request) (ps : Permissions)
    {selection : Selection RecordFilter}
    (hq : q.filter r ps (RecordFilter.language r) (RecordFilter.rootOf q.type) = .ok selection)
    (subject : Resource) :
    (selection.holds r subject).lookups ≤ (q.check r ps subject []).lookups ∧
    ((∀ c, Mentions (ps.candidates q.principal q.type q.action) c → c.path.relations.length ≤ 1) →
      (selection.holds r subject).lookups = (q.check r ps subject []).lookups) ∧
    ((∀ c ∈ q.reached r ps subject, c.path.relations = []) →
      (selection.holds r subject).lookups = 0 ∧ (q.check r ps subject []).lookups = 0) := by
  have hanswers := Catalog.registry_answers hr
  have hsame := sameOutcome_onComparisons hanswers q.principal q.type subject
  obtain ⟨found, hfound, -⟩ := bind_eq_ok.mp hq
  obtain ⟨a, ha⟩ : ∃ a, r.resolveAction q.type q.action = .ok a :=
    resolveAction_of_candidates hfound
  rw [lookups_check ha, lookups_selection hsame ha hq]
  refine ⟨?more, ?same, ?none⟩
  case more => exact Comparison.total_le fun c _ => Comparison.filterLookups_le_evaluate hanswers rfl c
  case same =>
    intro hlength
    refine Comparison.total_congr fun c hc => Comparison.filterLookups_eq_evaluate rfl ?_
    exact hlength c (mentions_of_mem_reachedBy hc)
  case none =>
    intro hpath
    have hzero : ∀ c ∈ q.reached r ps subject,
        (c.evaluate r ⟨q.principal, q.type, []⟩ subject).lookups = 0 :=
      fun c hc => Comparison.lookups_evaluate_of_field (hpath c hc)
    refine ⟨Comparison.total_eq_zero fun c hc => ?_, Comparison.total_eq_zero hzero⟩
    have hlength : c.path.relations.length ≤ 1 := by simp [hpath c hc]
    rw [Comparison.filterLookups_eq_evaluate rfl hlength, hzero c hc]

/-- The check asks for the cases of both tasks of a case, and the filter stops at the first of them.
For the case of a task alone both ask once, and for its id neither asks. -/
theorem lookups_filter_le_check_office :
    ((Office.roundFilter.holds Office.busyRegistry Office.openTask.view).lookups = 3 ∧
      (Office.request.check Office.busyRegistry [Office.roundRule] Office.openTask.view []).lookups = 4 ∧
      (Office.roundFilter.holds Office.busyRegistry Office.openTask.view).lookups ≤
        (Office.request.check Office.busyRegistry [Office.roundRule] Office.openTask.view []).lookups) ∧
    (Office.urgentFilter.holds Office.busyRegistry Office.openTask.view).lookups =
      (Office.request.check Office.busyRegistry [Office.urgentRule] Office.openTask.view []).lookups ∧
    (Office.looseFilter.holds Office.busyRegistry Office.openTask.view).lookups = 0 ∧
    (Office.clerk.check Office.busyRegistry [Office.looseRule] Office.openTask.view []).lookups = 0 := by
  have hr : Office.busyCatalog.registry [Office.busyCases, Office.tasks] = .ok Office.busyRegistry := rfl
  refine ⟨⟨rfl, rfl, ?more⟩, ?same, ?none⟩
  case more =>
    have hq : Office.request.filter Office.busyRegistry [Office.roundRule]
        (RecordFilter.language Office.busyRegistry) (RecordFilter.rootOf "task") =
        .ok ⟨[Office.roundRule], some Office.roundFilter⟩ := rfl
    exact (lookups_filter_le_check hr _ _ hq Office.openTask.view).1
  case same =>
    have hq : Office.request.filter Office.busyRegistry [Office.urgentRule]
        (RecordFilter.language Office.busyRegistry) (RecordFilter.rootOf "task") =
        .ok ⟨[Office.urgentRule], some Office.urgentFilter⟩ := rfl
    refine (lookups_filter_le_check hr _ _ hq Office.openTask.view).2.1 ?_
    rintro c ⟨p, hp, plan, hplan, hc⟩
    cases List.mem_singleton.mp hp
    cases hplan
    cases List.mem_singleton.mp hc
    exact Nat.le_refl 1
  case none =>
    have hq : Office.clerk.filter Office.busyRegistry [Office.looseRule]
        (RecordFilter.language Office.busyRegistry) (RecordFilter.rootOf "task") =
        .ok ⟨[Office.looseRule], some Office.looseFilter⟩ := rfl
    refine (lookups_filter_le_check hr _ _ hq Office.openTask.view).2.2 ?_
    intro c hc
    cases List.mem_singleton.mp hc
    rfl

end Request

end AccessControl
