import AccessControl.Proofs.Decision
import AccessControl.Proofs.Plan
import AccessControl.Proofs.Rules

/-! # What can fail at request time

Whatever is wrong with a configuration is found when it is loaded.  A request with a known action
fails only because the principal lacks an attribute that a candidate refers to, or holds one of
another type (`IsBindFailure`), because a field holds a value of another type, or because a provider
fails (`IsReadFailure`).  The paths of loaded permissions lead along relations and types that the
registry knows (`Registry.Knows`), so that looking these up never fails (`failures_of_request`).

A plan fails only as its comparisons do, and so does everything that is made of plans; `FailsOnly` is
what the steps of a decision keep. -/

namespace AccessControl

/-! ### Failures of requests -/

/-- Failures of reading the values that a decision compares: a field holds something else than a value
of the declared type, or a provider fails to give related resources. -/
inductive IsReadFailure (r : Registry) : Failure → Prop where
  | field (name expected found : String) : IsReadFailure r (.fieldType name expected found)
  | provider {p : Provider} {subject : Resource} {name : String} {e : Failure}
      (mem : p ∈ r.providers) (fails : p.related subject name = .error e) : IsReadFailure r e

/-- An attribute of the principal that the condition of one of the permissions refers to. -/
def RefersTo (permissions : List Permission) (name : String) : Prop :=
  ∃ p ∈ permissions, ∃ plan, p.plan = some plan ∧ ∃ c ∈ plan.comparisons, c.operand = .attribute name

/-- Failures of binding the attributes that permissions refer to: the principal lacks one, or its value
cannot be read as the declared type. -/
inductive IsBindFailure (permissions : List Permission) : Failure → Prop where
  | missing {name : String} (refers : RefersTo permissions name) :
      IsBindFailure permissions (.missingAttribute name)
  | mismatch {name : String} (reason : String) (refers : RefersTo permissions name) :
      IsBindFailure permissions (.typeMismatch ("principal." ++ name) reason)

/-! ### Comparing field values -/

section compare
variable {r : Registry}

theorem failsOnly_coerceField (field : String) (declared : ValueType) (actual : Value) :
    FailsOnly (IsReadFailure r) (coerceField field declared actual) := by
  unfold coerceField
  split
  · exact .ok _
  · exact .error (.field _ _ _)

theorem failsOnly_holdsItem (field : String) (declared : ValueType) (expected : Value) :
    ∀ items, FailsOnly (IsReadFailure r) (holdsItem field declared expected items)
  | [] => .ok _
  | item :: rest => by
      unfold holdsItem
      split
      · exact failsOnly_holdsItem field declared expected rest
      · exact (failsOnly_coerceField field declared item).bind fun _ _ => by
          split
          · exact .ok _
          · exact failsOnly_holdsItem field declared expected rest

theorem failsOnly_holdsWithin (field : String) (declared : ValueType) (actual expected : Value) :
    FailsOnly (IsReadFailure r) (holdsWithin field declared actual expected) := by
  unfold holdsWithin
  split
  · exact .ok _
  · exact failsOnly_holdsItem field declared expected _
  · exact .error (.field _ _ _)

theorem failsOnly_comparePresent (field : String) (declared : ValueType) (operator : Operator)
    (actual expected : Value) :
    FailsOnly (IsReadFailure r) (comparePresent field declared operator actual expected) := by
  have hcoerce := failsOnly_coerceField (r := r) field declared actual
  cases operator with
  | contains => exact failsOnly_holdsWithin field declared actual expected
  | equals => exact hcoerce.bind fun _ _ => .ok _
  | notEquals => exact hcoerce.bind fun _ _ => .ok _
  | isIn => exact hcoerce.bind fun _ _ => .ok _
  | greater => exact hcoerce.bind fun _ _ => .ok _
  | less => exact hcoerce.bind fun _ _ => .ok _

/-- Comparing a field value fails only where the value cannot be read. -/
theorem failsOnly_compareField (field : String) (actual? : Option Value) (operator : Operator)
    (expected : Value) : FailsOnly (IsReadFailure r) (compareField field actual? operator expected) := by
  unfold compareField
  dsimp only
  split
  · exact .ok _
  · split
    · exact .ok _
    · exact failsOnly_comparePresent field _ operator _ expected

theorem failsOnly_compareSome (field : String) (operator : Operator) (expected : Value) :
    ∀ xs, FailsOnly (IsReadFailure r) (compareSome field operator expected xs)
  | [] => .ok _
  | x :: xs => by
      have htest := failsOnly_compareField (r := r) field (x.field field) operator expected
      exact htest.branch (.ok _) (failsOnly_compareSome field operator expected xs)

end compare

/-! ### Following known paths -/

namespace Registry

variable {r : Registry}

/-- A path on which the registry has every relation, and a provider for every type. -/
def Knows (r : Registry) (type : String) : List String → Prop
  | [] => ∃ p, r.provider type = .ok p
  | name :: rest => (∃ p, r.provider type = .ok p) ∧
      ∃ found, r.relation type name = .ok found ∧ r.Knows found.target rest

/-- A path on which the registry has every relation can be followed. -/
theorem Knows.exists_follow : ∀ {path : List String} {type : String}, r.Knows type path →
    ∃ target, Plan.follow r type path = .ok target
  | [], type, _ => ⟨type, rfl⟩
  | _ :: _, _, ⟨_, _, hfound, hrest⟩ => by
      obtain ⟨target, htarget⟩ := hrest.exists_follow
      exact ⟨target, bind_eq_ok.mpr ⟨_, hfound, htarget⟩⟩

/-- In a registry that was built, a path that can be followed from a type with a provider leads to
types with providers only. -/
theorem knows_of_follow {ps : List Provider} (hr : build ps = .ok r) :
    ∀ (path : List String) (type : String) {p : Provider} {target : String},
    r.provider type = .ok p → Plan.follow r type path = .ok target → r.Knows type path
  | [], _, p, _, hp, _ => ⟨p, hp⟩
  | name :: rest, type, p, target, hp, hf => by
      obtain ⟨found, hfound, hf⟩ := bind_eq_ok.mp hf
      obtain ⟨next, hnext⟩ := build_known hr hfound
      exact ⟨⟨p, hp⟩, found, hfound, knows_of_follow hr rest found.target hnext hf⟩

/-- Asking the provider of a type fails only as the provider does. -/
theorem failsOnly_ask {type : String} {p : Provider} (hp : r.provider type = .ok p)
    (subject : Resource) (name : String) :
    FailsOnly (IsReadFailure r) (r.ask type subject name).outcome := by
  intro e h
  simp only [ask, hp, Inquiry.lift_ok, pure_bind, Inquiry.outcome_asked] at h
  exact .provider (provider_ok hp).1 h

variable {type name : String} {found : Relation}

theorem failsOnly_related {p : Provider} (hp : r.provider type = .ok p)
    (hfound : r.relation type name = .ok found) (subject : Resource) :
    FailsOnly (IsReadFailure r) (r.related type subject name).outcome := by
  rw [outcome_related hfound]
  exact (failsOnly_ask hp subject name).bind fun _ _ => .ok _

theorem failsOnly_relatedToAll {p : Provider} (hp : r.provider type = .ok p)
    (hfound : r.relation type name = .ok found) :
    ∀ xs, FailsOnly (IsReadFailure r) (r.relatedToAll type name xs).outcome
  | [] => .ok _
  | x :: xs => by
      simp only [relatedToAll, Inquiry.outcome_bind]
      refine (failsOnly_related hp hfound x).bind fun _ _ => ?_
      exact (failsOnly_relatedToAll hp hfound xs).bind fun _ _ => .ok _

theorem failsOnly_reachFrom : ∀ (path : List String) (type : String) (xs : List Resource),
    r.Knows type path → FailsOnly (IsReadFailure r) (r.reachFrom type xs path).outcome
  | [], _, xs, _ => .ok xs
  | name :: rest, type, xs, ⟨⟨p, hp⟩, found, hfound, hrest⟩ => by
      unfold reachFrom
      split
      · exact .ok _
      · simp only [hfound, Inquiry.lift_ok, pure_bind, Inquiry.outcome_bind]
        exact (failsOnly_relatedToAll hp hfound xs).bind fun next _ =>
          failsOnly_reachFrom rest found.target next hrest

/-- A known first step fails only as a provider does, whether or not the caller holds it already; and
it leads to the target of the relation. -/
theorem failsOnly_firstStep {p : Provider} (hp : r.provider type = .ok p)
    (hfound : r.relation type name = .ok found) (subject : Resource) (context : Context) :
    FailsOnly (IsReadFailure r) (r.firstStep type subject name context).outcome ∧
      ∀ a, (r.firstStep type subject name context).outcome = .ok a → a.1 = found.target := by
  unfold firstStep
  split
  · simp only [hfound, Inquiry.lift_ok, pure_bind, Inquiry.outcome_pure]
    exact ⟨.ok _, fun a ha => by cases ha; rfl⟩
  · refine ⟨failsOnly_related hp hfound subject, fun a ha => ?_⟩
    rw [outcome_related hfound] at ha
    obtain ⟨reached, -, ha⟩ := bind_eq_ok.mp ha
    cases ha
    rfl

/-- Following a known path fails only as a provider does. -/
theorem failsOnly_reach (subject : Resource) (context : Context) : ∀ path : List String,
    r.Knows type path → FailsOnly (IsReadFailure r) (r.reach type subject path context).outcome
  | [], _ => .ok _
  | name :: rest, ⟨⟨p, hp⟩, found, hfound, hrest⟩ => by
      obtain ⟨hstep, htarget⟩ := failsOnly_firstStep hp hfound subject context
      simp only [reach, Inquiry.outcome_bind]
      refine hstep.bind fun a ha => ?_
      have htarget := htarget a ha
      rw [← htarget] at hrest
      exact failsOnly_reachFrom rest a.1 a.2.toList hrest

end Registry

/-! ### Plans -/

/-- Binding the right side of a comparison fails only for an attribute that it refers to. -/
theorem Comparison.failsOnly_expected {permissions : List Permission} (c : Comparison)
    (h : ∀ name, c.operand = .attribute name → RefersTo permissions name) (p : Principal) :
    FailsOnly (IsBindFailure permissions) (c.expected p) := by
  unfold expected
  split
  · exact .ok _
  · rename_i name hname
    unfold attributeValue
    split
    · exact .error (.missing (h name hname))
    · split
      · exact .ok _
      · exact .error (.mismatch _ (h name hname))

theorem Comparison.failsOnly_evaluate {P : Failure → Prop} {r : Registry} {s : Scope} {c : Comparison}
    (hbind : FailsOnly P (c.expected s.principal)) (hread : ∀ e, IsReadFailure r e → P e)
    (hpath : r.Knows s.type c.path.relations) (subject : Resource) :
    FailsOnly P (c.evaluate r s subject).outcome := by
  simp only [evaluate, Inquiry.outcome_bind, Inquiry.outcome_lift]
  refine hbind.bind fun v _ => ?_
  split
  · exact (failsOnly_compareField _ _ _ v).mono hread
  · simp only [Inquiry.outcome_bind, Inquiry.outcome_lift]
    refine ((Registry.failsOnly_reach subject s.context _ hpath).mono hread).bind fun ys _ => ?_
    exact (failsOnly_compareSome _ _ v ys).mono hread

/-- A path that can be followed can be traversed from where it starts. -/
theorem RecordFilter.traverseAll_of_follow {r : Registry} : ∀ (path : List String) (scope : Reached)
    {target : String}, Plan.follow r scope.type path = .ok target →
    ∃ reached, (language r).traverseAll scope path = .ok reached
  | [], scope, _, _ => ⟨scope, rfl⟩
  | name :: rest, scope, _, h => by
      obtain ⟨found, hfound, hrest⟩ := bind_eq_ok.mp h
      obtain ⟨reached, hreached⟩ :=
        traverseAll_of_follow rest ⟨found.target, (scope.type, name) :: scope.hops⟩ hrest
      refine ⟨reached, ?_⟩
      simp only [FilterLanguage.traverseAll, language, hfound, ok_bind]
      exact hreached

/-- Rendering a comparison whose path is known fails only where its right side cannot be bound. -/
theorem Comparison.failsOnly_render {P : Failure → Prop} {r : Registry} {type : String} {p : Principal}
    {c : Comparison} (hbind : FailsOnly P (c.expected p)) (hpath : r.Knows type c.path.relations) :
    FailsOnly P (c.render (RecordFilter.language r) (RecordFilter.rootOf type) p) := by
  obtain ⟨target, htarget⟩ := hpath.exists_follow
  obtain ⟨reached, hreached⟩ :=
    RecordFilter.traverseAll_of_follow _ (RecordFilter.rootOf type) htarget
  refine hbind.bind fun v _ => ?_
  rw [hreached, ok_bind]
  exact .ok _

namespace Plan

section evaluate
variable {P : Failure → Prop} {r : Registry} {s : Scope} {subject : Resource}

mutual

/-- A plan fails only as its comparisons do. -/
theorem failsOnly_evaluate : ∀ plan : Plan,
    (∀ c ∈ plan.comparisons, FailsOnly P (c.evaluate r s subject).outcome) →
    FailsOnly P (plan.evaluate r s subject).outcome
  | .compare c, h => h c (List.mem_singleton.mpr rfl)
  | .all parts, h => failsOnly_evaluateAll parts h
  | .any parts, h => failsOnly_evaluateAny parts h
  | .not inner, h => by
      simp only [evaluate, Inquiry.outcome_bind]
      exact (failsOnly_evaluate inner h).bind fun _ _ => .ok _

theorem failsOnly_evaluateAll : ∀ parts : List Plan,
    (∀ c ∈ comparisonsOf parts, FailsOnly P (c.evaluate r s subject).outcome) →
    FailsOnly P (evaluateAll r s subject parts).outcome
  | [], _ => .ok _
  | part :: rest, h => by
      obtain ⟨hpart, hrest⟩ := List.forall_mem_append.mp h
      exact Inquiry.failsOnly_branch (failsOnly_evaluate part hpart)
        (failsOnly_evaluateAll rest hrest) (.ok _)

theorem failsOnly_evaluateAny : ∀ parts : List Plan,
    (∀ c ∈ comparisonsOf parts, FailsOnly P (c.evaluate r s subject).outcome) →
    FailsOnly P (evaluateAny r s subject parts).outcome
  | [], _ => .ok _
  | part :: rest, h => by
      obtain ⟨hpart, hrest⟩ := List.forall_mem_append.mp h
      exact Inquiry.failsOnly_branch (failsOnly_evaluate part hpart) (.ok _)
        (failsOnly_evaluateAny rest hrest)

end

end evaluate

section render
variable {P : Failure → Prop} {Place Fragment : Type} {l : FilterLanguage Place Fragment}
  {place : Place} {p : Principal}

mutual

/-- Rendering a plan fails only as rendering its comparisons does. -/
theorem failsOnly_render : ∀ plan : Plan,
    (∀ c ∈ plan.comparisons, FailsOnly P (c.render l place p)) → FailsOnly P (plan.render l place p)
  | .compare c, h => h c (List.mem_singleton.mpr rfl)
  | .all parts, h => (failsOnly_renderParts parts h).bind fun _ _ => .ok _
  | .any parts, h => (failsOnly_renderParts parts h).bind fun _ _ => .ok _
  | .not inner, h => (failsOnly_render inner h).bind fun _ _ => .ok _

theorem failsOnly_renderParts : ∀ parts : List Plan,
    (∀ c ∈ comparisonsOf parts, FailsOnly P (c.render l place p)) →
    FailsOnly P (renderParts l place p parts)
  | [], _ => .ok _
  | part :: rest, h => by
      obtain ⟨hpart, hrest⟩ := List.forall_mem_append.mp h
      refine (failsOnly_render part hpart).bind fun _ _ => ?_
      exact (failsOnly_renderParts rest hrest).bind fun _ _ => .ok _

end

end render

end Plan

/-! ### Filters of records -/

namespace RecordFilter

mutual

/-- A filter that follows known relations of types with providers only. -/
def IsKnown (r : Registry) : RecordFilter → Prop
  | .always => True
  | .compare _ _ _ => True
  | .traverse type name inner =>
    (∃ p, r.provider type = .ok p) ∧ (∃ found, r.relation type name = .ok found) ∧ inner.IsKnown r
  | .all parts => AreKnown r parts
  | .any parts => AreKnown r parts
  | .not inner => inner.IsKnown r

/-- Filters that follow known relations of types with providers only. -/
def AreKnown (r : Registry) : List RecordFilter → Prop
  | [] => True
  | part :: rest => part.IsKnown r ∧ AreKnown r rest

end

section holds
variable {r : Registry}

theorem failsOnly_holdsForSome {P : Failure → Prop} {test : Resource → Inquiry Bool}
    (h : ∀ x, FailsOnly P (test x).outcome) :
    ∀ xs, FailsOnly P (holdsForSome test xs).outcome
  | [] => .ok _
  | x :: xs => Inquiry.failsOnly_branch (h x) (.ok _) (failsOnly_holdsForSome h xs)

mutual

/-- Deciding a filter of known relations fails only where a value cannot be read. -/
theorem failsOnly_holds : ∀ (f : RecordFilter), f.IsKnown r → ∀ subject,
    FailsOnly (IsReadFailure r) (f.holds r subject).outcome
  | .always, _, _ => .ok _
  | .compare field operator value, _, subject =>
      failsOnly_compareField field (subject.field field) operator value
  | .traverse type name inner, ⟨⟨_, hp⟩, ⟨_, hfound⟩, hinner⟩, subject => by
      simp only [holds, join, Inquiry.outcome_bind]
      refine FailsOnly.bind ?_ fun reached _ => failsOnly_holdsForSome (failsOnly_holds inner hinner) _
      exact (Registry.failsOnly_related hp hfound subject).bind fun _ _ => .ok _
  | .all parts, h, subject => failsOnly_holdsAll parts h subject
  | .any parts, h, subject => failsOnly_holdsAny parts h subject
  | .not inner, h, subject => by
      simp only [holds, Inquiry.outcome_bind]
      exact (failsOnly_holds inner h subject).bind fun _ _ => .ok _

theorem failsOnly_holdsAll : ∀ (parts : List RecordFilter), AreKnown r parts → ∀ subject,
    FailsOnly (IsReadFailure r) (holdsAll r subject parts).outcome
  | [], _, _ => .ok _
  | part :: rest, ⟨hpart, hrest⟩, subject =>
      Inquiry.failsOnly_branch (failsOnly_holds part hpart subject)
        (failsOnly_holdsAll rest hrest subject) (.ok _)

theorem failsOnly_holdsAny : ∀ (parts : List RecordFilter), AreKnown r parts → ∀ subject,
    FailsOnly (IsReadFailure r) (holdsAny r subject parts).outcome
  | [], _, _ => .ok _
  | part :: rest, ⟨hpart, hrest⟩, subject =>
      Inquiry.failsOnly_branch (failsOnly_holds part hpart subject) (.ok _)
        (failsOnly_holdsAny rest hrest subject)

end

end holds

/-! ### Filters made of plans -/

section render
variable {r : Registry} {type : String} {p : Principal}

theorem isKnown_along {leaf : RecordFilter} (hleaf : leaf.IsKnown r) : ∀ (path : List String)
    (type : String) {f : RecordFilter}, r.Knows type path → along r leaf type path = .ok f →
    f.IsKnown r
  | [], _, f, _, h => by
      cases h
      exact hleaf
  | name :: rest, type, f, ⟨hp, found, hfound, hrest⟩, h => by
      obtain ⟨found', hfound', h⟩ := bind_eq_ok.mp h
      obtain ⟨inner, hinner, h⟩ := bind_eq_ok.mp h
      cases h
      rw [hfound] at hfound'
      cases hfound'
      exact ⟨hp, ⟨found, hfound⟩, isKnown_along hleaf rest found.target hrest hinner⟩

mutual

/-- A plan whose paths are known makes a filter of known relations. -/
theorem isKnown_render : ∀ (plan : Plan) {f : RecordFilter},
    (∀ c ∈ plan.comparisons, r.Knows type c.path.relations) →
    plan.render (language r) (rootOf type) p = .ok f → f.IsKnown r
  | .compare c, f, h, hf => by
      obtain ⟨v, -, hf⟩ := render_comparison hf
      have hleaf : (RecordFilter.compare c.path.field c.operator v).IsKnown r := trivial
      exact isKnown_along hleaf _ type (h c (List.mem_singleton.mpr rfl)) hf
  | .all parts, f, h, hf => by
      obtain ⟨fs, hfs, hf⟩ := bind_eq_ok.mp hf
      cases hf
      exact areKnown_renderParts parts h hfs
  | .any parts, f, h, hf => by
      obtain ⟨fs, hfs, hf⟩ := bind_eq_ok.mp hf
      cases hf
      exact areKnown_renderParts parts h hfs
  | .not inner, f, h, hf => by
      obtain ⟨g, hg, hf⟩ := bind_eq_ok.mp hf
      cases hf
      have hknown : g.IsKnown r := isKnown_render inner h hg
      exact hknown

theorem areKnown_renderParts : ∀ (parts : List Plan) {fs : List RecordFilter},
    (∀ c ∈ Plan.comparisonsOf parts, r.Knows type c.path.relations) →
    Plan.renderParts (language r) (rootOf type) p parts = .ok fs → AreKnown r fs
  | [], fs, _, hfs => by
      cases hfs
      trivial
  | part :: rest, fs, h, hfs => by
      obtain ⟨hpart, hrest⟩ := List.forall_mem_append.mp h
      obtain ⟨f, hf, hfs⟩ := bind_eq_ok.mp hfs
      obtain ⟨more, hmore, hfs⟩ := bind_eq_ok.mp hfs
      cases hfs
      exact ⟨isKnown_render part hpart hf, areKnown_renderParts rest hrest hmore⟩

end

end render

end RecordFilter

/-! ### Requests -/

/-- Permissions whose plans lead along known paths from a type. -/
def PathsKnown (r : Registry) (type : String) (permissions : List Permission) : Prop :=
  ∀ p ∈ permissions, ∀ plan, p.plan = some plan → ∀ c ∈ plan.comparisons,
    r.Knows type c.path.relations

namespace Request

section candidates
variable {P : Failure → Prop} {r : Registry} {s : Scope} {subject : Resource}

/-- Looking for a grant fails only as the comparisons of the candidates do. -/
theorem failsOnly_firstGrant : ∀ candidates : List Permission,
    (∀ p ∈ candidates, ∀ plan, p.plan = some plan → ∀ c ∈ plan.comparisons,
      FailsOnly P (c.evaluate r s subject).outcome) →
    FailsOnly P (firstGrant r s subject candidates).outcome
  | [], _ => .ok _
  | p :: rest, h => by
      obtain ⟨hp, hrest⟩ := List.forall_mem_cons.mp h
      have hpermits : FailsOnly P (permits r s subject p).outcome := by
        unfold permits
        split
        · rename_i plan hplan
          exact plan.failsOnly_evaluate (hp plan hplan)
        · exact .ok _
      exact Inquiry.failsOnly_branch hpermits (.ok _) (failsOnly_firstGrant rest hrest)

theorem failsOnly_fragments {Place Fragment : Type} {l : FilterLanguage Place Fragment} {place : Place}
    {principal : Principal} : ∀ candidates : List Permission,
    (∀ p ∈ candidates, ∀ plan, p.plan = some plan → ∀ c ∈ plan.comparisons,
      FailsOnly P (c.render l place principal)) →
    FailsOnly P (fragments l place principal candidates)
  | [], _ => .ok _
  | p :: rest, h => by
      obtain ⟨hp, hrest⟩ := List.forall_mem_cons.mp h
      unfold fragments
      split
      · exact .ok _
      · rename_i plan hplan
        refine (plan.failsOnly_render (hp plan hplan)).bind fun _ _ => ?_
        exact (failsOnly_fragments rest hrest).bind fun _ _ => .ok _

theorem areKnown_fragments {type : String} {principal : Principal} : ∀ (candidates : List Permission)
    {fs : List RecordFilter}, PathsKnown r type candidates →
    fragments (RecordFilter.language r) (RecordFilter.rootOf type) principal candidates = .ok fs →
    RecordFilter.AreKnown r fs
  | [], fs, _, hfs => by
      cases hfs
      trivial
  | p :: rest, fs, h, hfs => by
      obtain ⟨hp, hrest⟩ := List.forall_mem_cons.mp h
      unfold fragments at hfs
      split at hfs
      · cases hfs
        exact ⟨trivial, trivial⟩
      · rename_i plan hplan
        obtain ⟨f, hf, hfs⟩ := bind_eq_ok.mp hfs
        obtain ⟨more, hmore, hfs⟩ := bind_eq_ok.mp hfs
        cases hfs
        exact ⟨RecordFilter.isKnown_render plan (hp plan hplan) hf,
          areKnown_fragments rest hrest hmore⟩

end candidates

section request
variable {providers : List Provider} {r : Registry} {q : Request} {a : Action}
  {ds : List Definition} {ps : Permissions}

/-- The comparisons of a request's candidates are well typed for its type. -/
theorem wellTyped_candidates (hr : Registry.build providers = .ok r)
    (hps : Permissions.load r ds = .ok ps) {p : Permission}
    (hp : p ∈ ps.candidates q.principal q.type q.action) {plan : Plan} (hplan : p.plan = some plan) :
    ∀ c ∈ plan.comparisons, c.WellTyped r q.type := by
  obtain ⟨hmem, -, htype, -⟩ := Permissions.mem_candidates.mp hp
  obtain ⟨d, -, henacts⟩ := Permissions.exists_enacts hr hps hmem
  obtain ⟨condition, -, hcompile⟩ := henacts.compile_plan hplan
  rw [← henacts.type, htype] at hcompile
  exact Plan.compile_wellTyped hcompile

/-- The paths of a request's candidates are known from its type. -/
theorem pathsKnown_candidates (hr : Registry.build providers = .ok r)
    (hps : Permissions.load r ds = .ok ps) (ha : r.resolveAction q.type q.action = .ok a) :
    PathsKnown r q.type (ps.candidates q.principal q.type q.action) := by
  obtain ⟨actions, hactions, -⟩ := bind_eq_ok.mp ha
  obtain ⟨provider, hprovider, -⟩ := bind_eq_ok.mp hactions
  intro p hp plan hplan c hc
  obtain ⟨target, htarget⟩ := (wellTyped_candidates hr hps hp hplan c hc).path
  exact Registry.knows_of_follow hr _ _ hprovider htarget

/-- A request with a known action fails, in a check, only because an attribute that its candidates
refer to cannot be bound, a field holds another type of value, or a provider fails; its filter cannot
be made only for the first reason, and cannot be decided for a record only for the other two.  All
paths of the candidates lead along relations and types that the registry knows. -/
theorem failures_of_request (hr : Registry.build providers = .ok r)
    (hps : Permissions.load r ds = .ok ps) (ha : r.resolveAction q.type q.action = .ok a) :
    let found := ps.candidates q.principal q.type q.action
    (∀ subject context, FailsOnly (fun e => IsBindFailure found e ∨ IsReadFailure r e)
      (q.check r ps subject context).outcome) ∧
    FailsOnly (IsBindFailure found)
      (q.filter r ps (RecordFilter.language r) (RecordFilter.rootOf q.type)) ∧
    (∀ selection f subject,
      q.filter r ps (RecordFilter.language r) (RecordFilter.rootOf q.type) = .ok selection →
      selection.filter? = some f → FailsOnly (IsReadFailure r) (f.holds r subject).outcome) ∧
    ∀ p ∈ found, ∀ plan, p.plan = some plan → ∀ c ∈ plan.comparisons,
      r.Knows q.type c.path.relations := by
  intro found
  have hknown : PathsKnown r q.type found := pathsKnown_candidates hr hps ha
  have hrefers : ∀ p ∈ found, ∀ plan, p.plan = some plan → ∀ c ∈ plan.comparisons,
      FailsOnly (IsBindFailure found) (c.expected q.principal) := by
    intro p hp plan hplan c hc
    exact c.failsOnly_expected (fun _ hname => ⟨p, hp, plan, hplan, c, hc, hname⟩) q.principal
  have hfound := @candidates_ok r q a ps ha
  refine ⟨fun subject context => ?_, ?_, ?_, hknown⟩
  · rw [check_eq_firstGrant ha, Inquiry.outcome_bind]
    refine (failsOnly_firstGrant found fun p hp plan hplan c hc => ?_).bind fun _ _ => .ok _
    exact Comparison.failsOnly_evaluate ((hrefers p hp plan hplan c hc).mono fun _ => .inl)
      (fun _ => .inr) (hknown p hp plan hplan c hc) subject
  · unfold filter
    rw [hfound, ok_bind]
    split
    · exact .ok _
    · refine (failsOnly_fragments found fun p hp plan hplan c hc => ?_).bind fun _ _ => .ok _
      exact Comparison.failsOnly_render (hrefers p hp plan hplan c hc) (hknown p hp plan hplan c hc)
  · intro selection f subject hq hf
    unfold filter at hq
    rw [hfound, ok_bind] at hq
    split at hq
    · cases hq
      cases hf
    · obtain ⟨fs, hfs, hq⟩ := bind_eq_ok.mp hq
      cases hq
      cases hf
      rw [holds_combine]
      exact RecordFilter.failsOnly_holdsAny fs (areKnown_fragments found hknown hfs) subject

/-- Where the case of an archived task cannot be told, the check of the task fails as the provider
does. -/
theorem failures_of_request_office :
    ∃ ps, Permissions.load Office.faultyRegistry [⟨"user", "task", "view", some Office.isUrgent⟩] =
        .ok ps ∧
      (Office.request.check Office.faultyRegistry ps Office.archivedTask []).outcome =
        .error (.io "no such file") ∧
      IsReadFailure Office.faultyRegistry (.io "no such file") ∧
      Office.faultyRegistry.Knows "task" ["relatedCase"] := by
  have hr : Registry.build Office.faultyRegistry.providers = .ok Office.faultyRegistry := rfl
  have hps : Permissions.load Office.faultyRegistry
      [⟨"user", "task", "view", some Office.isUrgent⟩] = .ok [Office.urgentRule] := rfl
  have ha : Office.faultyRegistry.resolveAction "task" "view" = .ok ⟨"task", "view"⟩ := rfl
  have hcheck : (Office.request.check Office.faultyRegistry [Office.urgentRule] Office.archivedTask
      []).outcome = .error (.io "no such file") := rfl
  obtain ⟨checks, -, -, paths⟩ := failures_of_request (q := Office.request) hr hps ha
  refine ⟨_, hps, hcheck, ?_, ?_⟩
  · rcases checks Office.archivedTask [] _ hcheck with hbind | hread
    · cases hbind
    · exact hread
  · exact paths Office.urgentRule List.mem_cons_self _ rfl _ List.mem_cons_self

end request

end Request
end AccessControl
