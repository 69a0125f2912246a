import AccessControl.Proofs.Dependence
import AccessControl.Proofs.Extension
import AccessControl.Proofs.Registration

/-! # Further types of resources

A registry that was built of more providers knows the old types as before (`Registry.Within`).  What
starts at an old type meets old types only, since relations lead to types that are registered with
them; so whatever was possible with the old providers is done in the same way with the new ones beside
them (`undisturbed`).

A condition can be compiled for a type without a provider too, as long as it follows no relations.
That a condition keeps its plan is therefore shown for every type at once (`Plan.compile_ok_of_within`),
from the relations that were found; all else is shown for types with a provider, failures included. -/

namespace AccessControl

variable {providers providers' : List Provider} {r r' : Registry} {type : String} {provider : Provider}

/-! ### Compiling -/

/-- A relation that was found is found again. -/
theorem Registry.relation_ok_of_within (h : r.Within r') {name : String} {found : Relation}
    (hfound : r.relation type name = .ok found) : r'.relation type name = .ok found := by
  obtain ⟨p, hp, -⟩ := bind_eq_ok.mp hfound
  rw [relation_of_within h hp, hfound]

namespace Plan

theorem follow_ok_of_within (h : r.Within r') {target : String} : ∀ {path : List String}
    {type : String}, follow r type path = .ok target → follow r' type path = .ok target
  | [], _, htarget => htarget
  | name :: rest, type, htarget => by
      obtain ⟨found, hfound, htarget⟩ := bind_eq_ok.mp htarget
      rw [follow, Registry.relation_ok_of_within h hfound, ok_bind]
      exact follow_ok_of_within h htarget

theorem compilePath_ok_of_within (h : r.Within r') {field : String} {path : FieldPath}
    (hpath : compilePath r type field = .ok path) : compilePath r' type field = .ok path := by
  unfold compilePath at hpath ⊢
  by_cases hempty : (segments field).contains "" = true
  · rw [if_pos hempty] at hpath
    cases hpath
  · rw [if_neg hempty] at hpath ⊢
    obtain ⟨_, hfollow, hpath⟩ := bind_eq_ok.mp hpath
    obtain ⟨target, htarget⟩ := discard_eq_ok.mp hfollow
    exact bind_eq_ok.mpr ⟨(), discard_eq_ok.mpr ⟨target, follow_ok_of_within h htarget⟩, hpath⟩

mutual

/-- A condition that can be compiled for a type, known or not, has the same plan. -/
theorem compile_ok_of_within (h : r.Within r') : ∀ {c : Condition} {plan : Plan},
    compile r type c = .ok plan → compile r' type c = .ok plan
  | .compare field operator operand, plan, hplan => by
      obtain ⟨c, hc, hplan⟩ := bind_eq_ok.mp hplan
      obtain ⟨hpath, hrest⟩ := compileComparison_eq_ok.mp hc
      have hc' := compileComparison_eq_ok.mpr ⟨compilePath_ok_of_within h hpath, hrest⟩
      rw [compile, hc', ok_bind]
      exact hplan
  | .all parts, plan, hplan => by
      obtain ⟨plans, hplans, hplan⟩ := bind_eq_ok.mp hplan
      rw [compile, compileParts_ok_of_within h hplans, ok_bind]
      exact hplan
  | .any parts, plan, hplan => by
      obtain ⟨plans, hplans, hplan⟩ := bind_eq_ok.mp hplan
      rw [compile, compileParts_ok_of_within h hplans, ok_bind]
      exact hplan
  | .not inner, plan, hplan => by
      obtain ⟨made, hmade, hplan⟩ := bind_eq_ok.mp hplan
      rw [compile, compile_ok_of_within h hmade, ok_bind]
      exact hplan

theorem compileParts_ok_of_within (h : r.Within r') : ∀ {parts : List Condition} {plans : List Plan},
    compileParts r type parts = .ok plans → compileParts r' type parts = .ok plans
  | [], _, hplans => hplans
  | part :: rest, plans, hplans => by
      obtain ⟨plan, hplan, hplans⟩ := bind_eq_ok.mp hplans
      obtain ⟨more, hmore, hplans⟩ := bind_eq_ok.mp hplans
      rw [compileParts, compile_ok_of_within h hplan, compileParts_ok_of_within h hmore]
      exact hplans

end

end Plan

/-! ### Loading -/

theorem Registry.actionsFor_of_within (h : r.Within r') (hp : r.provider type = .ok provider) :
    r'.actionsFor type = r.actionsFor type := by
  rw [actionsFor, actionsFor, hp, h type provider hp]

namespace Permissions

/-- A definition that is accepted becomes the same permission. -/
theorem accept_ok_of_within (h : r.Within r') {loaded : Permissions} {d : Definition} {p : Permission}
    (hp : accept r loaded d = .ok p) : accept r' loaded d = .ok p := by
  unfold accept at hp ⊢
  split at hp
  · cases hp
  · rename_i hrole
    obtain ⟨action, haction, hp⟩ := bind_eq_ok.mp hp
    obtain ⟨plan, hplan, hp⟩ := bind_eq_ok.mp hp
    have haction' : actionOf r' d = .ok action := by
      obtain ⟨actions, hactions, hfound⟩ := bind_eq_ok.mp haction
      obtain ⟨known, hknown, -⟩ := bind_eq_ok.mp hactions
      rw [actionOf, Registry.actionsFor_of_within h hknown, hactions, ok_bind]
      exact hfound
    have hplan' : planOf r' d = .ok plan := by
      unfold planOf at hplan ⊢
      split at hplan
      · exact hplan
      · rename_i c _
        cases hcompile : Plan.compile r d.type c with
        | error e =>
            rw [hcompile] at hplan
            cases hplan
        | ok made =>
            rw [hcompile] at hplan
            rw [Plan.compile_ok_of_within h hcompile]
            exact hplan
    rw [if_neg hrole, haction', hplan', ok_bind, ok_bind]
    exact hp

theorem foldlM_accept_ok_of_within (h : r.Within r') : ∀ (ds : List Definition)
    {loaded all : Permissions},
    ds.foldlM (fun loaded d => return loaded ++ [← accept r loaded d]) loaded = .ok all →
    ds.foldlM (fun loaded d => return loaded ++ [← accept r' loaded d]) loaded = .ok all
  | [], _, _, hall => hall
  | d :: rest, loaded, all, hall => by
      rw [List.foldlM_cons] at hall ⊢
      obtain ⟨next, hnext, hall⟩ := bind_eq_ok.mp hall
      obtain ⟨p, hp, hnext⟩ := bind_eq_ok.mp hnext
      cases hnext
      rw [accept_ok_of_within h hp, ok_bind]
      exact foldlM_accept_ok_of_within h rest hall

/-- Definitions that are loaded become the same permissions. -/
theorem load_ok_of_within (h : r.Within r') {ds : List Definition} {ps : Permissions}
    (hps : load r ds = .ok ps) : load r' ds = .ok ps :=
  foldlM_accept_ok_of_within h ds hps

end Permissions

/-! ### Filters of records -/

namespace RecordFilter

theorem traverseAll_of_within (hr : Registry.build providers = .ok r) (h : r.Within r') :
    ∀ (path : List String) {scope : Reached} {provider : Provider},
    r.provider scope.type = .ok provider →
    (language r').traverseAll scope path = (language r).traverseAll scope path
  | [], _, _, _ => rfl
  | name :: rest, scope, provider, hp => by
      have hrelation := Registry.relation_of_within h hp name
      simp only [FilterLanguage.traverseAll, language, hrelation]
      cases hfound : r.relation scope.type name with
      | error e => rfl
      | ok found =>
          obtain ⟨next, hnext⟩ := Registry.build_known hr hfound
          exact traverseAll_of_within hr h rest hnext

/-- A comparison from an old type makes the same filter, or fails for the same reason. -/
theorem render_of_within (hr : Registry.build providers = .ok r) (h : r.Within r')
    (hp : r.provider type = .ok provider) (p : Principal) (c : Comparison) :
    c.render (language r') (rootOf type) p = c.render (language r) (rootOf type) p := by
  unfold Comparison.render
  rw [traverseAll_of_within hr h _ hp]
  rfl

mutual

theorem render_plan_of_within (hr : Registry.build providers = .ok r) (h : r.Within r')
    (hp : r.provider type = .ok provider) (p : Principal) : ∀ plan : Plan,
    plan.render (language r') (rootOf type) p = plan.render (language r) (rootOf type) p
  | .compare c => render_of_within hr h hp p c
  | .all parts => by
      rw [Plan.render, Plan.render, renderParts_of_within hr h hp p parts]
      rfl
  | .any parts => by
      rw [Plan.render, Plan.render, renderParts_of_within hr h hp p parts]
      rfl
  | .not inner => by
      rw [Plan.render, Plan.render, render_plan_of_within hr h hp p inner]
      rfl

theorem renderParts_of_within (hr : Registry.build providers = .ok r) (h : r.Within r')
    (hp : r.provider type = .ok provider) (p : Principal) : ∀ parts : List Plan,
    Plan.renderParts (language r') (rootOf type) p parts =
      Plan.renderParts (language r) (rootOf type) p parts
  | [] => rfl
  | part :: rest => by
      rw [Plan.renderParts, Plan.renderParts, render_plan_of_within hr h hp p part,
        renderParts_of_within hr h hp p rest]

end

mutual

/-- A filter of old relations holds for the same records, and is decided with the same lookups. -/
theorem holds_of_within (h : r.Within r') : ∀ (f : RecordFilter), f.IsKnown r → ∀ subject,
    f.holds r' subject = f.holds r subject
  | .always, _, _ => rfl
  | .compare _ _ _, _, _ => rfl
  | .traverse type name inner, ⟨⟨_, hp⟩, _, hinner⟩, subject => by
      have hjoin : join r' type subject name = join r type subject name := by
        rw [join, join, Registry.related_of_within h hp]
      have htest : (fun x => holds r' x inner) = fun x => holds r x inner :=
        funext fun x => holds_of_within h inner hinner x
      rw [holds, holds, hjoin, htest]
  | .all parts, hparts, subject => holdsAll_of_within h parts hparts subject
  | .any parts, hparts, subject => holdsAny_of_within h parts hparts subject
  | .not inner, hinner, subject => by
      have hsame : inner.holds r' subject = inner.holds r subject :=
        holds_of_within h inner hinner subject
      rw [holds, holds, hsame]

theorem holdsAll_of_within (h : r.Within r') : ∀ (parts : List RecordFilter), AreKnown r parts →
    ∀ subject, holdsAll r' subject parts = holdsAll r subject parts
  | [], _, _ => rfl
  | part :: rest, ⟨hpart, hrest⟩, subject => by
      rw [holdsAll, holdsAll, holds_of_within h part hpart, holdsAll_of_within h rest hrest]

theorem holdsAny_of_within (h : r.Within r') : ∀ (parts : List RecordFilter), AreKnown r parts →
    ∀ subject, holdsAny r' subject parts = holdsAny r subject parts
  | [], _, _ => rfl
  | part :: rest, ⟨hpart, hrest⟩, subject => by
      rw [holdsAny, holdsAny, holds_of_within h part hpart, holdsAny_of_within h rest hrest]

end

end RecordFilter

/-! ### Requests -/

namespace Request

variable {q : Request}

/-- A request for an old type has the same candidates, or fails for the same reason. -/
theorem candidates_of_within (h : r.Within r') (hp : r.provider q.type = .ok provider)
    (ps : Permissions) : q.candidates r' ps = q.candidates r ps := by
  rw [candidates, candidates, Registry.resolveAction, Registry.resolveAction,
    Registry.actionsFor_of_within h hp]

/-- A check for an old type has the same answer, after the same lookups. -/
theorem check_of_within (hr : Registry.build providers = .ok r) (h : r.Within r')
    (hp : r.provider q.type = .ok provider) (ps : Permissions) (subject : Resource)
    (context : Context) : q.check r' ps subject context = q.check r ps subject context := by
  have hgrant : ∀ found, firstGrant r' ⟨q.principal, q.type, context⟩ subject found =
      firstGrant r ⟨q.principal, q.type, context⟩ subject found := by
    intro found
    refine agree_firstGrant (A := .same) fun c _ => ?_
    exact Comparison.evaluate_of_within hr h hp rfl context subject
  rw [check, check, candidates_of_within h hp]
  simp only [hgrant]

theorem fragments_of_within (hr : Registry.build providers = .ok r) (h : r.Within r')
    (hp : r.provider type = .ok provider) (p : Principal) (found : List Permission) :
    fragments (RecordFilter.language r') (RecordFilter.rootOf type) p found =
      fragments (RecordFilter.language r) (RecordFilter.rootOf type) p found := by
  rw [fragments_eq, fragments_eq, RecordFilter.renderParts_of_within hr h hp]
  rfl

/-- The filter of a request for an old type is the same. -/
theorem filter_of_within (hr : Registry.build providers = .ok r) (h : r.Within r')
    (hp : r.provider q.type = .ok provider) (ps : Permissions) :
    q.filter r' ps (RecordFilter.language r') (RecordFilter.rootOf q.type) =
      q.filter r ps (RecordFilter.language r) (RecordFilter.rootOf q.type) := by
  unfold filter
  simp only [candidates_of_within h hp, fragments_of_within hr h hp]
  rfl

/-- What a filter selects is the same. -/
theorem selection_holds_of_within (hr : Registry.build providers = .ok r) (h : r.Within r')
    {ds : List Definition} {ps : Permissions} (hps : Permissions.load r ds = .ok ps)
    {selection : Selection RecordFilter}
    (hq : q.filter r ps (RecordFilter.language r) (RecordFilter.rootOf q.type) = .ok selection)
    (subject : Resource) : selection.holds r' subject = selection.holds r subject := by
  obtain ⟨found, hfound, hq⟩ := bind_eq_ok.mp hq
  obtain ⟨a, ha⟩ := resolveAction_of_candidates hfound
  have hknown := pathsKnown_candidates (q := q) hr hps ha
  rw [candidates_ok ha] at hfound
  cases hfound
  split at hq
  · cases hq
    rfl
  · obtain ⟨fs, hfs, hq⟩ := bind_eq_ok.mp hq
    cases hq
    have hall := areKnown_fragments _ hknown hfs
    show (combine (RecordFilter.language r') fs).holds r' subject =
      (combine (RecordFilter.language r) fs).holds r subject
    rw [holds_combine, holds_combine, RecordFilter.holdsAny_of_within h fs hall]

/-- Adding types never disturbs what there was.  In a registry that was built of more providers, every
condition that had a plan has the same plan; every list of definitions that could be loaded gives the
same permissions, and with them the same candidates for everyone; and every request for an old type
has the same answers: the same checks, with related resources at hand or not, and the same filter,
which selects the same records. -/
theorem undisturbed (hr : Registry.build providers = .ok r) (hr' : Registry.build providers' = .ok r')
    (hmore : providers ⊆ providers') :
    (∀ type c plan, Plan.compile r type c = .ok plan → Plan.compile r' type c = .ok plan) ∧
    ∀ ds ps, Permissions.load r ds = .ok ps →
      Permissions.load r' ds = .ok ps ∧
      ∀ q : Request, r.contains q.type = true →
        (∀ subject context, q.check r' ps subject context = q.check r ps subject context) ∧
        q.filter r' ps (RecordFilter.language r') (RecordFilter.rootOf q.type) =
          q.filter r ps (RecordFilter.language r) (RecordFilter.rootOf q.type) ∧
        ∀ selection,
          q.filter r ps (RecordFilter.language r) (RecordFilter.rootOf q.type) = .ok selection →
          ∀ subject, selection.holds r' subject = selection.holds r subject := by
  have h : r.Within r' := Registry.within_of_subset hr hr' hmore
  refine ⟨fun _ _ _ => Plan.compile_ok_of_within h, fun ds ps hps => ⟨?loads, fun q hq => ?_⟩⟩
  case loads => exact Permissions.load_ok_of_within h hps
  obtain ⟨p, hmem, htype⟩ := Registry.contains_eq_true.mp hq
  have hp : r.provider q.type = .ok p := by
    rw [Registry.build_providers hr] at hmem
    exact htype ▸ Registry.build_provider hr hmem
  refine ⟨?checks, ?filters, ?selections⟩
  case checks => exact check_of_within hr h hp ps
  case filters => exact filter_of_within hr h hp ps
  case selections =>
    intro selection hselection
    exact selection_holds_of_within hr h hps hselection

end Request

/-! ### Notes in the office -/

namespace Office

/-- Notes are new in the office; they lead to the tasks that were there before. -/
def notes : Declaration := ⟨"note", ["view"], [⟨"relatedTask", "task", .key "taskId"⟩]⟩

def largerRegistry : Registry := ⟨(notes :: declarations).map (·.provider catalog)⟩

end Office

namespace Request

/-- With notes in the office, the clerk may still view the open task, by the same rule and after one
lookup, and for the same reason cannot be answered for the task of the odd case. -/
theorem undisturbed_office :
    Permissions.load Office.largerRegistry Office.definitions =
      .ok [Office.urgentRule, Office.looseRule, Office.anyRule] ∧
    Office.clerk.check Office.largerRegistry [Office.urgentRule, Office.looseRule, Office.anyRule]
      Office.openTask.view [] = ⟨.ok ⟨some Office.urgentRule⟩, 1⟩ ∧
    (Office.clerk.check Office.largerRegistry
      [Office.urgentRule, Office.looseRule, Office.anyRule] Office.oddTask.view []).outcome =
        .error (.fieldType "urgent" "bool" "string") := by
  have hr : Registry.build (Office.declarations.map (·.provider Office.catalog)) =
      .ok Office.registry := rfl
  have hr' : Registry.build ((Office.notes :: Office.declarations).map (·.provider Office.catalog)) =
      .ok Office.largerRegistry := rfl
  have hps : Permissions.load Office.registry Office.definitions =
      .ok [Office.urgentRule, Office.looseRule, Office.anyRule] := rfl
  obtain ⟨-, hloads⟩ := undisturbed hr hr' (List.subset_cons_self _ _)
  obtain ⟨hps', hanswers⟩ := hloads _ _ hps
  obtain ⟨hchecks, -⟩ := hanswers Office.clerk rfl
  refine ⟨hps', ?_, ?_⟩
  · rw [hchecks]
    rfl
  · rw [hchecks]
    rfl

end Request
end AccessControl
