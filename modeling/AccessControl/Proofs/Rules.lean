import AccessControl.Proofs.Decision
import AccessControl.Proofs.Names
import AccessControl.Proofs.Permission

/-! # Decisions follow the written rules

The rules of a request are the definitions written for its type and action whose role the principal
holds, ordered by role and then as written (`Request.rules`).  The candidates of the request are the
permissions made of them, in that order (`candidates_eq_rules`), so that a check grants by the first
rule that holds, denies when none does, and fails where a rule before that fails
(`check_follows_rules`). -/

namespace AccessControl

/-- Whether a definition, as written, holds for a resource. -/
def Definition.holds (r : Registry) (s : Scope) (subject : Resource) (d : Definition) :
    Inquiry Bool :=
  match d.condition with
  | none => return true
  | some condition => do (← Plan.compile r d.type condition).evaluate r s subject

/-- A permission holds where the definition that it enacts does. -/
theorem Permission.Enacts.permits_eq {r : Registry} {d : Definition} {p : Permission}
    (h : p.Enacts r d) (s : Scope) (subject : Resource) :
    Request.permits r s subject p = d.holds r s subject := by
  have hplan := h.plan
  unfold Permissions.planOf at hplan
  unfold Request.permits Definition.holds
  cases hc : d.condition with
  | none =>
      simp only [hc] at hplan
      cases hp : p.plan with
      | none => rfl
      | some plan => rw [hp] at hplan; cases hplan
  | some condition =>
      simp only [hc] at hplan
      cases hcompile : Plan.compile r d.type condition with
      | error e => rw [hcompile] at hplan; cases hplan
      | ok plan =>
          rw [hcompile] at hplan
          have hp : p.plan = some plan := (Except.ok.inj hplan).symm
          simp only [hp, hcompile, Inquiry.lift_ok, pure_bind]

/-- The candidates of a principal for an action are the permissions for it whose role is held. -/
theorem Permissions.mem_candidates {ps : Permissions} {principal : Principal} {type action : String}
    {p : Permission} : p ∈ ps.candidates principal type action ↔
      p ∈ ps ∧ p.role ∈ principal.roles ∧ p.action.type = type ∧ p.action.key = action := by
  simp only [candidates, List.mem_flatMap, List.mem_filter, Permission.isFor, Bool.and_eq_true,
    beq_iff_eq, Principal.mem_sortedRoles]
  constructor
  · rintro ⟨role, hrole, hp, ⟨rfl, htype⟩, hkey⟩
    exact ⟨hp, hrole, htype, hkey⟩
  · rintro ⟨hp, hrole, htype, hkey⟩
    exact ⟨p.role, hrole, hp, ⟨rfl, htype⟩, hkey⟩

/-- The candidates for an action depend only on which of the roles that have a permission for it are
held. -/
theorem Permissions.candidates_eq_of_roles {ps : Permissions} {p q : Principal} {type action : String}
    (h : ∀ permission ∈ ps, permission.action.type = type → permission.action.key = action →
      (permission.role ∈ p.roles ↔ permission.role ∈ q.roles)) :
    ps.candidates p type action = ps.candidates q type action := by
  let keep : String → Bool := fun role => ps.any (·.isFor role type action)
  have hdrop : ∀ role, keep role = false → ps.filter (·.isFor role type action) = [] := by
    intro role hrole
    exact List.filter_eq_nil_iff.mpr fun permission hpermission hfor =>
      (List.any_eq_false.mp hrole) permission hpermission hfor
  have hkept : p.sortedRoles.filter keep = q.sortedRoles.filter keep := by
    refine filter_sortedNames_congr fun role hrole => ?_
    obtain ⟨permission, hpermission, hfor⟩ := List.any_eq_true.mp hrole
    simp only [Permission.isFor, Bool.and_eq_true, beq_iff_eq] at hfor
    obtain ⟨⟨rfl, htype⟩, hkey⟩ := hfor
    exact h permission hpermission htype hkey
  rw [candidates, candidates, ← flatMap_filter_of_eq_nil hdrop, hkept, flatMap_filter_of_eq_nil hdrop]

/-- The candidates for an action depend only on which roles are held. -/
theorem Permissions.candidates_congr {ps : Permissions} {p q : Principal}
    (h : ∀ role, role ∈ p.roles ↔ role ∈ q.roles) {type action : String} :
    ps.candidates p type action = ps.candidates q type action :=
  candidates_eq_of_roles fun permission _ _ _ => h permission.role

namespace Request

/-! ### The rules of a request -/

/-- Whether a definition is for a type and action of a request and for a role that is held. -/
def concerns (q : Request) (d : Definition) : Bool :=
  d.type == q.type && d.action == q.action && q.principal.roles.contains d.role

/-- The definitions that concern a request, each with its permission, by role and then in the order
written. -/
def rules (q : Request) (loaded : List (Definition × Permission)) :
    List (Definition × Permission) :=
  (loaded.filter fun x => q.concerns x.1).mergeSort (notAfter fun x => x.1.role)

/-- The candidates of a request are the permissions of its rules. -/
theorem candidates_eq_rules (q : Request) {r : Registry} {ds : List Definition} {ps : Permissions}
    (hlength : ds.length = ps.length) (hps : ∀ x ∈ ds.zip ps, x.2.Enacts r x.1) :
    Permissions.candidates ps q.principal q.type q.action = (q.rules (ds.zip ps)).map Prod.snd := by
  have hroles : ∀ x ∈ (ds.zip ps).filter (fun x => q.concerns x.1),
      x.1.role ∈ q.principal.sortedRoles := by
    intro x hx
    have hx := (List.mem_filter.mp hx).2
    simp only [concerns, Bool.and_eq_true, List.contains_iff_mem] at hx
    exact Principal.mem_sortedRoles.mpr hx.2
  rw [rules, mergeSort_eq_flatMap _ (sortedNames_pairwise _) hroles, List.map_flatMap,
    Permissions.candidates, List.flatMap_def, List.flatMap_def]
  congr 1
  refine List.map_congr_left fun role hrole => ?_
  have hall : (ds.zip ps).map Prod.snd = ps := List.map_snd_zip (Nat.le_of_eq hlength.symm)
  have hheld : role ∈ q.principal.roles := Principal.mem_sortedRoles.mp hrole
  calc ps.filter (fun p => p.isFor role q.type q.action)
      = ((ds.zip ps).map Prod.snd).filter (fun p => p.isFor role q.type q.action) := by rw [hall]
    _ = ((ds.zip ps).filter fun x => x.2.isFor role q.type q.action).map Prod.snd :=
        List.filter_map
    _ = (((ds.zip ps).filter fun x => q.concerns x.1).filter (·.1.role == role)).map Prod.snd := by
        rw [List.filter_filter]
        congr 1
        refine List.filter_congr fun x hx => ?_
        have henacts := hps x hx
        simp only [Permission.isFor, henacts.role, henacts.type, henacts.key, concerns]
        cases hsame : x.1.role == role with
        | true =>
            have hrole : x.1.role = role := by simpa using hsame
            simp [hrole, hheld]
        | false => simp

/-! ### Looking for the first that grants -/

section firstGrant
variable {α : Type} (view : α → Permission) {r : Registry} {s : Scope} {subject : Resource}

/-- What is left to look for once a permission does not hold. -/
theorem outcome_firstGrant_cons (p : Permission) (rest : List Permission) :
    (firstGrant r s subject (p :: rest)).outcome =
      (permits r s subject p).outcome >>= fun b =>
        if b then .ok (some p) else (firstGrant r s subject rest).outcome := by
  rw [firstGrant, Inquiry.outcome_bind]
  congr 1
  funext b
  cases b <;> rfl

/-- Permissions that do not hold are passed over. -/
theorem outcome_firstGrant_append {before : List α} (after : List α)
    (h : ∀ y ∈ before, (permits r s subject (view y)).outcome = .ok false) :
    (firstGrant r s subject ((before ++ after).map view)).outcome =
      (firstGrant r s subject (after.map view)).outcome := by
  induction before with
  | nil => rfl
  | cons y before ih =>
      obtain ⟨hy, hbefore⟩ := List.forall_mem_cons.mp h
      rw [List.cons_append, List.map_cons, outcome_firstGrant_cons, hy]
      exact ih hbefore

/-- Either every test of a list says no, or there is a first one that does not. -/
theorem exists_first (verdict : α → Except Failure Bool) : ∀ xs : List α,
    (∀ x ∈ xs, verdict x = .ok false) ∨
      ∃ before x after, xs = before ++ x :: after ∧ (∀ y ∈ before, verdict y = .ok false) ∧
        verdict x ≠ .ok false
  | [] => Or.inl (by simp)
  | x :: xs => by
      by_cases hx : verdict x = .ok false
      · rcases exists_first verdict xs with hall | ⟨before, y, after, rfl, hbefore, hy⟩
        · exact Or.inl (List.forall_mem_cons.mpr ⟨hx, hall⟩)
        · exact Or.inr ⟨x :: before, y, after, rfl, List.forall_mem_cons.mpr ⟨hx, hbefore⟩, hy⟩
      · exact Or.inr ⟨[], x, xs, rfl, by simp, hx⟩

variable {view} {verdict : α → Except Failure Bool} {xs : List α}

/-- Nothing grants when every permission says no. -/
theorem firstGrant_eq_none (hv : ∀ x ∈ xs, (permits r s subject (view x)).outcome = verdict x)
    (hall : ∀ x ∈ xs, verdict x = .ok false) :
    (firstGrant r s subject (xs.map view)).outcome = .ok none := by
  have hno : ∀ y ∈ xs, (permits r s subject (view y)).outcome = .ok false :=
    fun y hy => (hv y hy).trans (hall y hy)
  have h := outcome_firstGrant_append view [] hno
  rw [List.append_nil] at h
  exact h

/-- The first permission that does not say no decides. -/
theorem firstGrant_eq_first (hv : ∀ x ∈ xs, (permits r s subject (view x)).outcome = verdict x)
    {before after : List α} {x : α} (hxs : xs = before ++ x :: after)
    (hbefore : ∀ y ∈ before, verdict y = .ok false) :
    (firstGrant r s subject (xs.map view)).outcome = verdict x >>= fun b =>
      if b then .ok (some (view x)) else (firstGrant r s subject (after.map view)).outcome := by
  subst hxs
  rw [outcome_firstGrant_append, List.map_cons, outcome_firstGrant_cons,
    hv x (List.mem_append_right before List.mem_cons_self)]
  intro y hy
  rw [hv y (List.mem_append_left _ hy), hbefore y hy]

/-- How the search for the first permission that grants ends. -/
theorem firstGrant_cases (hv : ∀ x ∈ xs, (permits r s subject (view x)).outcome = verdict x) :
    ((∀ x ∈ xs, verdict x = .ok false) ∧
      (firstGrant r s subject (xs.map view)).outcome = .ok none) ∨
    ∃ before x after, xs = before ++ x :: after ∧ (∀ y ∈ before, verdict y = .ok false) ∧
      ((verdict x = .ok true ∧
          (firstGrant r s subject (xs.map view)).outcome = .ok (some (view x))) ∨
        ∃ e, verdict x = .error e ∧
          (firstGrant r s subject (xs.map view)).outcome = .error e) := by
  rcases exists_first verdict xs with hall | ⟨before, x, after, hxs, hbefore, hx⟩
  · exact Or.inl ⟨hall, firstGrant_eq_none hv hall⟩
  · refine Or.inr ⟨before, x, after, hxs, hbefore, ?_⟩
    rw [firstGrant_eq_first hv hxs hbefore]
    cases hverdict : verdict x with
    | error e => exact Or.inr ⟨e, rfl, rfl⟩
    | ok b =>
        cases b with
        | true => exact Or.inl ⟨rfl, rfl⟩
        | false => exact absurd hverdict hx

/-- The permission found is the first that holds, where those before it say no. -/
theorem firstGrant_eq_some_iff (hv : ∀ x ∈ xs, (permits r s subject (view x)).outcome = verdict x)
    (g : Permission) :
    (firstGrant r s subject (xs.map view)).outcome = .ok (some g) ↔
      ∃ before x after, xs = before ++ x :: after ∧ view x = g ∧
        (∀ y ∈ before, verdict y = .ok false) ∧ verdict x = .ok true := by
  constructor
  · intro h
    rcases firstGrant_cases hv with ⟨-, hnone⟩ | ⟨before, x, after, hxs, hbefore, hx⟩
    · rw [hnone] at h
      cases h
    · rcases hx with ⟨hx, hgrant⟩ | ⟨e, -, herror⟩
      · rw [hgrant] at h
        exact ⟨before, x, after, hxs, Option.some.inj (Except.ok.inj h), hbefore, hx⟩
      · rw [herror] at h
        cases h
  · rintro ⟨before, x, after, hxs, rfl, hbefore, hx⟩
    rw [firstGrant_eq_first hv hxs hbefore, hx]
    rfl

theorem firstGrant_eq_none_iff
    (hv : ∀ x ∈ xs, (permits r s subject (view x)).outcome = verdict x) :
    (firstGrant r s subject (xs.map view)).outcome = .ok none ↔ ∀ x ∈ xs, verdict x = .ok false := by
  constructor
  · intro h
    rcases firstGrant_cases hv with ⟨hall, -⟩ | ⟨before, x, after, -, -, hx⟩
    · exact hall
    · rcases hx with ⟨-, hgrant⟩ | ⟨e, -, herror⟩
      · rw [hgrant] at h
        cases h
      · rw [herror] at h
        cases h
  · exact firstGrant_eq_none hv

/-- The search fails as the first permission fails that does not say no. -/
theorem firstGrant_eq_error_iff
    (hv : ∀ x ∈ xs, (permits r s subject (view x)).outcome = verdict x) (e : Failure) :
    (firstGrant r s subject (xs.map view)).outcome = .error e ↔
      ∃ before x after, xs = before ++ x :: after ∧
        (∀ y ∈ before, verdict y = .ok false) ∧ verdict x = .error e := by
  constructor
  · intro h
    rcases firstGrant_cases hv with ⟨-, hnone⟩ | ⟨before, x, after, hxs, hbefore, hx⟩
    · rw [hnone] at h
      cases h
    · rcases hx with ⟨-, hgrant⟩ | ⟨e', hx, herror⟩
      · rw [hgrant] at h
        cases h
      · rw [herror] at h
        exact ⟨before, x, after, hxs, hbefore, hx.trans (congrArg _ (Except.error.inj h))⟩
  · rintro ⟨before, x, after, hxs, hbefore, hx⟩
    rw [firstGrant_eq_first hv hxs hbefore, hx]
    rfl

end firstGrant

/-! ### Checking by the rules -/

section check
variable {r : Registry} {q : Request} {a : Action} {ps : Permissions}

theorem candidates_ok (ha : r.resolveAction q.type q.action = .ok a) :
    q.candidates r ps = .ok (ps.candidates q.principal q.type q.action) := by
  unfold candidates
  rw [ha]
  rfl

/-- Checking a request with a known action is looking for the first candidate that grants. -/
theorem check_eq_firstGrant (ha : r.resolveAction q.type q.action = .ok a) (subject : Resource)
    (context : Context) :
    q.check r ps subject context = (do
      return ⟨← firstGrant r ⟨q.principal, q.type, context⟩ subject
        (ps.candidates q.principal q.type q.action)⟩) := by
  unfold check
  rw [candidates_ok ha, Inquiry.lift_ok, pure_bind]

/-- The action of a request that has candidates, be they none, is known. -/
theorem resolveAction_of_candidates {found : List Permission} (h : q.candidates r ps = .ok found) :
    ∃ a, r.resolveAction q.type q.action = .ok a := by
  obtain ⟨u, hu, -⟩ := bind_eq_ok.mp h
  cases ha : r.resolveAction q.type q.action with
  | ok a => exact ⟨a, rfl⟩
  | error e =>
      rw [ha] at hu
      cases hu

/-- The action of a request that has an answer is known. -/
theorem resolveAction_of_check {subject : Resource} {context : Context} {d : Decision}
    (h : (q.check r ps subject context).outcome = .ok d) :
    ∃ a, r.resolveAction q.type q.action = .ok a := by
  rw [check, Inquiry.outcome_bind] at h
  obtain ⟨found, hfound, -⟩ := bind_eq_ok.mp h
  exact resolveAction_of_candidates hfound

theorem map_mk_eq_ok {x : Except Failure (Option Permission)} {found : Option Permission} :
    x.map Decision.mk = .ok ⟨found⟩ ↔ x = .ok found := by
  cases x <;> simp [Except.map]

theorem map_mk_eq_error {x : Except Failure (Option Permission)} {e : Failure} :
    x.map Decision.mk = .error e ↔ x = .error e := by
  cases x <;> simp [Except.map]

/-- A check consults the rules of its request in order.  It grants by the first rule that holds, if
every rule before that does not; it denies exactly if no rule holds; and otherwise it fails as the
first rule fails that does not say no.  Without rules there is nothing to look up: every resource is
denied, and the filter of the request is missing, whatever the store. -/
theorem check_follows_rules {providers : List Provider} (hr : Registry.build providers = .ok r)
    {ds : List Definition} (hps : Permissions.load r ds = .ok ps)
    (ha : r.resolveAction q.type q.action = .ok a) :
    (ds.length = ps.length ∧ ∀ x ∈ ds.zip ps, x.2.Enacts r x.1) ∧
    (∀ (subject : Resource) (context : Context),
      let verdict := fun x : Definition × Permission =>
        (x.1.holds r ⟨q.principal, q.type, context⟩ subject).outcome
      (∀ g, (q.check r ps subject context).outcome = .ok ⟨some g⟩ ↔
        ∃ before d after, q.rules (ds.zip ps) = before ++ (d, g) :: after ∧
          (∀ x ∈ before, verdict x = .ok false) ∧ verdict (d, g) = .ok true) ∧
      ((q.check r ps subject context).outcome = .ok ⟨none⟩ ↔
        ∀ x ∈ q.rules (ds.zip ps), verdict x = .ok false) ∧
      ∀ e, (q.check r ps subject context).outcome = .error e ↔
        ∃ before x after, q.rules (ds.zip ps) = before ++ x :: after ∧
          (∀ y ∈ before, verdict y = .ok false) ∧ verdict x = .error e) ∧
    (q.rules (ds.zip ps) = [] →
      (∀ subject context, q.check r ps subject context = ⟨.ok ⟨none⟩, 0⟩) ∧
      ∀ {Place Fragment : Type} (l : FilterLanguage Place Fragment) (place : Place),
        q.filter r ps l place = .ok ⟨[], none⟩) := by
  obtain ⟨hlength, henacts⟩ := Permissions.load_ok hr hps
  have hcandidates := q.candidates_eq_rules hlength henacts
  refine ⟨⟨hlength, henacts⟩, fun subject context => ?_, fun hnone => ⟨fun subject context => ?_,
    fun l place => ?_⟩⟩
  · intro verdict
    have hmem : ∀ x ∈ q.rules (ds.zip ps), x.2.Enacts r x.1 := by
      intro x hx
      exact henacts x (List.mem_filter.mp (List.mem_mergeSort.mp hx)).1
    have hverdict : ∀ x ∈ q.rules (ds.zip ps),
        (permits r ⟨q.principal, q.type, context⟩ subject x.2).outcome = verdict x := by
      intro x hx
      rw [(hmem x hx).permits_eq]
    have hcheck : (q.check r ps subject context).outcome =
        (firstGrant r ⟨q.principal, q.type, context⟩ subject
          ((q.rules (ds.zip ps)).map Prod.snd)).outcome.map Decision.mk := by
      rw [check_eq_firstGrant ha, hcandidates, Inquiry.outcome_map_pure]
    refine ⟨fun g => ?_, ?_, fun e => ?_⟩
    · have hg : (q.check r ps subject context).outcome = .ok ⟨some g⟩ ↔
          (firstGrant r ⟨q.principal, q.type, context⟩ subject
            ((q.rules (ds.zip ps)).map Prod.snd)).outcome = .ok (some g) := by
        rw [hcheck, map_mk_eq_ok]
      rw [hg, firstGrant_eq_some_iff hverdict]
      constructor
      · rintro ⟨before, ⟨d, p⟩, after, hrules, rfl, hbefore, hx⟩
        exact ⟨before, d, after, hrules, hbefore, hx⟩
      · rintro ⟨before, d, after, hrules, hbefore, hx⟩
        exact ⟨before, (d, g), after, hrules, rfl, hbefore, hx⟩
    · rw [hcheck, map_mk_eq_ok, firstGrant_eq_none_iff hverdict]
    · rw [hcheck, map_mk_eq_error, firstGrant_eq_error_iff hverdict]
  · rw [check_eq_firstGrant ha, hcandidates, hnone]
    rfl
  · unfold filter
    rw [candidates_ok ha, hcandidates, hnone]
    rfl

end check

/-- For one who holds both roles the rule of the administrators is consulted first and does not hold.
The first rule for users then grants one task; where it fails for another, the check fails with it,
although the last rule would grant. -/
theorem check_follows_rules_office :
    ∃ ps, Permissions.load Office.registry Office.definitions = .ok ps ∧
      (Office.clerk.check Office.registry ps Office.openTask.view []).outcome =
        .ok ⟨some Office.urgentRule⟩ ∧
      (Office.clerk.check Office.registry ps Office.oddTask.view []).outcome =
        .error (.fieldType "urgent" "bool" "string") := by
  have hr : Registry.build (Office.declarations.map (·.provider Office.catalog)) =
      .ok Office.registry := rfl
  have hps : Permissions.load Office.registry Office.definitions =
      .ok [Office.urgentRule, Office.looseRule, Office.anyRule] := rfl
  have ha : Office.registry.resolveAction "task" "view" = .ok ⟨"task", "view"⟩ := rfl
  -- the rule of the administrators is written second and consulted first
  have hrules : Office.clerk.rules
      (Office.definitions.zip [Office.urgentRule, Office.looseRule, Office.anyRule]) =
      [(⟨"admin", "task", "view", some Office.isLoose⟩, Office.looseRule),
        (⟨"user", "task", "view", some Office.isUrgent⟩, Office.urgentRule),
        (⟨"user", "task", "view", none⟩, Office.anyRule)] := by
    have hnames : ["admin", "user"].Pairwise (· < ·) := List.pairwise_pair.mpr (by decide)
    rw [rules, mergeSort_eq_flatMap _ hnames]
    · rfl
    · intro x hx
      have hx := (List.mem_filter.mp hx).2
      simp only [concerns, Bool.and_eq_true, List.contains_iff_mem] at hx
      have hheld : x.1.role ∈ ["user", "admin"] := hx.2
      rcases List.mem_cons.mp hheld with h | h
      · simp [h]
      · simp [List.mem_singleton.mp h]
  have decides := (check_follows_rules (q := Office.clerk) hr hps ha).2.1
  refine ⟨_, hps, ?_, ?_⟩
  · refine ((decides Office.openTask.view []).1 Office.urgentRule).mpr
      ⟨[(⟨"admin", "task", "view", some Office.isLoose⟩, Office.looseRule)], _, _, hrules, ?_, ?_⟩
    · intro x hx
      rw [List.mem_singleton] at hx
      subst hx
      rfl
    · rfl
  · refine ((decides Office.oddTask.view []).2.2 _).mpr
      ⟨[(⟨"admin", "task", "view", some Office.isLoose⟩, Office.looseRule)], _, _, hrules, ?_, ?_⟩
    · intro x hx
      rw [List.mem_singleton] at hx
      subst hx
      rfl
    · rfl

end Request
end AccessControl
