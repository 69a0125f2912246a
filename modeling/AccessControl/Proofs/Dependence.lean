import AccessControl.Proofs.Binding

/-! # What an answer depends on

Of the principal, an answer depends on the roles that have a permission for the action and on the
attributes that the conditions of the candidates refer to.  Two principals that are alike in these
(`Principal.AlikeFor`) are given the same answers, in checks and in filters of any language; nothing
else about a principal makes a difference (`Request.answers_depend_on_mentioned`).

The candidates of the two are the same, and their comparisons expect the same values.  What is made of
comparisons follows them: decisions by `Request.agree_check`, filters by `Request.filter_congr`. -/

namespace AccessControl

/-- A comparison in the condition of one of the permissions. -/
def Mentions (permissions : List Permission) (c : Comparison) : Prop :=
  ∃ p ∈ permissions, ∃ plan, p.plan = some plan ∧ c ∈ plan.comparisons

/-! ### Deciding -/

namespace Request

section agree
variable {A : Agreement} {r r' : Registry} {s s' : Scope} {subject : Resource}

/-- Two ways to look for a grant agree where they agree on the comparisons of the candidates. -/
theorem agree_firstGrant : ∀ {candidates : List Permission},
    (∀ c, Mentions candidates c → A.rel (c.evaluate r s subject) (c.evaluate r' s' subject)) →
    A.rel (firstGrant r s subject candidates) (firstGrant r' s' subject candidates)
  | [], _ => A.refl _
  | p :: rest, h => by
      have hpermits : A.rel (permits r s subject p) (permits r' s' subject p) := by
        unfold permits
        split
        · rename_i plan hplan
          exact Plan.agree_evaluate fun c hc => h c ⟨p, List.mem_cons_self, plan, hplan, hc⟩
        · exact A.refl _
      have hrest : A.rel (firstGrant r s subject rest) (firstGrant r' s' subject rest) :=
        agree_firstGrant fun c ⟨p', hp', hc⟩ => h c ⟨p', List.mem_cons_of_mem p hp', hc⟩
      exact A.branch hpermits (A.refl _) hrest

/-- A request for an unknown action fails before anything is looked up. -/
theorem check_of_unknown {q : Request} {ps : Permissions} {e : Failure}
    (h : r.resolveAction q.type q.action = .error e) (context : Context) :
    q.check r ps subject context = ⟨.error e, 0⟩ := by
  unfold check candidates
  rw [h]
  rfl

/-- Two checks with the same candidates agree where they agree on the comparisons of these. -/
theorem agree_check {ps : Permissions} {a b : Principal} {type action : String}
    {context context' : Context}
    (hfound : ps.candidates a type action = ps.candidates b type action)
    (h : ∀ c, Mentions (ps.candidates a type action) c →
      A.rel (c.evaluate r ⟨a, type, context⟩ subject) (c.evaluate r ⟨b, type, context'⟩ subject)) :
    A.rel (check ⟨a, type, action⟩ r ps subject context)
      (check ⟨b, type, action⟩ r ps subject context') := by
  cases ha : r.resolveAction type action with
  | error e =>
      rw [check_of_unknown (q := ⟨a, type, action⟩) ha, check_of_unknown (q := ⟨b, type, action⟩) ha]
      exact A.refl _
  | ok known =>
      rw [check_eq_firstGrant (q := ⟨a, type, action⟩) ha,
        check_eq_firstGrant (q := ⟨b, type, action⟩) ha]
      simp only [← hfound]
      exact A.bind (agree_firstGrant h) fun _ => A.refl _

end agree

end Request

/-! ### Making filters -/

section render
variable {Place Fragment : Type} {l : FilterLanguage Place Fragment} {place : Place} {a b : Principal}

namespace Plan

mutual

/-- A plan makes the same filter for principals of whom its comparisons expect the same. -/
theorem render_congr : ∀ {plan : Plan}, (∀ c ∈ plan.comparisons, c.expected a = c.expected b) →
    plan.render l place a = plan.render l place b
  | .compare c, h => by
      rw [render, render, Comparison.render, Comparison.render, h c (List.mem_singleton.mpr rfl)]
  | .all parts, h => by rw [render, render, renderParts_congr h]
  | .any parts, h => by rw [render, render, renderParts_congr h]
  | .not inner, h => by
      have hinner : inner.render l place a = inner.render l place b := render_congr h
      rw [render, render, hinner]

theorem renderParts_congr : ∀ {parts : List Plan},
    (∀ c ∈ comparisonsOf parts, c.expected a = c.expected b) →
    renderParts l place a parts = renderParts l place b parts
  | [], _ => rfl
  | part :: rest, h => by
      obtain ⟨hpart, hrest⟩ := List.forall_mem_append.mp h
      rw [renderParts, renderParts, render_congr hpart, renderParts_congr hrest]

end

end Plan

namespace Request

theorem fragments_congr {candidates : List Permission}
    (h : ∀ c, Mentions candidates c → c.expected a = c.expected b) :
    fragments l place a candidates = fragments l place b candidates := by
  have hparts : Plan.renderParts l place a (boundPlans candidates) =
      Plan.renderParts l place b (boundPlans candidates) :=
    Plan.renderParts_congr fun c hc => h c (exists_of_mem_boundComparisons hc)
  rw [fragments_eq, fragments_eq, hparts]

/-- Two requests with the same candidates have the same filter where comparisons expect the same. -/
theorem filter_congr {r : Registry} {ps : Permissions} {type action : String}
    (hfound : ps.candidates a type action = ps.candidates b type action)
    (h : ∀ c, Mentions (ps.candidates a type action) c → c.expected a = c.expected b) :
    filter ⟨a, type, action⟩ r ps l place = filter ⟨b, type, action⟩ r ps l place := by
  unfold filter
  cases ha : r.resolveAction type action with
  | error e =>
      unfold candidates
      rw [ha]
      rfl
  | ok known =>
      rw [candidates_ok (q := ⟨a, type, action⟩) ha, candidates_ok (q := ⟨b, type, action⟩) ha, ok_bind,
        ok_bind]
      simp only [← hfound, fragments_congr h]

end Request
end render

/-! ### Alike principals -/

namespace Principal

/-- Whether two principals are alike as far as an action is concerned: they hold the same of the roles
that have a permission for it, and the attributes that the candidates refer to have the same values. -/
structure AlikeFor (a b : Principal) (ps : Permissions) (type action : String) : Prop where
  roles : ∀ p ∈ ps, p.action.type = type → p.action.key = action →
    (p.role ∈ a.roles ↔ p.role ∈ b.roles)
  attributes : ∀ name, RefersTo (ps.candidates a type action) name →
    a.attribute? name = b.attribute? name

variable {a b : Principal} {ps : Permissions} {type action : String}

theorem AlikeFor.candidates_eq (h : a.AlikeFor b ps type action) :
    ps.candidates a type action = ps.candidates b type action :=
  Permissions.candidates_eq_of_roles h.roles

/-- Candidates expect the same of alike principals. -/
theorem AlikeFor.expected_eq (h : a.AlikeFor b ps type action) {c : Comparison}
    (hc : Mentions (ps.candidates a type action) c) : c.expected a = c.expected b := by
  obtain ⟨p, hp, plan, hplan, hc⟩ := hc
  unfold Comparison.expected
  split
  · rfl
  · rename_i name hname
    rw [Comparison.attributeValue, Comparison.attributeValue,
      h.attributes name ⟨p, hp, plan, hplan, c, hc, hname⟩]

/-- Roles without a permission for an action, attributes that no candidate refers to, and, if none
refers to it, the id make no difference to the action. -/
theorem alikeFor_of_unmentioned {id : String} {roles : List String} {attributes : List (String × Value)}
    (hid : RefersTo (ps.candidates a type action) "id" → id = a.id)
    (hroles : ∀ p ∈ ps, p.action.type = type → p.action.key = action → p.role ∉ roles)
    (hattributes : ∀ name, RefersTo (ps.candidates a type action) name →
      name ∉ attributes.map Prod.fst) :
    a.AlikeFor ⟨id, roles ++ a.roles, attributes ++ a.attributes⟩ ps type action := by
  refine ⟨fun p hp htype hkey => ?_, fun name hname => ?_⟩
  · rw [List.mem_append]
    exact ⟨Or.inr, fun h => h.resolve_left (hroles p hp htype hkey)⟩
  · unfold attribute?
    split
    · rename_i heq
      rw [hid (heq ▸ hname)]
    · have hnone : attributes.lookup name = none := by
        refine List.lookup_eq_none_iff.mpr fun entry hentry => ?_
        refine bne_iff_ne.mpr fun heq => hattributes name hname ?_
        exact heq ▸ List.mem_map_of_mem hentry
      rw [List.lookup_append, hnone, Option.none_or]

end Principal

namespace Request

/-- Whether two requests have the same answers: the same checks, with or without related resources at
hand, and the same filter in every language. -/
def AnsweredAlike (r : Registry) (ps : Permissions) (q q' : Request) : Prop :=
  (∀ subject context, q.check r ps subject context = q'.check r ps subject context) ∧
  ∀ {Place Fragment : Type} (l : FilterLanguage Place Fragment) (place : Place),
    q.filter r ps l place = q'.filter r ps l place

theorem answeredAlike_of_alikeFor {a b : Principal} {ps : Permissions} {type action : String}
    (r : Registry) (h : a.AlikeFor b ps type action) :
    AnsweredAlike r ps ⟨a, type, action⟩ ⟨b, type, action⟩ := by
  refine ⟨fun subject context => ?_, fun l place => ?_⟩
  · exact agree_check (A := .same) h.candidates_eq fun c hc =>
      Comparison.agree_evaluate (A := .same) (h.expected_eq hc) rfl
  · exact filter_congr h.candidates_eq fun c hc => h.expected_eq hc

/-- Answers depend only on what the rules mention.  Principals that hold the same of the roles with a
permission for an action, and whose attributes agree wherever a candidate refers to them, have the same
answers, failures included.  So another id, further roles and further attributes that no candidate
refers to never influence an answer. -/
theorem answers_depend_on_mentioned (r : Registry) (ps : Permissions) (type action : String) :
    (∀ {a b : Principal}, a.AlikeFor b ps type action →
      AnsweredAlike r ps ⟨a, type, action⟩ ⟨b, type, action⟩) ∧
    ∀ (a : Principal) (id : String) (roles : List String) (attributes : List (String × Value)),
      (RefersTo (ps.candidates a type action) "id" → id = a.id) →
      (∀ p ∈ ps, p.action.type = type → p.action.key = action → p.role ∉ roles) →
      (∀ name, RefersTo (ps.candidates a type action) name → name ∉ attributes.map Prod.fst) →
      AnsweredAlike r ps ⟨a, type, action⟩
        ⟨⟨id, roles ++ a.roles, attributes ++ a.attributes⟩, type, action⟩ := by
  refine ⟨answeredAlike_of_alikeFor r, fun a id roles attributes hid hroles hattributes => ?_⟩
  exact answeredAlike_of_alikeFor r (Principal.alikeFor_of_unmentioned hid hroles hattributes)

end Request

/-! ### Names on the board -/

namespace Board

/-- Guests may edit any task. -/
def editRule : Permission where
  id := Permissions.idOf "guest" ⟨"task", "edit"⟩ 0
  role := "guest"
  action := ⟨"task", "edit"⟩
  condition := none
  plan := none

def rules : Permissions := [openRule, teamRule, editRule]

def doneTask : CatalogRecord :=
  ⟨[("id", .string "t2"), ("status", .string "DONE"), ("team", .string "red")]⟩

/-- The request of a member of another name, who may edit and has a level. -/
def renamed : Request :=
  ⟨⟨"bob", ["guest"] ++ ["user"], [("level", .string "5")] ++ [("team", .string "red")]⟩, "task", "view"⟩

/-- The request of a member whose role and team are listed twice. -/
def listedTwice : Request :=
  ⟨⟨"alice", ["user", "guest", "user"], [("team", .string "red"), ("team", .string "blue")]⟩,
    "task", "view"⟩

/-- To view tasks, only the team of a principal is referred to. -/
theorem eq_team_of_refersTo {name : String}
    (h : RefersTo (rules.candidates member.principal "task" "view") name) : name = "team" := by
  have hfound : rules.candidates member.principal "task" "view" = [openRule, teamRule] := rfl
  obtain ⟨p, hp, plan, hplan, c, hc, hname⟩ := h
  rw [hfound] at hp
  simp only [List.mem_cons, List.not_mem_nil, or_false] at hp
  rcases hp with rfl | rfl
  · cases hplan
    rw [List.mem_singleton.mp hc] at hname
    cases hname
  · cases hplan
    rw [List.mem_singleton.mp hc] at hname
    cases hname
    rfl

end Board

namespace Request

/-- A member of the red team may view a task that is done, under any name, with a role more that is for
editing, with a level, and however often role and team are listed. -/
theorem answers_depend_on_mentioned_board :
    (Board.member.check Board.registry Board.rules Board.doneTask.view []).outcome =
      .ok ⟨some Board.teamRule⟩ ∧
    AnsweredAlike Board.registry Board.rules Board.member Board.renamed ∧
    AnsweredAlike Board.registry Board.rules Board.member Board.listedTwice := by
  obtain ⟨alike, unmentioned⟩ := answers_depend_on_mentioned Board.registry Board.rules "task" "view"
  refine ⟨rfl, ?_, alike ⟨fun p hp htype hkey => ?_, fun name hname => ?_⟩⟩
  · refine unmentioned Board.member.principal "bob" ["guest"] [("level", .string "5")]
      (fun h => ?_) (fun p hp htype hkey => ?_) (fun name hname => ?_)
    · exact absurd (Board.eq_team_of_refersTo h) (by decide)
    · simp only [Board.rules, List.mem_cons, List.not_mem_nil, or_false] at hp
      rcases hp with rfl | rfl | rfl
      · decide
      · decide
      · exact absurd hkey (by decide)
    · rw [Board.eq_team_of_refersTo hname]
      decide
  · simp only [Board.rules, List.mem_cons, List.not_mem_nil, or_false] at hp
    rcases hp with rfl | rfl | rfl
    · decide
    · decide
    · exact absurd hkey (by decide)
  · rw [Board.eq_team_of_refersTo hname]
    rfl

end Request
end AccessControl
