import AccessControl.Proofs.Decision
import AccessControl.Proofs.Sql.Path

/-! # Conditions and decisions

Over a catalog that is stored in a database, the condition that a plan is rendered to is never
unknown, and the rows for which it is true are those of the records for which the plan holds
(`truth_render_eq_evaluate`). -/

namespace AccessControl.Sql

/-- What the comparisons of a plan rely on: the columns hold the values of the fields as the declared
types, and the database compares what the comparisons expect exactly. -/
structure Comparable (c : Catalog) (r : Registry) (s : Schema) (e : Engine)
    (rowOf : String → CatalogRecord → Row) (p : Principal) (type : String) (plan : Plan) : Prop where
  columns : ∀ x ∈ plan.comparisons, ∀ target, Plan.follow r type x.path.relations = .ok target →
    ∀ m, s.table target = .ok m → ∀ record ∈ c.records target,
      Holds e s.dialect x.declared (record.value x.path.field)
        (rowOf target record (m.columnFor x.path.field))
  operands : ∀ x ∈ plan.comparisons, ∀ v, x.expected p = .ok v → IsExactOperand s.dialect v

section decision
variable {c : Catalog} {declarations : List Declaration} {r : Registry} {s : Schema}
  {db : Database} {rowOf : String → CatalogRecord → Row} {e : Engine} {p : Principal}

/-- The condition of a comparison comes to what the comparison does. -/
theorem truth_comparison (hr : c.registry declarations = .ok r) (he : e.Documented s.dialect)
    (hs : Storage c declarations s db rowOf) (hids : ∀ d ∈ declarations, c.IdsDiffer d.type)
    {type table : String} {plan : Plan} (hplan : Comparable c r s e rowOf p type plan)
    {x : Comparison} (hx : x ∈ plan.comparisons) (htyped : x.WellTyped r type)
    (htable : ∀ n name, table ≠ Schema.aliasOf n name) {f : Group}
    (hf : x.render s.language ⟨type, table, []⟩ p = .ok f) {record : CatalogRecord}
    (hrecord : record ∈ c.records type) :
    (f.truth e db [(table, rowOf type record)]).IsOutcome
      (x.evaluate r ⟨p, type, []⟩ record.view).outcome := by
  obtain ⟨v, hv, hf⟩ := bind_eq_ok.mp hf
  obtain ⟨target, htarget⟩ := htyped.path
  obtain ⟨filter, hfilter⟩ := RecordFilter.along_of_follow
    (.compare x.path.field x.operator v) htarget
  have hleaf : ∀ m test column rows, s.table target = .ok m →
      leaf s.dialect x.path.field column x.operator v = .ok test → ∀ record ∈ c.records target,
      column.value e rows = rowOf target record (m.columnFor x.path.field) →
      (test.truth e db rows).IsOutcome
        (compareField x.path.field (record.field? x.path.field) x.operator v) := by
    intro m test column rows hm htest record hrecord hcolumn
    exact truth_leaf he (hplan.columns x hx target htarget m hm record hrecord) hcolumn
      (htyped.expected_suits hv) (hplan.operands x hx v hv) htyped.ordered htest
  obtain ⟨inner, hinner, htruth⟩ := truth_path hr hs hids hleaf x.path.relations ⟨type, table, []⟩
    (fun n _ name => htable n name) htarget hfilter hf
  obtain ⟨ys, hys⟩ :=
    Registry.reach_of_follow (Catalog.registry_answers hr) htarget record.view
  rw [Registry.outcome_holds_of_reach (s := ⟨p, type, []⟩) hv hfilter rfl hys, hinner]
  exact htruth _ record hrecord List.lookup_cons_self

/-- Where a catalog is stored in a database, the condition that a compiled plan is rendered to is
never unknown for a row of its table.  It is true exactly for the rows of the records for which the
plan holds, and there is no record for which the plan cannot be decided. -/
theorem truth_render_eq_evaluate (hr : c.registry declarations = .ok r)
    (he : e.Documented s.dialect) (hs : Storage c declarations s db rowOf)
    (hids : ∀ d ∈ declarations, c.IdsDiffer d.type) {d : Declaration} (hd : d ∈ declarations)
    {condition : Condition} {plan : Plan} (hcompile : Plan.compile r d.type condition = .ok plan)
    (hplan : Comparable c r s e rowOf p d.type plan) {place : Place}
    (hplace : s.place d.type = .ok place) (htable : ∀ n name, place.aliasName ≠ Schema.aliasOf n name)
    {g : Group} (hg : plan.render s.language place p = .ok g) :
    (∀ row ∈ db place.aliasName, g.toExpression.truth e db [(place.aliasName, row)] ≠ none) ∧
    ∀ record ∈ c.records d.type,
      (g.toExpression.truth e db [(place.aliasName, rowOf d.type record)] = some true ↔
        (plan.evaluate r ⟨p, d.type, []⟩ record.view).outcome = .ok true) ∧
      ∃ b, (plan.evaluate r ⟨p, d.type, []⟩ record.view).outcome = .ok b := by
  obtain ⟨m, hm, hrows⟩ := hs.tables d hd
  have hplace' : place = ⟨d.type, m.table, []⟩ := by
    unfold Schema.place at hplace
    rw [hm] at hplace
    exact (Except.ok.inj hplace).symm
  subst hplace'
  have htyped := Plan.compile_wellTyped hcompile
  have outcome : ∀ record ∈ c.records d.type,
      (g.truth e db [(m.table, rowOf d.type record)]).IsOutcome
        (plan.evaluate r ⟨p, d.type, []⟩ record.view).outcome := by
    intro record hrecord
    refine Plan.truth_render (s := ⟨p, d.type, []⟩) (fun x hx f hf => ?_) hg
    exact truth_comparison hr he hs hids hplan hx (htyped x hx) htable hf hrecord
  refine ⟨fun row hrow => ?_, fun record hrecord => ?_⟩
  · obtain ⟨record, hrecord, rfl⟩ := List.mem_map.mp (hrows.mem_iff.mp hrow)
    obtain ⟨b, htruth, -⟩ := outcome record hrecord
    show g.truth e db _ ≠ none
    rw [htruth]
    exact Option.some_ne_none b
  · obtain ⟨b, htruth, hb⟩ := outcome record hrecord
    refine ⟨?_, b, hb⟩
    show g.truth e db _ = some true ↔ _
    rw [htruth, hb, Option.some.injEq, Except.ok.injEq]

end decision

/-! ### The office in a database -/

namespace StoredOffice

open Office

/-- A case of which it is not said whether it is urgent. -/
def plainCase : CatalogRecord := ⟨[("id", .string "c2"), ("parentId", .string "c1")]⟩

def plainTask : CatalogRecord := ⟨[("caseId", .string "c2"), ("id", .string "t2")]⟩

def catalog : Catalog :=
  ⟨[("case", [openCase, plainCase]), ("task", [openTask, plainTask, looseTask])]⟩

def registry : Registry := ⟨declarations.map (·.provider catalog)⟩

def caseTable : TableMapping :=
  ⟨"cases", [("parentId", "parent_id")], [("parent", ⟨"case", "parent_id", "id"⟩)]⟩

def taskTable : TableMapping :=
  ⟨"tasks", [("caseId", "case_id")], [("relatedCase", ⟨"case", "case_id", "id"⟩)]⟩

def schema : Schema := ⟨.sqlite, [("case", caseTable), ("task", taskTable)]⟩

/-- The field that a column is of. -/
def fieldOf (column : String) : String :=
  ([("parent_id", "parentId"), ("case_id", "caseId")].lookup column).getD column

def rowOf (_ : String) (record : CatalogRecord) : Row :=
  fun column => bind .sqlite (record.value (fieldOf column))

def database : Database := fun table =>
  if table = "cases" then (catalog.records "case").map (rowOf "case")
  else if table = "tasks" then (catalog.records "task").map (rowOf "task")
  else []

/-- An engine that does what the manuals say, and reads the times that the program reads. -/
def engine : Engine where
  call := fun function first second =>
    match first, second with
    | .text a, .text b =>
      if function = "strftime" then
        match (Timestamp.read? b).bind fun t => formatted? t a.toList with
        | some text => .text (.ofList text)
        | none => .null
      else if function = "INSTR" ∨ function = "STRPOS" then
        .integer (occurrence b.toList a.toList)
      else .null
    | _, _ => .null
  readTime? := Timestamp.read?
  compareMixed := fun _ _ _ => none

/-- The tasks that belong to no urgent case. -/
def condition : Condition := .not isUrgent

def plan : Plan :=
  .not (.compare ⟨⟨["relatedCase"], "urgent"⟩, .equals, .value (.boolean true), .boolean⟩)

theorem engine_documented (d : Dialect) : engine.Documented d where
  instr := fun _ _ _ => rfl
  strpos := fun _ _ _ => rfl
  strftime := by
    intro _ layout s t text hread _ htext
    have hread : Timestamp.read? s = some t := hread
    simp only [engine, hread, Option.bind_some, htext]
    rfl

theorem mem_cases {record : CatalogRecord} (h : record ∈ catalog.records "case") :
    record = openCase ∨ record = plainCase :=
  List.mem_cons.mp h |>.imp_right List.mem_singleton.mp

theorem mem_tasks {record : CatalogRecord} (h : record ∈ catalog.records "task") :
    record = openTask ∨ record = plainTask ∨ record = looseTask :=
  List.mem_cons.mp h |>.imp_right fun h => List.mem_cons.mp h |>.imp_right List.mem_singleton.mp

theorem mem_declarations {d : Declaration} (h : d ∈ declarations) : d = cases ∨ d = tasks :=
  List.mem_cons.mp h |>.imp_right List.mem_singleton.mp

theorem linkField_cases {type field : String} (h : LinkField declarations type field) :
    (type = "case" ∧ (field = "id" ∨ field = "parentId")) ∨
      (type = "task" ∧ (field = "id" ∨ field = "caseId")) := by
  cases h with
  | id hd =>
      rcases mem_declarations hd with rfl | rfl
      · exact .inl ⟨rfl, .inl rfl⟩
      · exact .inr ⟨rfl, .inl rfl⟩
  | key hd hfound hlink =>
      rcases mem_declarations hd with rfl | rfl
      · rw [List.mem_singleton.mp hfound] at hlink
        cases hlink
        exact .inl ⟨rfl, .inr rfl⟩
      · rw [List.mem_singleton.mp hfound] at hlink
        cases hlink
        exact .inr ⟨rfl, .inr rfl⟩
  | foreign hd hfound hlink =>
      rcases mem_declarations hd with rfl | rfl
      · rw [List.mem_singleton.mp hfound] at hlink
        cases hlink
      · rw [List.mem_singleton.mp hfound] at hlink
        cases hlink

theorem storage : Storage catalog declarations schema database rowOf where
  tables := by
    intro d hd
    rcases mem_declarations hd with rfl | rfl
    · exact ⟨caseTable, rfl, .refl _⟩
    · exact ⟨taskTable, rfl, .refl _⟩
  joins := by
    intro d hd found hfound source remote hsource hremote
    rcases mem_declarations hd with rfl | rfl
    · rw [List.mem_singleton.mp hfound] at hremote ⊢
      cases hsource
      cases hremote
      rfl
    · rw [List.mem_singleton.mp hfound] at hremote ⊢
      cases hsource
      cases hremote
      rfl
  links := by
    refine ⟨.string, fun type field hlink m hm record hrecord => ?_⟩
    rcases linkField_cases hlink with ⟨rfl, rfl | rfl⟩ | ⟨rfl, rfl | rfl⟩
    · cases hm
      rcases mem_cases hrecord with rfl | rfl
      · exact .value rfl trivial
      · exact .value rfl trivial
    · cases hm
      rcases mem_cases hrecord with rfl | rfl
      · exact .null
      · exact .value rfl trivial
    · cases hm
      rcases mem_tasks hrecord with rfl | rfl | rfl
      · exact .value rfl trivial
      · exact .value rfl trivial
      · exact .value rfl trivial
    · cases hm
      rcases mem_tasks hrecord with rfl | rfl | rfl
      · exact .value rfl trivial
      · exact .value rfl trivial
      · exact .null

theorem comparable (p : Principal) : Comparable catalog registry schema engine rowOf p "task" plan where
  columns := by
    intro x hx target htarget m hm record hrecord
    rw [List.mem_singleton.mp hx] at htarget ⊢
    cases htarget
    cases hm
    rcases mem_cases hrecord with rfl | rfl
    · exact .value rfl trivial rfl
    · exact .null
  operands := by
    intro x hx v hv
    rw [List.mem_singleton.mp hx] at hv
    cases hv
    trivial

end StoredOffice

/-- The filter is unknown for no row, true for the task whose case is not urgent, and not for the task of
an urgent case. -/
theorem truth_render_eq_evaluate_office :
    ∃ g, StoredOffice.plan.render StoredOffice.schema.language ⟨"task", "tasks", []⟩
        Office.clerk.principal = .ok g ∧
      (∀ row ∈ StoredOffice.database "tasks",
        g.toExpression.truth StoredOffice.engine StoredOffice.database [("tasks", row)] ≠ none) ∧
      g.toExpression.truth StoredOffice.engine StoredOffice.database
        [("tasks", StoredOffice.rowOf "task" StoredOffice.plainTask)] = some true ∧
      g.toExpression.truth StoredOffice.engine StoredOffice.database
        [("tasks", StoredOffice.rowOf "task" Office.openTask)] ≠ some true := by
  have hr : StoredOffice.catalog.registry Office.declarations = .ok StoredOffice.registry := rfl
  have hids : ∀ d ∈ Office.declarations, StoredOffice.catalog.IdsDiffer d.type := by
    intro d hd
    unfold Catalog.IdsDiffer
    rcases StoredOffice.mem_declarations hd with rfl | rfl
    · decide
    · decide
  have hd : Office.tasks ∈ Office.declarations := List.mem_cons_of_mem _ List.mem_cons_self
  have htable : ∀ n name, "tasks" ≠ Schema.aliasOf n name := by
    intro n name h
    have hlist := congrArg String.toList h
    rw [toList_aliasOf] at hlist
    exact absurd (List.cons.inj hlist).1 (by decide)
  have hcompile : Plan.compile StoredOffice.registry "task" StoredOffice.condition =
      .ok StoredOffice.plan := rfl
  have hplace : StoredOffice.schema.place "task" = .ok ⟨"task", "tasks", []⟩ := rfl
  have agree := truth_render_eq_evaluate hr (StoredOffice.engine_documented .sqlite)
    StoredOffice.storage hids hd hcompile (StoredOffice.comparable Office.clerk.principal) hplace
    htable rfl
  refine ⟨_, rfl, agree.1, (agree.2 StoredOffice.plainTask ?_).1.mpr rfl, fun h => ?_⟩
  · exact List.mem_cons_of_mem _ List.mem_cons_self
  · have hgranted := (agree.2 Office.openTask List.mem_cons_self).1.mp h
    cases hgranted

end AccessControl.Sql
