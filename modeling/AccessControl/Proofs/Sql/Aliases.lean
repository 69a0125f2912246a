import AccessControl.Proofs.Sql.Path

/-! # Aliases and the tables they hide

In a subquery a name stands for the innermost table that is called so.  The aliases of the steps of a
path are always different, since each begins with the number of its step, and no step hides the table
of the step before.  The table where a filter starts has no alias, and its own name may be the alias of
a step.  Every pair of joined columns is one of the step's own table and one of the table before exactly
if this is not so for the first step (`Schema.aliases_of_traverseAll`); if it is, then the condition
says the same of every row (`Place.Reached.truth_eq_of_namesake`). -/

namespace AccessControl.Sql

/-! ### Names -/

/-- The form in which two names are compared: sqlite takes upper and lower case for the same. -/
def Dialect.nameKey (d : Dialect) (name : String) : String :=
  match d with
  | .sqlite => name.toLower
  | .postgres => name

theorem toLower_of_isDigit {c : Char} (h : Text.isDigit c = true) : c.toLower = c := by
  simp only [Text.isDigit, Bool.and_eq_true, decide_eq_true_eq] at h
  have hhigh : c.toNat ≤ '9'.toNat := h.2
  have h9 : '9'.toNat = 57 := rfl
  unfold Char.toLower
  rw [dif_neg]
  rintro ⟨hupper, -⟩
  have hupper : 65 ≤ c.toNat := hupper
  omega

/-- An alias in lower case is the alias for the name in lower case. -/
theorem Dialect.nameKey_aliasOf (d : Dialect) (number : Nat) (table : String) :
    d.nameKey (Schema.aliasOf number table) = Schema.aliasOf number (d.nameKey table) := by
  cases d with
  | postgres => rfl
  | sqlite =>
      have hdigits : (Text.decimal number).map Char.toLower = Text.decimal number := by
        rw [List.map_congr_left fun c hc => toLower_of_isDigit (Text.isDigit_of_mem_decimal hc)]
        exact List.map_id' _
      have hlower : ∀ name : String, (nameKey .sqlite name).toList = name.toList.map Char.toLower :=
        fun name => String.toList_map
      apply String.toList_inj.mp
      rw [hlower, toList_aliasOf, toList_aliasOf, hlower, List.map_cons, List.map_append, hdigits]
      rfl

/-! ### Tables in scope -/

/-- How many levels out a name is found among the tables in scope, the innermost first. -/
def Dialect.level? (d : Dialect) (scope : List String) (name : String) : Option Nat :=
  scope.findIdx? fun table => d.nameKey table == d.nameKey name

/-- For each comparison of two columns in a condition, from the outside in, how many levels out the
tables of the left and of the right column are. -/
def Expression.correlations (d : Dialect) (scope : List String) :
    Expression → List (Option Nat × Option Nat)
  | compare left _ right =>
    match left, right with
    | .column table _, .column other _ => [(d.level? scope table, d.level? scope other)]
    | _, _ => []
  | subquery _ aliasName condition => correlations d (aliasName :: scope) condition
  | and left right | or left right => correlations d scope left ++ correlations d scope right
  | not inner => correlations d scope inner
  | constant _ | isNull _ | isPresent _ | among _ _ => []

section scopes
variable {d : Dialect} {scope : List String}

theorem Dialect.level?_self (d : Dialect) (name : String) (scope : List String) :
    d.level? (name :: scope) name = some 0 := by
  simp [level?, List.findIdx?_cons]

/-- The next table out is found unless the innermost one has its name. -/
theorem Dialect.level?_second (d : Dialect) (inner outer : String) (scope : List String) :
    d.level? (inner :: outer :: scope) outer =
      if d.nameKey inner = d.nameKey outer then some 0 else some 1 := by
  simp [level?, List.findIdx?_cons]

/-- A comparison of a column with a value compares no two columns. -/
theorem correlations_leaf {dialect : Dialect} {field table name : String} {operator : Operator}
    {value : Value} {e : Expression}
    (h : leaf dialect field (.column table name) operator value = .ok e) :
    e.correlations d scope = [] := by
  obtain ⟨test, htest, h⟩ := bind_eq_ok.mp h
  have hcompare : ∀ left sign p,
      (Expression.compare left sign (.parameter p)).correlations d scope = [] := by
    intro left sign p
    cases left <;> rfl
  have hnone : test.correlations d scope = [] := by
    unfold presentTest at htest
    simp only at htest
    split at htest
    all_goals
      cases htest
      try exact hcompare _ _ _
    rfl
  cases h
  cases operator
  all_goals exact hnone

theorem correlations_within (inner : Group) (h : Hop) :
    (h.within inner).toExpression.correlations d scope =
      (d.level? (h.aliasName :: scope) h.aliasName, d.level? (h.aliasName :: scope) h.outerAlias) ::
        inner.toExpression.correlations d (h.aliasName :: scope) := rfl

end scopes

/-! ### The steps to a place -/

namespace Place

/-- The tables that the steps to a place lead to, the first step first. -/
def tables (p : Place) : List String := p.hops.reverse.map (·.table)

/-- The aliases of the steps to a place, the first step first. -/
def aliases (p : Place) : List String := p.hops.reverse.map (·.aliasName)

/-- The place one step further, by way of a table. -/
def further (p : Place) (type table remoteColumn localColumn : String) : Place :=
  ⟨type, Schema.aliasOf (p.hops.length + 1) table,
    ⟨table, Schema.aliasOf (p.hops.length + 1) table, remoteColumn, p.aliasName, localColumn⟩ :: p.hops⟩

/-- The places that steps lead to from a table. -/
inductive Reached (root : String) : Place → Prop where
  | start (type : String) : Reached root ⟨type, root, []⟩
  | step {p : Place} (type table remoteColumn localColumn : String) : Reached root p →
      Reached root (p.further type table remoteColumn localColumn)

/-- Whether the alias of the step with a number, counted from zero, is the name of the table where the
steps start. -/
def Namesake (d : Dialect) (root : String) (p : Place) (n : Nat) : Prop :=
  p.tables[n]?.map (fun table => Schema.aliasOf (n + 1) (d.nameKey table)) = some (d.nameKey root)

section further
variable (p : Place) (type table remoteColumn localColumn : String)

theorem length_tables : p.tables.length = p.hops.length := by
  simp [tables]

theorem tables_further :
    (p.further type table remoteColumn localColumn).tables = p.tables ++ [table] := by
  simp [tables, further]

theorem aliases_further : (p.further type table remoteColumn localColumn).aliases =
    p.aliases ++ [Schema.aliasOf (p.hops.length + 1) table] := by
  simp [aliases, further]

end further
end Place

theorem Schema.traverse_eq_further {s : Schema} {p next : Place} {relation : String}
    (h : s.traverse p relation = .ok next) :
    ∃ type table remoteColumn localColumn,
      next = p.further type table remoteColumn localColumn := by
  obtain ⟨m, -, h⟩ := bind_eq_ok.mp h
  cases hjoin : m.joins.lookup relation with
  | none =>
      rw [hjoin] at h
      cases h
  | some join =>
      simp only [hjoin] at h
      obtain ⟨target, -, h⟩ := bind_eq_ok.mp h
      cases h
      exact ⟨_, _, _, _, rfl⟩

theorem Schema.reached_of_traverseAll {s : Schema} {root : String} : ∀ {path : List String}
    {start p : Place}, start.Reached root → s.language.traverseAll start path = .ok p →
    p.Reached root ∧ p.hops.length = start.hops.length + path.length
  | [], start, p, hstart, h => by
      cases h
      exact ⟨hstart, rfl⟩
  | relation :: rest, start, p, hstart, h => by
      obtain ⟨next, hnext, h⟩ := bind_eq_ok.mp h
      obtain ⟨type, table, remoteColumn, localColumn, rfl⟩ := traverse_eq_further hnext
      obtain ⟨hp, hlength⟩ := reached_of_traverseAll (hstart.step _ _ _ _) h
      refine ⟨hp, ?_⟩
      simp only [Place.further, List.length_cons] at hlength ⊢
      omega

namespace Place

variable {root : String} {p : Place}

/-- The alias of a step is made of its number and its table. -/
theorem Reached.nameKey_aliases (h : p.Reached root) (d : Dialect) :
    p.aliases.map d.nameKey =
      p.tables.mapIdx fun n table => Schema.aliasOf (n + 1) (d.nameKey table) := by
  induction h with
  | start type => rfl
  | step type table remoteColumn localColumn _ ih =>
      rw [aliases_further, tables_further, List.map_append, List.mapIdx_append, ih, length_tables]
      simp [d.nameKey_aliasOf]

/-- No two steps have the same alias, whatever their tables. -/
theorem Reached.nodup_aliases (h : p.Reached root) (d : Dialect) :
    (p.aliases.map d.nameKey).Nodup := by
  rw [h.nameKey_aliases]
  refine List.pairwise_iff_getElem.mpr ?_
  intro m n hm hn hlt heq
  rw [List.getElem_mapIdx, List.getElem_mapIdx] at heq
  have hnumber := aliasOf_inj heq
  omega

theorem Reached.mem_aliases (h : p.Reached root) (d : Dialect) :
    d.nameKey root ∈ p.aliases.map d.nameKey ↔ ∃ n, p.Namesake d root n := by
  rw [h.nameKey_aliases, List.mem_iff_getElem?]
  simp only [List.getElem?_mapIdx]
  rfl

end Place

/-! ### Joined columns -/

/-- How many levels out the tables of the joined columns of a step are found, where the table before is
the next one out. -/
def Hop.levels (d : Dialect) (h : Hop) : Option Nat × Option Nat :=
  (some 0, if d.nameKey h.aliasName = d.nameKey h.outerAlias then some 0 else some 1)

namespace Place

variable {root : String} {p : Place}

/-- The names of the tables in scope at a place, the innermost first. -/
def scope (root : String) (p : Place) : List String := p.hops.map (·.aliasName) ++ [root]

theorem Reached.scope_eq (h : p.Reached root) : ∃ outer, p.scope root = p.aliasName :: outer := by
  cases h with
  | start type => exact ⟨[], rfl⟩
  | step type table remoteColumn localColumn _ => exact ⟨_, rfl⟩

/-- Around an inner condition, each step joins its two columns. -/
theorem Reached.correlations_foldl (h : p.Reached root) (d : Dialect) : ∀ inner : Group,
    (p.hops.foldl Hop.within inner).toExpression.correlations d [root] =
      p.hops.reverse.map (Hop.levels d) ++ inner.toExpression.correlations d (p.scope root) := by
  induction h with
  | start type => intro inner; rfl
  | @step p type table remoteColumn localColumn hp ih =>
      intro inner
      obtain ⟨outer, hscope⟩ := hp.scope_eq
      have hfurther : (p.further type table remoteColumn localColumn).scope root =
          Schema.aliasOf (p.hops.length + 1) table :: p.aliasName :: outer :=
        congrArg (Schema.aliasOf (p.hops.length + 1) table :: ·) hscope
      rw [hfurther]
      simp only [further, List.foldl_cons, List.reverse_cons, List.map_append, List.append_assoc]
      rw [ih, correlations_within, hscope, Dialect.level?_self, Dialect.level?_second]
      rfl

/-- A place that is reached by some step has the alias of the last one. -/
theorem Reached.aliasName_eq (h : p.Reached root) (hpos : 0 < p.hops.length) :
    ∃ table, p.aliasName = Schema.aliasOf p.hops.length table := by
  cases h with
  | start type => exact absurd hpos (Nat.lt_irrefl 0)
  | step type table remoteColumn localColumn _ => exact ⟨table, rfl⟩

/-- Each step is told apart from the table before it exactly if the first one is: before a later step
there is an alias with another number. -/
theorem Reached.forall_ne_outerAlias (h : p.Reached root) (d : Dialect) :
    (∀ hop ∈ p.hops, d.nameKey hop.aliasName ≠ d.nameKey hop.outerAlias) ↔
      ¬ p.Namesake d root 0 := by
  induction h with
  | start type =>
      apply iff_of_true
      · intro hop hhop
        cases hhop
      · intro hsame
        cases hsame
  | @step p type table remoteColumn localColumn hp ih =>
      have hhops : (p.further type table remoteColumn localColumn).hops =
          ⟨table, Schema.aliasOf (p.hops.length + 1) table, remoteColumn, p.aliasName, localColumn⟩ ::
            p.hops := rfl
      rw [hhops, List.forall_mem_cons, ih, Namesake, Namesake, tables_further, d.nameKey_aliasOf]
      rcases Nat.eq_zero_or_pos p.hops.length with hzero | hpos
      · have htables : p.tables = [] := List.eq_nil_of_length_eq_zero (p.length_tables.trans hzero)
        have hname : p.aliasName = root := by
          cases hp with
          | start type => rfl
          | step => exact absurd hzero (Nat.succ_ne_zero _)
        simp [htables, hzero, hname]
      · obtain ⟨before, hbefore⟩ := hp.aliasName_eq hpos
        have hnumber : Schema.aliasOf (p.hops.length + 1) (d.nameKey table) ≠ d.nameKey p.aliasName := by
          intro hsame
          rw [hbefore, d.nameKey_aliasOf] at hsame
          have hlength := aliasOf_inj hsame
          omega
        rw [List.getElem?_append_left (by rw [p.length_tables]; exact hpos)]
        exact and_iff_right hnumber

/-- All steps join a column of their own table to one of the table before exactly if the first does. -/
theorem Reached.levels_eq_replicate (h : p.Reached root) (d : Dialect) :
    p.hops.reverse.map (Hop.levels d) = List.replicate p.hops.length (some 0, some 1) ↔
      ¬ p.Namesake d root 0 := by
  rw [← h.forall_ne_outerAlias, List.eq_replicate_iff]
  simp [Hop.levels]

end Place

/-! ### Rows out of reach -/

theorem Term.value_congr {e : Engine} {rows rows' : Rows}
    (h : ∀ name, rows.lookup name = rows'.lookup name) : ∀ t : Term, t.value e rows = t.value e rows'
  | column table name => by
      unfold Term.value
      rw [h table]
  | parameter _ => rfl
  | call function first second => by
      unfold Term.value
      rw [value_congr h first, value_congr h second]

/-- A condition depends on the rows in scope by the names they are found under. -/
theorem Expression.truth_congr {e : Engine} {db : Database} : ∀ (x : Expression) {rows rows' : Rows},
    (∀ name, rows.lookup name = rows'.lookup name) → x.truth e db rows = x.truth e db rows'
  | constant _, _, _, _ => rfl
  | compare left _ right, _, _, h => by
      unfold Expression.truth
      rw [left.value_congr h, right.value_congr h]
  | isNull t, _, _, h | isPresent t, _, _, h | among t _, _, _, h => by
      unfold Expression.truth
      rw [t.value_congr h]
  | subquery table aliasName condition, rows, rows', h => by
      have hinner : ∀ row, condition.truth e db ((aliasName, row) :: rows) =
          condition.truth e db ((aliasName, row) :: rows') := by
        intro row
        apply truth_congr
        intro name
        rw [List.lookup_cons, List.lookup_cons, h name]
      unfold Expression.truth
      simp only [hinner]
  | and left right, _, _, h | or left right, _, _, h => by
      unfold Expression.truth
      rw [left.truth_congr h, right.truth_congr h]
  | not inner, _, _, h => by
      unfold Expression.truth
      rw [inner.truth_congr h]

/-- The rows of a subquery hide a row outside of it that goes by the same name. -/
theorem Expression.truth_subquery_namesake (table name : String) (condition : Expression) (e : Engine)
    (db : Database) (row row' : Row) :
    (subquery table name condition).truth e db [(name, row)] =
      (subquery table name condition).truth e db [(name, row')] := by
  have hinner : ∀ r, condition.truth e db [(name, r), (name, row)] =
      condition.truth e db [(name, r), (name, row')] := by
    intro r
    apply condition.truth_congr
    intro other
    simp only [List.lookup_cons]
    cases other == name <;> rfl
  unfold truth
  simp only [hinner]

theorem Place.Reached.truth_foldl {root : String} {p : Place} (h : p.Reached root)
    (hsame : p.Namesake .postgres root 0) (e : Engine) (db : Database) (row row' : Row) :
    ∀ inner : Group, (p.hops.foldl Hop.within inner).toExpression.truth e db [(root, row)] =
      (p.hops.foldl Hop.within inner).toExpression.truth e db [(root, row')] := by
  induction h with
  | start type => cases hsame
  | @step p type table remoteColumn localColumn hp ih =>
      intro inner
      cases hp with
      | start =>
          have hroot : Schema.aliasOf 1 table = root := Option.some.inj hsame
          subst hroot
          exact Expression.truth_subquery_namesake table (Schema.aliasOf 1 table) _ e db row row'
      | @step p =>
          apply ih
          rw [Namesake, tables_further, List.getElem?_append_left] at hsame
          · exact hsame
          · rw [length_tables]
            exact Nat.succ_pos _

/-! ### Paths -/

/-- A condition at a place is a comparison with the steps around it. -/
theorem Schema.exists_foldl_of_compareAt {s : Schema} {p : Place} {field : String}
    {operator : Operator} {value : Value} {g : Group}
    (h : s.compareAt p field operator value = .ok g) :
    ∃ name test, leaf s.dialect field (.column p.aliasName name) operator value = .ok test ∧
      g = p.hops.foldl Hop.within (.single test) := by
  obtain ⟨m, -, h⟩ := bind_eq_ok.mp h
  obtain ⟨test, htest, h⟩ := bind_eq_ok.mp h
  cases h
  exact ⟨_, test, htest, rfl⟩

namespace Place.Reached

variable {s : Schema} {root : String} {p : Place} {field : String} {operator : Operator}
  {value : Value} {g : Group}

/-- The columns that are joined in a condition are those of the steps. -/
theorem correlations_compareAt (h : p.Reached root) (d : Dialect)
    (hg : s.compareAt p field operator value = .ok g) :
    g.toExpression.correlations d [root] = p.hops.reverse.map (Hop.levels d) := by
  obtain ⟨name, test, htest, rfl⟩ := Schema.exists_foldl_of_compareAt hg
  have hnone : (Group.single test).toExpression.correlations d (p.scope root) = [] :=
    correlations_leaf htest
  rw [h.correlations_foldl, hnone, List.append_nil]

/-- Where the first step has the name of the table before it for its alias, no column of that table is
within reach, and the condition says the same of all its rows. -/
theorem truth_eq_of_namesake (h : p.Reached root) (hsame : p.Namesake .postgres root 0)
    (hg : s.compareAt p field operator value = .ok g) (e : Engine) (db : Database) (row row' : Row) :
    g.toExpression.truth e db [(root, row)] = g.toExpression.truth e db [(root, row')] := by
  obtain ⟨name, test, -, rfl⟩ := Schema.exists_foldl_of_compareAt hg
  exact h.truth_foldl hsame e db row row' _

end Place.Reached

/-- The aliases of the steps along a path are pairwise different.  With the name of the table where the
path starts they are so exactly if this is the alias of no step.  In the condition at the end of the
path there are two joined columns for each step, and in each pair one is of the step's own table and one
of the table one level out, exactly if that name is not the alias of the first step. -/
theorem Schema.aliases_of_traverseAll (s : Schema) (d : Dialect) {type : String} {path : List String}
    {root p : Place} (hroot : s.place type = .ok root)
    (hp : s.language.traverseAll root path = .ok p) :
    (p.aliases.length = path.length ∧ (p.aliases.map d.nameKey).Nodup) ∧
    (((root.aliasName :: p.aliases).map d.nameKey).Nodup ↔
      ∀ n, ¬ p.Namesake d root.aliasName n) ∧
    ∀ field operator value g, s.compareAt p field operator value = .ok g →
      (g.toExpression.correlations d [root.aliasName] =
        List.replicate path.length (some 0, some 1) ↔ ¬ p.Namesake d root.aliasName 0) := by
  obtain ⟨m, hm, hstart⟩ := bind_eq_ok.mp hroot
  cases hstart
  obtain ⟨hreached, hlength⟩ := reached_of_traverseAll (.start type) hp
  have hlength : p.hops.length = path.length := hlength.trans (Nat.zero_add _)
  refine ⟨⟨?_, hreached.nodup_aliases d⟩, ?_, ?_⟩
  · rw [Place.aliases, List.length_map, List.length_reverse, hlength]
  · rw [List.map_cons, List.nodup_cons, hreached.mem_aliases, not_exists]
    exact and_iff_left (hreached.nodup_aliases d)
  · intro field operator value g hg
    rw [hreached.correlations_compareAt d hg, ← hlength]
    exact hreached.levels_eq_replicate d

/-! ### An archive -/

namespace Archive

/-- Cases that belong to cases, and tasks with cases of their own.  The table of the tasks is named like
the alias of a first step to the cases. -/
def schema : Schema :=
  ⟨.sqlite, [("case", ⟨"cases", [], [("parent", ⟨"case", "parentId", "id"⟩)]⟩),
    ("task", ⟨"h1_cases", [], [("cases", ⟨"case", "id", "taskId"⟩)]⟩)]⟩

def ofCase : Place := ⟨"case", "cases", []⟩

def ofGrandparent : Place :=
  (ofCase.further "case" "cases" "id" "parentId").further "case" "cases" "id" "parentId"

def ofTask : Place := ⟨"task", "h1_cases", []⟩

def ofTaskCases : Place := ofTask.further "case" "cases" "taskId" "id"

theorem aliasOf_one : Schema.aliasOf 1 "cases" = "h1_cases" := by
  apply String.toList_inj.mp
  rw [toList_aliasOf, Text.decimal_of_lt (by decide)]
  rfl

theorem not_namesake (n : Nat) : ¬ ofGrandparent.Namesake .sqlite "cases" n := by
  intro h
  obtain ⟨table, -, hname⟩ := Option.map_eq_some_iff.mp h
  have hlist := congrArg String.toList hname
  rw [toList_aliasOf] at hlist
  have hlower : (Dialect.nameKey .sqlite "cases").toList = "cases".toList := by decide +kernel
  rw [hlower] at hlist
  exact absurd (List.cons.inj hlist).1 (by decide)

end Archive

/-- From cases to the case above and to the one above that, the aliases differ although the table is the
same, and each subquery is joined to the one around it. -/
theorem Schema.aliases_of_traverseAll_archive :
    Archive.schema.place "case" = .ok Archive.ofCase ∧
    Archive.schema.language.traverseAll Archive.ofCase ["parent", "parent"] = .ok Archive.ofGrandparent ∧
    ((Archive.ofCase.aliasName :: Archive.ofGrandparent.aliases).map (Dialect.nameKey .sqlite)).Nodup ∧
    ∃ g, Archive.schema.compareAt Archive.ofGrandparent "status" .equals (.string "OPEN") = .ok g ∧
      g.toExpression.correlations .sqlite ["cases"] = [(some 0, some 1), (some 0, some 1)] := by
  have hroot : Archive.schema.place "case" = .ok Archive.ofCase := rfl
  have hp : Archive.schema.language.traverseAll Archive.ofCase ["parent", "parent"] =
      .ok Archive.ofGrandparent := rfl
  obtain ⟨-, hnodup, hcorrelations⟩ := Schema.aliases_of_traverseAll Archive.schema .sqlite hroot hp
  refine ⟨hroot, hp, hnodup.mpr Archive.not_namesake, _, rfl, ?_⟩
  exact (hcorrelations "status" .equals (.string "OPEN") _ rfl).mpr (Archive.not_namesake 0)

/-- From the table of the tasks, the alias of the first step is the name of that table.  The two joined
columns of the step are both of its own table, and the condition is true for all tasks or for none. -/
theorem Schema.alias_named_like_table :
    Archive.schema.place "task" = .ok Archive.ofTask ∧
    Archive.schema.language.traverseAll Archive.ofTask ["cases"] = .ok Archive.ofTaskCases ∧
    ¬ (Archive.ofTask.aliasName :: Archive.ofTaskCases.aliases).Nodup ∧
    ∃ g, Archive.schema.compareAt Archive.ofTaskCases "status" .equals (.string "OPEN") = .ok g ∧
      g.toExpression.correlations .sqlite [Archive.ofTask.aliasName] = [(some 0, some 0)] ∧
      ∀ (e : Engine) (db : Database) (row row' : Row),
        g.toExpression.truth e db [(Archive.ofTask.aliasName, row)] =
          g.toExpression.truth e db [(Archive.ofTask.aliasName, row')] := by
  have hreached : Archive.ofTaskCases.Reached "h1_cases" := .step _ _ _ _ (.start "task")
  have haliases : Archive.ofTaskCases.aliases = ["h1_cases"] :=
    congrArg (fun name => [name]) Archive.aliasOf_one
  obtain ⟨g, hg⟩ : ∃ g, Archive.schema.compareAt Archive.ofTaskCases "status" .equals
      (.string "OPEN") = .ok g := ⟨_, rfl⟩
  refine ⟨rfl, rfl, ?_, g, hg, ?_, ?_⟩
  · rw [haliases]
    decide
  · show g.toExpression.correlations .sqlite ["h1_cases"] = _
    rw [hreached.correlations_compareAt .sqlite hg]
    show [Hop.levels .sqlite ⟨"cases", Schema.aliasOf 1 "cases", "taskId", "h1_cases", "id"⟩] = _
    rw [Hop.levels, Archive.aliasOf_one, if_pos rfl]
  · intro e db row row'
    exact hreached.truth_eq_of_namesake (congrArg some Archive.aliasOf_one) hg e db row row'

end AccessControl.Sql
