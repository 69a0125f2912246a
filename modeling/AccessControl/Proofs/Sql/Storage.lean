import AccessControl.Proofs.Link
import AccessControl.Proofs.Sql.Comparison

/-! # Catalogs in a database

A catalog is stored in a database when each declared type has a table with one row for each record,
and the joins of the schema are those of the declared links (`Storage`).  Then the rows that a join
finds are those of the records that the link leads to (`truth_correlation`, `Link.follow_toList`), so
that a subquery comes to what the search among related records does (`isOutcome_search`). -/

namespace AccessControl

namespace Sql

/-! ### Tables -/

/-- The join of a declared relation, between the tables of its two types. -/
def joinOf (found : DeclaredRelation) (source remote : TableMapping) : Join where
  target := found.target
  localColumn := source.columnFor found.link.localField
  remoteColumn := remote.columnFor found.link.remoteField

/-- The fields that records are joined by: the ids, and at one end of each relation its field. -/
inductive LinkField (declarations : List Declaration) : String → String → Prop where
  | id {d : Declaration} : d ∈ declarations → LinkField declarations d.type "id"
  | key {d : Declaration} {found : DeclaredRelation} {field : String} : d ∈ declarations →
      found ∈ d.relations → found.link = .key field → LinkField declarations d.type field
  | foreign {d : Declaration} {found : DeclaredRelation} {field : String} : d ∈ declarations →
      found ∈ d.relations → found.link = .foreign field → LinkField declarations found.target field

/-- Whether a cell holds the value of a field that records are joined by: no value is no cell. -/
inductive HoldsLink (d : Dialect) (link : ValueType) : Value → Cell → Prop where
  | null : HoldsLink d link .null .null
  | value {v : Value} : Literal.naturalType? v = some link → IsExact d v →
      HoldsLink d link v (bind d v)

/-- A catalog as it is stored in a database: each declared type has a table with a row for each of
its records, the relations have the joins of their links, and all fields that records are joined by
hold scalars of one type. -/
structure Storage (c : Catalog) (declarations : List Declaration) (s : Schema) (db : Database)
    (rowOf : String → CatalogRecord → Row) : Prop where
  tables : ∀ d ∈ declarations, ∃ m, s.table d.type = .ok m ∧
    (db m.table).Perm ((c.records d.type).map (rowOf d.type))
  joins : ∀ d ∈ declarations, ∀ found ∈ d.relations, ∀ source remote,
    s.table d.type = .ok source → s.table found.target = .ok remote →
    source.joins.lookup found.name = some (joinOf found source remote)
  links : ∃ link, ∀ type field, LinkField declarations type field → ∀ m, s.table type = .ok m →
    ∀ record ∈ c.records type,
      HoldsLink s.dialect link (record.value field) (rowOf type record (m.columnFor field))

theorem linkField_local {declarations : List Declaration} {d : Declaration}
    {found : DeclaredRelation} (hd : d ∈ declarations) (hfound : found ∈ d.relations) :
    LinkField declarations d.type found.link.localField := by
  cases hlink : found.link with
  | key field => exact .key hd hfound hlink
  | foreign field => exact .id hd

theorem linkField_remote {declarations : List Declaration} {d target : Declaration}
    {found : DeclaredRelation} (hd : d ∈ declarations) (hfound : found ∈ d.relations)
    (htarget : target ∈ declarations) (htype : target.type = found.target) :
    LinkField declarations found.target found.link.remoteField := by
  cases hlink : found.link with
  | key field => exact htype ▸ .id htarget
  | foreign field => exact .foreign hd hfound hlink

/-- A join finds the rows of the records that the link leads to. -/
theorem truth_correlation (e : Engine) {d : Dialect} {link : ValueType} {v w : Value}
    {localCell remoteCell : Cell} (hlocal : HoldsLink d link v localCell)
    (hremote : HoldsLink d link w remoteCell) :
    (e.compare remoteCell .equal localCell == some true) = (!v.isNull && w.same v) := by
  have present : ∀ {u : Value}, Literal.naturalType? u = some link → u.isNull = false := by
    intro u hu
    cases u <;> first | rfl | cases hu
  cases hlocal with
  | null =>
      have hunknown : e.compare remoteCell .equal .null = none := by
        simp [Engine.compare, Parameter.isNull]
      rw [hunknown]
      rfl
  | value hv hve =>
      rw [present hv]
      cases hremote with
      | null =>
          have hunknown : e.compare .null .equal (bind d v) = none := by
            simp [Engine.compare, Parameter.isNull]
          have hdiffer : Value.null.same v = false := by
            cases v <;> first | rfl | cases hv
          rw [hunknown, hdiffer]
          rfl
      | value hw hwe =>
          rw [compare_bind_equal e hw hv hwe hve]
          cases w.same v <;> rfl

/-- A subquery over the rows of records comes to what a search among those does that are joined. -/
theorem isOutcome_search {correlation inner : CatalogRecord → Truth} {joined : CatalogRecord → Bool}
    {test : Resource → Inquiry Bool} : ∀ records : List CatalogRecord,
    (∀ x ∈ records, (correlation x == some true) = joined x) →
    (∀ x ∈ records, (inner x).IsOutcome (test x.view).outcome) →
    Truth.IsOutcome (some (records.any fun x => (correlation x).and (inner x) == some true))
      (RecordFilter.holdsForSome test ((records.filter joined).map CatalogRecord.view)).outcome
  | [], _, _ => ⟨false, rfl, rfl⟩
  | x :: rest, hjoined, hinner => by
      obtain ⟨hx, hrest⟩ := List.forall_mem_cons.mp hjoined
      obtain ⟨⟨b, htruth, hb⟩, hinner⟩ := List.forall_mem_cons.mp hinner
      obtain ⟨more, hmore, ih⟩ := isOutcome_search rest hrest hinner
      rw [Option.some.injEq] at hmore
      cases hjx : joined x with
      | true =>
          rw [hjx, beq_iff_eq] at hx
          refine ⟨b || more, ?_, ?_⟩
          · rw [List.any_cons, hmore, hx, Truth.and_true_left, htruth]
            cases b <;> rfl
          · rw [List.filter_cons_of_pos hjx, List.map_cons, RecordFilter.holdsForSome,
              Inquiry.outcome_bind, hb, ok_bind]
            cases b with
            | true => rfl
            | false => exact ih
      | false =>
          have hnot : ((correlation x).and (inner x) == some true) = false := by
            rw [hjx, beq_eq_false_iff_ne] at hx
            rw [beq_eq_false_iff_ne]
            exact fun h => hx (Truth.and_eq_true.mp h).1
          refine ⟨more, ?_, ?_⟩
          · rw [List.any_cons, hmore, hnot, Bool.false_or]
          · rw [List.filter_cons_of_neg (by rw [hjx]; exact Bool.false_ne_true)]
            exact ih

end Sql
end AccessControl
