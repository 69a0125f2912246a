import AccessControl.Proofs.Digits
import AccessControl.Proofs.Sql.Storage

/-! # Conditions beyond relations

Each step along a relation becomes a subquery on a table with an alias of its own.  The aliases of
different steps are different (`aliasOf_inj`), so that the row of a step is not hidden by the next
one, and a condition at the end of a path comes to what the filter of records along the same path
does (`truth_path`). -/

namespace AccessControl

/-- A known path has a filter along it. -/
theorem RecordFilter.along_of_follow {r : Registry} (leaf : RecordFilter) {target : String} :
    ∀ {path : List String} {type : String}, Plan.follow r type path = .ok target →
    ∃ f, along r leaf type path = .ok f
  | [], _, _ => ⟨leaf, rfl⟩
  | name :: rest, type, h => by
      obtain ⟨found, hfound, h⟩ := bind_eq_ok.mp h
      obtain ⟨f, hf⟩ := along_of_follow leaf h
      refine ⟨traverse type name f, ?_⟩
      simp only [along, hfound, ok_bind, hf]
      rfl

namespace Sql

/-! ### Aliases -/

theorem toList_aliasOf (number : Nat) (table : String) :
    (Schema.aliasOf number table).toList = 'h' :: (Text.decimal number ++ '_' :: table.toList) := by
  simp [Schema.aliasOf, String.toList_append, String.toList_ofList]

/-- The aliases of different steps are different. -/
theorem aliasOf_inj {m n : Nat} {t u : String} (h : Schema.aliasOf m t = Schema.aliasOf n u) :
    m = n := by
  have hlist := congrArg String.toList h
  rw [toList_aliasOf, toList_aliasOf, List.cons.injEq] at hlist
  -- the digits are what stands before the first character that is no digit
  have digits : ∀ (k : Nat) (cs : List Char),
      (Text.decimal k ++ '_' :: cs).takeWhile Text.isDigit = Text.decimal k := by
    intro k cs
    rw [List.takeWhile_append_of_pos fun c hc => Text.isDigit_of_mem_decimal hc]
    have hmark : Text.isDigit '_' = false := by decide
    rw [List.takeWhile_cons_of_neg (by rw [hmark]; exact Bool.false_ne_true), List.append_nil]
  have hdigits := congrArg (List.takeWhile Text.isDigit) hlist.2
  rw [digits, digits] at hdigits
  exact Text.decimal_inj hdigits

/-- Whether a place has an alias that no further step will take. -/
def Place.IsFresh (p : Place) : Prop :=
  ∀ n, p.hops.length < n → ∀ table, p.aliasName ≠ Schema.aliasOf n table

theorem Place.isFresh_step (p : Place) (type table : String) (hop : Hop) :
    IsFresh ⟨type, Schema.aliasOf (p.hops.length + 1) table, hop :: p.hops⟩ := by
  intro n hn t heq
  have hnumber := aliasOf_inj heq
  simp only [List.length_cons] at hn
  omega

/-! ### Steps -/

section steps
variable {c : Catalog} {declarations : List Declaration} {r : Registry} {s : Schema}
  {db : Database} {rowOf : String → CatalogRecord → Row} {e : Engine}

/-- The place that a declared relation leads to. -/
theorem traverse_ok (hs : Storage c declarations s db rowOf) {d t : Declaration}
    (hd : d ∈ declarations) {found : DeclaredRelation} (hfound : found ∈ d.relations)
    (ht : t ∈ declarations) (htype : t.type = found.target) {p next : Place} (hp : d.type = p.type)
    (h : s.traverse p found.name = .ok next) :
    ∃ source remote, s.table p.type = .ok source ∧ s.table found.target = .ok remote ∧
      next = ⟨found.target, Schema.aliasOf (p.hops.length + 1) remote.table,
        ⟨remote.table, Schema.aliasOf (p.hops.length + 1) remote.table,
          remote.columnFor found.link.remoteField, p.aliasName,
          source.columnFor found.link.localField⟩ :: p.hops⟩ := by
  obtain ⟨source, hsource, h⟩ := bind_eq_ok.mp h
  obtain ⟨remote, hremote, -⟩ := hs.tables t ht
  rw [htype] at hremote
  have hjoin := hs.joins d hd found hfound source remote (hp ▸ hsource) hremote
  simp only [hjoin, joinOf, hremote, ok_bind] at h
  cases h
  exact ⟨source, remote, hsource, hremote, rfl⟩

/-- A subquery is true exactly if some row is joined to the row before and satisfies the inner
condition. -/
theorem truth_within (inner : Group) (h : Hop) {rows : Rows} {outer : Row}
    (houter : rows.lookup h.outerAlias = some outer) (hfresh : h.outerAlias ≠ h.aliasName) :
    (h.within inner).truth e db rows = some ((db h.table).any fun row =>
      (e.compare (row h.remoteColumn) .equal (outer h.localColumn)).and
        (inner.truth e db ((h.aliasName, row) :: rows)) == some true) := by
  have hlookup : ∀ row : Row, ((h.aliasName, row) :: rows).lookup h.outerAlias = some outer := by
    intro row
    rw [List.lookup_cons, beq_false_of_ne hfresh]
    exact houter
  show some ((db h.table).any fun row => Truth.and (e.compare
    ((Term.column h.aliasName h.remoteColumn).value e ((h.aliasName, row) :: rows)) .equal
    ((Term.column h.outerAlias h.localColumn).value e ((h.aliasName, row) :: rows)))
    (inner.truth e db ((h.aliasName, row) :: rows)) == some true) = _
  simp only [Term.value, hlookup, List.lookup_cons_self]

/-- A subquery comes to what the search among the records does that a link leads to, if its inner
condition comes to what the search asks of each. -/
theorem isOutcome_within (hs : Storage c declarations s db rowOf) {d t : Declaration}
    (hd : d ∈ declarations) {found : DeclaredRelation} (hfound : found ∈ d.relations)
    (ht : t ∈ declarations) (htype : t.type = found.target) (hids : c.IdsDiffer found.target)
    {source remote : TableMapping} (hsource : s.table d.type = .ok source)
    (hremote : s.table found.target = .ok remote) {outer aliasName : String}
    (hfresh : outer ≠ aliasName) {inner : Group} {test : Resource → Inquiry Bool}
    (hinner : ∀ rows, ∀ x ∈ c.records found.target,
      rows.lookup aliasName = some (rowOf found.target x) →
      (inner.truth e db rows).IsOutcome (test x.view).outcome)
    {rows : Rows} {record : CatalogRecord} (hrecord : record ∈ c.records d.type)
    (hrow : rows.lookup outer = some (rowOf d.type record)) :
    ((Hop.within inner ⟨remote.table, aliasName, remote.columnFor found.link.remoteField, outer,
      source.columnFor found.link.localField⟩).truth e db rows).IsOutcome
      (RecordFilter.holdsForSome test
        (found.link.follow c found.target record.view).toList).outcome := by
  obtain ⟨link, hlinks⟩ := hs.links
  have hlocal := hlinks _ _ (linkField_local hd hfound) source hsource record hrecord
  obtain ⟨m, hm, hrows⟩ := hs.tables t ht
  rw [htype, hremote] at hm
  cases hm
  rw [htype] at hrows
  rw [truth_within inner _ hrow hfresh, Link.follow_toList hids.present found.link, hrows.any_eq,
    List.any_map]
  refine isOutcome_search (c.records found.target) (fun x hx => ?_) (fun x hx => ?_)
  · exact truth_correlation e hlocal
      (hlinks _ _ (linkField_remote hd hfound ht htype) remote hremote x hx)
  · exact hinner _ x hx List.lookup_cons_self

/-- A condition at the end of a path comes to what the filter of records along the path does, if this
is so for the records at its end. -/
theorem truth_path (hr : c.registry declarations = .ok r) (hs : Storage c declarations s db rowOf)
    (hids : ∀ d ∈ declarations, c.IdsDiffer d.type) {field : String} {operator : Operator}
    {v : Value} {target : String}
    (hleaf : ∀ m test column rows, s.table target = .ok m →
      leaf s.dialect field column operator v = .ok test → ∀ record ∈ c.records target,
      column.value e rows = rowOf target record (m.columnFor field) →
      (test.truth e db rows).IsOutcome (compareField field (record.field? field) operator v)) :
    ∀ (path : List String) (p : Place) {g : Group} {f : RecordFilter}, p.IsFresh →
    Plan.follow r p.type path = .ok target →
    RecordFilter.along r (.compare field operator v) p.type path = .ok f →
    (do s.compareAt (← s.language.traverseAll p path) field operator v) = .ok g →
    ∃ inner : Group, g = p.hops.foldl Hop.within inner ∧
      ∀ rows, ∀ record ∈ c.records p.type,
        rows.lookup p.aliasName = some (rowOf p.type record) →
        (inner.truth e db rows).IsOutcome (f.holds r record.view).outcome
  | [], p, g, f, _, htarget, hf, hg => by
      cases htarget
      cases hf
      obtain ⟨_, hplace, hg⟩ := bind_eq_ok.mp hg
      cases hplace
      obtain ⟨m, hm, hg⟩ := bind_eq_ok.mp hg
      obtain ⟨test, htest, hg⟩ := bind_eq_ok.mp hg
      cases hg
      refine ⟨.single test, rfl, fun rows record hrecord hrow => ?_⟩
      refine hleaf m test _ rows hm htest record hrecord ?_
      simp only [Term.value, hrow]
  | name :: rest, p, g, f, hfresh, hpath, hf, hg => by
      obtain ⟨found, hfound, hrest⟩ := bind_eq_ok.mp hpath
      obtain ⟨found', hfound', hf⟩ := bind_eq_ok.mp hf
      rw [hfound] at hfound'
      cases hfound'
      obtain ⟨f', hf', hf⟩ := bind_eq_ok.mp hf
      cases hf
      obtain ⟨place, hplaces, hcompare⟩ := bind_eq_ok.mp hg
      obtain ⟨next, hnext, hplace⟩ := bind_eq_ok.mp hplaces
      obtain ⟨d, hd, hdtype, declared, hdeclared, rfl, hdtarget, hask⟩ :=
        Catalog.ask_of_relation hr hfound
      obtain ⟨t, ht, htype⟩ := Catalog.target_declared hr hfound
      rw [← hdtarget] at htype hrest hf'
      obtain ⟨source, remote, hsource, hremote, rfl⟩ :=
        traverse_ok hs hd hdeclared ht htype hdtype hnext
      obtain ⟨inner, rfl, hinner⟩ := truth_path hr hs hids hleaf rest _ (p.isFresh_step _ _ _)
        hrest hf' (bind_eq_ok.mpr ⟨place, hplace, hcompare⟩)
      refine ⟨Hop.within inner _, rfl, fun rows record hrecord hrow => ?_⟩
      have hholds : ∀ x : Resource, (RecordFilter.holds r x
          (.traverse p.type declared.name f')).outcome = (RecordFilter.holdsForSome
            (fun y => f'.holds r y) (declared.link.follow c declared.target x).toList).outcome := by
        intro x
        simp only [RecordFilter.holds, RecordFilter.join, Inquiry.outcome_bind,
          Registry.outcome_related hfound, hask, ok_bind]
        rfl
      rw [hholds]
      rw [← hdtype] at hsource hrecord hrow
      exact isOutcome_within hs hd hdeclared ht htype (htype ▸ hids t ht) hsource hremote
        (hfresh _ (Nat.lt_succ_self _) _) hinner hrecord hrow

end steps

end Sql
end AccessControl
