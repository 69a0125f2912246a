import AccessControl.Proofs.Decision
import AccessControl.Proofs.Value

/-! # Links

A link leads from one record to another if the fields that it joins have the same value and have one
(`Link.leads`).  Following a link gives the records that it leads to (`Link.follow_toList`), provided,
where it goes by ids, that no two records of its target share one: of several it would give the first.

The two kinds of links join the same fields from opposite ends.  So where two types declare one each,
either relation can be read off the other (`Declaration.key_inverts_foreign`). -/

namespace AccessControl

/-- The field of the record that a link starts from. -/
def Link.localField : Link → String
  | key field => field
  | foreign _ => "id"

/-- The field of the records that a link leads to. -/
def Link.remoteField : Link → String
  | key _ => "id"
  | foreign field => field

/-- The value of a field, or null if there is none. -/
def CatalogRecord.value (record : CatalogRecord) (field : String) : Value :=
  (record.field? field).getD .null

/-- Whether a link leads from one record to another, which is so if their fields have the same value
and have one. -/
def Link.leads (link : Link) (source record : CatalogRecord) : Bool :=
  !(source.value link.localField).isNull &&
    (record.value link.remoteField).same (source.value link.localField)

/-- Whether the ids of the records of a type are different. -/
def Catalog.IdsDiffer (c : Catalog) (type : String) : Prop :=
  (c.records type).Pairwise fun a b => (a.value "id").same (b.value "id") = false

/-- Whether those ids of the records of a type are different that are not null. -/
def Catalog.PresentIdsDiffer (c : Catalog) (type : String) : Prop :=
  (c.records type).Pairwise fun a b =>
    (a.value "id").isNull = false → (b.value "id").isNull = false →
      (a.value "id").same (b.value "id") = false

/-! ### Records by a value -/

namespace CatalogRecord

theorem present?_view (record : CatalogRecord) (field : String) :
    record.view.present? field =
      if (record.value field).isNull then none else some (record.value field) := by
  show (record.field? field).filter (fun v => !v.isNull) = _
  unfold value
  cases record.field? field with
  | none => rfl
  | some v =>
      rw [Option.getD_some, Option.filter_some]
      cases v.isNull <;> rfl

/-- Records that look alike have the same values. -/
theorem value_of_view_eq {a b : CatalogRecord} (h : a.view = b.view) : a.value = b.value := by
  funext field
  exact congrArg (fun x => (x.field field).getD .null) h

end CatalogRecord

namespace Catalog
variable {c : Catalog} {type : String}

theorem recordsWith_eq (c : Catalog) (type field : String) {wanted : Value}
    (h : wanted.isNull = false) :
    c.recordsWith type field wanted = (c.records type).filter fun x => (x.value field).same wanted := by
  unfold recordsWith
  refine List.filter_congr fun x _ => ?_
  unfold CatalogRecord.value
  cases x.field? field with
  | some v => rfl
  | none => cases wanted <;> first | rfl | cases h

theorem IdsDiffer.present (h : c.IdsDiffer type) : c.PresentIdsDiffer type :=
  List.Pairwise.imp (fun hdiffer _ _ => hdiffer) h

/-- Where ids are different, at most one record has an id. -/
theorem PresentIdsDiffer.length_le_one (h : c.PresentIdsDiffer type) {id : Value}
    (hnull : id.isNull = false) : (c.recordsWith type "id" id).length ≤ 1 := by
  have hsame : ∀ x ∈ c.recordsWith type "id" id, (x.value "id").same id = true := by
    rw [recordsWith_eq c type "id" hnull]
    exact fun x hx => (List.mem_filter.mp hx).2
  have hpairwise : (c.recordsWith type "id" id).Pairwise _ := List.Pairwise.filter _ h
  rcases hfound : c.recordsWith type "id" id with _ | ⟨first, _ | ⟨second, rest⟩⟩
  · exact Nat.zero_le 1
  · exact Nat.le_refl 1
  · rw [hfound] at hpairwise hsame
    have hfirst := hsame first List.mem_cons_self
    have hsecond := hsame second (List.mem_cons_of_mem _ List.mem_cons_self)
    have hdiffer := (List.pairwise_cons.mp hpairwise).1 second List.mem_cons_self
      ((Value.isNull_eq_of_same hfirst).trans hnull) ((Value.isNull_eq_of_same hsecond).trans hnull)
    rw [Value.same_comm] at hsecond
    rw [Value.same_trans hfirst hsecond] at hdiffer
    cases hdiffer

end Catalog

/-! ### Following a link -/

namespace Link
variable {c : Catalog} {target field : String} {source record : CatalogRecord}

theorem filter_leads_of_null (link : Link) (h : (source.value link.localField).isNull = true)
    (records : List CatalogRecord) : records.filter (link.leads source) = [] := by
  refine List.filter_eq_nil_iff.mpr fun x _ => ?_
  rw [leads, h]
  exact Bool.false_ne_true

theorem filter_leads_of_present (c : Catalog) (target : String) (link : Link)
    (h : (source.value link.localField).isNull = false) :
    (c.records target).filter (link.leads source) =
      c.recordsWith target link.remoteField (source.value link.localField) := by
  rw [Catalog.recordsWith_eq c target _ h]
  refine List.filter_congr fun x _ => ?_
  rw [leads, h]
  rfl

/-- Where a link leads nowhere, following it finds nothing. -/
theorem follow_of_null (link : Link) (h : (source.value link.localField).isNull = true) :
    link.follow c target source.view = .missing := by
  cases link <;> rw [localField] at h <;>
    simp only [follow, CatalogRecord.present?_view, h, if_true]

/-- Following a foreign link gives the records that it leads to. -/
theorem follow_foreign_toList (c : Catalog) (target field : String) (source : CatalogRecord) :
    ((foreign field).follow c target source.view).toList =
      ((c.records target).filter ((foreign field).leads source)).map CatalogRecord.view := by
  cases hnull : (source.value "id").isNull with
  | true =>
      rw [filter_leads_of_null (foreign field) hnull, follow_of_null (foreign field) hnull]
      rfl
  | false =>
      rw [filter_leads_of_present c target (foreign field) hnull]
      simp only [follow, CatalogRecord.present?_view, hnull, Bool.false_eq_true, if_false,
        Related.toList]
      rfl

/-- Following a link to different ids gives the records that it leads to, of which there is at most
one. -/
theorem follow_key_toList (hids : c.PresentIdsDiffer target) (field : String) (source : CatalogRecord) :
    ((key field).follow c target source.view).toList =
      ((c.records target).filter ((key field).leads source)).map CatalogRecord.view := by
  cases hnull : (source.value field).isNull with
  | true =>
      rw [filter_leads_of_null (key field) hnull, follow_of_null (key field) hnull]
      rfl
  | false =>
      have hlength := hids.length_le_one hnull
      rw [filter_leads_of_present c target (key field) hnull]
      simp only [follow, CatalogRecord.present?_view, hnull, Bool.false_eq_true, if_false]
      show _ = (c.recordsWith target "id" (source.value field)).map CatalogRecord.view
      rcases hfound : c.recordsWith target "id" (source.value field) with
        _ | ⟨first, _ | ⟨second, rest⟩⟩
      · rfl
      · rfl
      · rw [hfound] at hlength
        simp at hlength

/-- Following a link gives the records that it leads to. -/
theorem follow_toList (hids : c.PresentIdsDiffer target) : ∀ (link : Link) (source : CatalogRecord),
    (link.follow c target source.view).toList =
      ((c.records target).filter (link.leads source)).map CatalogRecord.view
  | key field, source => follow_key_toList hids field source
  | foreign field, source => follow_foreign_toList c target field source

/-- A key answers with a resource exactly if that is what it reaches. -/
theorem follow_key_eq_one {subject x : Resource} : (key field).follow c target subject = .one x ↔
    x ∈ ((key field).follow c target subject).toList := by
  simp only [follow]
  split
  · simp [Related.toList]
  · split
    · simp [Related.toList]
    · simp only [Related.toList, List.mem_singleton, Related.one.injEq]
      exact eq_comm

/-- What looks like one of the records that a link leads to is one that it leads to. -/
theorem mem_map_view_filter_leads (link : Link) {records : List CatalogRecord} (h : record ∈ records) :
    record.view ∈ (records.filter (link.leads source)).map CatalogRecord.view ↔
      link.leads source record = true := by
  rw [List.mem_map]
  constructor
  · rintro ⟨other, hother, hview⟩
    have hleads := (List.mem_filter.mp hother).2
    rwa [leads, CatalogRecord.value_of_view_eq hview] at hleads
  · exact fun hleads => ⟨record, List.mem_filter.mpr ⟨h, hleads⟩, rfl⟩

/-- A key leads back from where the foreign link of its field leads to. -/
theorem leads_key_eq_foreign (field : String) (a b : CatalogRecord) :
    (key field).leads b a = (foreign field).leads a b := by
  simp only [leads, localField, remoteField, Value.same_comm (a.value "id")]
  cases hsame : (b.value field).same (a.value "id") with
  | false => rw [Bool.and_false, Bool.and_false]
  | true => rw [Value.isNull_eq_of_same hsame]

end Link

/-! ### Tasks of cases -/

namespace Office

def nextTask : CatalogRecord := ⟨[("caseId", .string "c1"), ("id", .string "t5")]⟩

/-- A case that is not numbered yet. -/
def newCase : CatalogRecord := ⟨[("id", .null), ("urgent", .boolean true)]⟩

def busyCatalog : Catalog :=
  ⟨[("case", [newCase, openCase, oddCase, newCase]), ("task", [openTask, oddTask, nextTask, looseTask])]⟩

def busyCases : Declaration := ⟨"case", ["view"], [⟨"tasks", "task", .foreign "caseId"⟩]⟩

end Office

namespace Declaration

/-- A key and a foreign link over the same field are inverse.  If one type relates to another by a
field of the records there that holds ids, these relate back by that field, and the ids that are not
null are different, then relating back from a record answers with the one record that the field leads
to, exactly if that record's own relation lists it; and that relation lists the records which relate
back, in the order of the catalog and each once. -/
theorem key_inverts_foreign {c : Catalog} {parent child : Declaration} {down up field : String}
    (hdown : parent.relations.find? (·.name == down) = some ⟨down, child.type, .foreign field⟩)
    (hup : child.relations.find? (·.name == up) = some ⟨up, parent.type, .key field⟩)
    (hids : c.PresentIdsDiffer parent.type) {a : CatalogRecord} (ha : a ∈ c.records parent.type) :
    ∃ reached, parent.related c a.view down = .ok reached ∧
      reached.toList =
        ((c.records child.type).filter ((Link.foreign field).leads a)).map CatalogRecord.view ∧
      ∀ b ∈ c.records child.type,
        (child.related c b.view up = .ok (.one a.view) ↔ b.view ∈ reached.toList) ∧
        (child.related c b.view up = .ok (.one a.view) ↔ (Link.foreign field).leads a b = true) := by
  have hlist := Link.follow_foreign_toList c child.type field a
  refine ⟨(Link.foreign field).follow c child.type a.view, ?down, hlist, fun b hb => ?_⟩
  case down => simp only [related, hdown]
  have hback : child.related c b.view up = .ok (.one a.view) ↔
      (Link.foreign field).leads a b = true := by
    simp only [related, hup, Except.ok.injEq]
    rw [Link.follow_key_eq_one, Link.follow_key_toList hids, Link.mem_map_view_filter_leads _ ha,
      Link.leads_key_eq_foreign]
  refine ⟨?_, hback⟩
  rw [hback, hlist, Link.mem_map_view_filter_leads _ hb]

/-- Two of four tasks belong to the open case and relate back to it; another does not.  Two cases
without an id are no obstacle. -/
theorem key_inverts_foreign_office :
    Office.busyCases.related Office.busyCatalog Office.openCase.view "tasks" =
      .ok (.many [Office.openTask.view, Office.nextTask.view]) ∧
    Office.tasks.related Office.busyCatalog Office.nextTask.view "relatedCase" =
      .ok (.one Office.openCase.view) ∧
    ¬ Office.tasks.related Office.busyCatalog Office.oddTask.view "relatedCase" =
      .ok (.one Office.openCase.view) := by
  have hids : Office.busyCatalog.PresentIdsDiffer Office.busyCases.type := by
    unfold Catalog.PresentIdsDiffer
    decide
  have hdown : Office.busyCases.relations.find? (·.name == "tasks") =
      some ⟨"tasks", Office.tasks.type, .foreign "caseId"⟩ := rfl
  have hup : Office.tasks.relations.find? (·.name == "relatedCase") =
      some ⟨"relatedCase", Office.busyCases.type, .key "caseId"⟩ := rfl
  have hcase : Office.openCase ∈ Office.busyCatalog.records "case" := .tail _ (.head _)
  obtain ⟨reached, hreached, -, hback⟩ := key_inverts_foreign hdown hup hids hcase
  cases hreached
  refine ⟨rfl, ?next, ?odd⟩
  case next => exact (hback Office.nextTask (.tail _ (.tail _ (.head _)))).1.mpr (.tail _ (.head _))
  case odd =>
    rw [(hback Office.oddTask (.tail _ (.head _))).2]
    decide

end Declaration
end AccessControl
