import AccessControl.Proofs.Link
import AccessControl.Proofs.Number.Rounding

/-! # Keys that are integers

A key leads to the first record whose id has the same value.  As values, integers are rounded to
53 bits; as texts, by which `Catalog.find?` looks for ids, they are exact.  So the two agree as long as
no id is rounded to the same number as the key without being the same integer
(`Declaration.related_by_integer_key`), which is so below `exactLimit`.  Beyond, a key can lead to a
record of another id (`Declaration.related_to_other_integer`). -/

namespace AccessControl

/-- The integer that a record has in a field, if it has one. -/
def CatalogRecord.integer? (record : CatalogRecord) (field : String) : Option Int :=
  match record.fields.lookup field with
  | some (.integer n) => some n
  | _ => none

/-- The answer of a relation to one record, given the record that is found. -/
def Related.ofFirst : Option CatalogRecord → Related
  | none => .missing
  | some first => .one first.view

/-- Whether no id of a type is rounded to the number that an integer is rounded to, but for that
integer itself. -/
def Catalog.TellsApart (c : Catalog) (type : String) (n : Int) : Prop :=
  ∀ record ∈ c.records type, ∀ i, record.integer? "id" = some i →
    (Number.ofInt i).equal (Number.ofInt n) = true → i = n

/-! ### Integers in records -/

namespace CatalogRecord
variable {record : CatalogRecord} {field : String} {n : Int}

theorem lookup_of_integer? (h : record.integer? field = some n) :
    record.fields.lookup field = some (.integer n) := by
  unfold integer? at h
  split at h
  · rename_i i hlookup
    cases h
    exact hlookup
  · cases h

theorem value_of_integer? (h : record.integer? field = some n) :
    record.value field = .number (.ofInt n) := by
  rw [value, field?, lookup_of_integer? h, Option.map_some, Option.getD_some, Json.toValue]

theorem idText_of_integer? (h : record.integer? "id" = some n) :
    record.idText = .ofList (Text.signedDecimal n) := by
  rw [idText, lookup_of_integer? h]
  rfl

end CatalogRecord

/-- Integers are told apart by their texts. -/
theorem Text.signedDecimal_inj {m n : Int} (h : signedDecimal m = signedDecimal n) : m = n := by
  have hsign : ∀ {a b : Nat}, decimal a ≠ '-' :: decimal b := by
    intro a b heq
    have hdigit : isDigit '-' = true := isDigit_of_mem_decimal (heq ▸ List.mem_cons_self)
    cases hdigit
  unfold signedDecimal at h
  split at h <;> split at h
  · have := decimal_inj (List.tail_eq_of_cons_eq h)
    omega
  · exact absurd h.symm hsign
  · exact absurd h hsign
  · have := decimal_inj h
    omega

/-! ### What a key leads to -/

/-- A key leads to the first record whose id has the same value. -/
theorem Link.follow_key_eq_ofFirst (c : Catalog) (target field : String) {source : CatalogRecord}
    (h : (source.value field).isNull = false) :
    (key field).follow c target source.view = .ofFirst
      ((c.records target).find? fun r => (r.value "id").same (source.value field)) := by
  simp only [follow, CatalogRecord.present?_view, h, Bool.false_eq_true, if_false]
  rw [Catalog.recordsWith_eq c target "id" h, ← List.head?_filter]
  split <;> rename_i hfound <;> rw [hfound] <;> rfl

section integers
variable {c : Catalog} {target field : String} {source : CatalogRecord} {n : Int}
  (hids : ∀ r ∈ c.records target, ∃ i, r.integer? "id" = some i)
include hids

/-- Among integers, a key leads to the first id that is rounded to the same number. -/
theorem Link.follow_integer_key (hn : source.integer? field = some n) :
    (key field).follow c target source.view = .ofFirst ((c.records target).find? fun r =>
      (r.integer? "id").any fun i => (Number.ofInt i).equal (Number.ofInt n)) := by
  have hvalue := CatalogRecord.value_of_integer? hn
  have hnull : (source.value field).isNull = false := by
    rw [hvalue]
    rfl
  rw [follow_key_eq_ofFirst c target field hnull, hvalue, ← List.head?_filter, ← List.head?_filter]
  refine congrArg (fun found => Related.ofFirst (List.head? found)) (List.filter_congr fun r hr => ?_)
  obtain ⟨i, hi⟩ := hids r hr
  rw [CatalogRecord.value_of_integer? hi, hi, Option.any_some, Value.same]

/-- Among integers that are told apart, the first id that is rounded to the same number as an integer
is the first whose text is that of the integer. -/
theorem Catalog.find?_integer (h : c.TellsApart target n) :
    ((c.records target).find? fun r =>
        (r.integer? "id").any fun i => (Number.ofInt i).equal (Number.ofInt n)) =
      c.find? target (.ofList (Text.signedDecimal n)) := by
  rw [find?, ← List.head?_filter, ← List.head?_filter]
  refine congrArg List.head? (List.filter_congr fun r hr => ?_)
  obtain ⟨i, hi⟩ := hids r hr
  rw [hi, Option.any_some, CatalogRecord.idText_of_integer? hi, Bool.eq_iff_iff, beq_iff_eq,
    String.ofList_inj]
  constructor
  · exact fun hequal => congrArg Text.signedDecimal (h r hr i hi hequal)
  · intro htext
    rw [Text.signedDecimal_inj htext]
    exact Number.equal_ofInt_self n

/-- The record that is found by the text of an integer has that integer as its id. -/
theorem Catalog.integer?_of_find? {r : CatalogRecord}
    (h : c.find? target (.ofList (Text.signedDecimal n)) = some r) : r.integer? "id" = some n := by
  obtain ⟨i, hi⟩ := hids r (List.mem_of_find?_eq_some h)
  have htext := List.find?_some h
  rw [CatalogRecord.idText_of_integer? hi, beq_iff_eq, String.ofList_inj] at htext
  rw [hi, Text.signedDecimal_inj htext]

/-- Among integers that are told apart, what looks like a record with such an id has that id. -/
theorem Catalog.integer?_of_view_eq (h : c.TellsApart target n) {first r : CatalogRecord}
    (hr : r ∈ c.records target) (hfirst : first.integer? "id" = some n)
    (hview : first.view = r.view) : r.integer? "id" = some n := by
  obtain ⟨i, hi⟩ := hids r hr
  have hvalue := congrFun (CatalogRecord.value_of_view_eq hview) "id"
  rw [CatalogRecord.value_of_integer? hfirst, CatalogRecord.value_of_integer? hi,
    Value.number.injEq] at hvalue
  have hequal : (Number.ofInt i).equal (Number.ofInt n) = true := by
    rw [hvalue]
    exact Number.equal_ofInt_self i
  rw [hi, h r hr i hi hequal]

end integers

/-- Small integers are told apart from all others. -/
theorem Catalog.tellsApart_of_small {c : Catalog} {target : String} {n : Int}
    (h : n.natAbs < exactLimit ∨
      ∀ r ∈ c.records target, ∀ i, r.integer? "id" = some i → i.natAbs < exactLimit) :
    c.TellsApart target n := by
  intro r hr i hi hequal
  rcases h with hn | hsmall
  · exact Number.eq_of_equal_ofInt hn hequal
  · rw [Number.equal_comm] at hequal
    exact (Number.eq_of_equal_ofInt (hsmall r hr i hi) hequal).symm

/-! ### A ledger

Cases have numbers, two of them beyond 53 bits, and tasks have the numbers of their cases. -/

namespace Ledger

def smallCase : CatalogRecord := ⟨[("id", .integer 7), ("status", .string "OPEN")]⟩

def evenCase : CatalogRecord := ⟨[("id", .integer 9007199254740992), ("status", .string "OPEN")]⟩

def oddCase : CatalogRecord := ⟨[("id", .integer 9007199254740993), ("status", .string "CLOSED")]⟩

def smallTask : CatalogRecord := ⟨[("caseId", .integer 7), ("id", .string "t1")]⟩

def oddTask : CatalogRecord := ⟨[("caseId", .integer 9007199254740993), ("id", .string "t2")]⟩

def catalog : Catalog := ⟨[("case", [evenCase, oddCase, smallCase]), ("task", [smallTask, oddTask])]⟩

theorem ids_integer : ∀ r ∈ catalog.records "case", ∃ i, r.integer? "id" = some i := by
  intro r hr
  have hr : r ∈ [evenCase, oddCase, smallCase] := hr
  simp only [List.mem_cons, List.not_mem_nil, or_false] at hr
  rcases hr with rfl | rfl | rfl <;> exact ⟨_, rfl⟩

end Ledger

namespace Declaration

/-- Where keys and ids are integers, a key answers with the first record whose id is rounded to the
same number.  If no id of another integer is, it answers as the catalog does for the text of the key:
with a record whose id is that integer, if there is one.  Integers below `exactLimit` are never rounded
to the same number as others. -/
theorem related_by_integer_key {c : Catalog} {d : Declaration} {name target field : String}
    (hd : d.relations.find? (·.name == name) = some ⟨name, target, .key field⟩)
    {source : CatalogRecord} {n : Int} (hn : source.integer? field = some n)
    (hids : ∀ r ∈ c.records target, ∃ i, r.integer? "id" = some i) :
    d.related c source.view name = .ok (.ofFirst ((c.records target).find? fun r =>
      (r.integer? "id").any fun i => (Number.ofInt i).equal (Number.ofInt n))) ∧
    (c.TellsApart target n →
      d.related c source.view name =
        .ok (.ofFirst (c.find? target (.ofList (Text.signedDecimal n)))) ∧
      ∀ r ∈ c.records target,
        (d.related c source.view name = .ok (.one r.view) → r.integer? "id" = some n) ∧
        (r.integer? "id" = some n → ∃ first ∈ c.records target,
          d.related c source.view name = .ok (.one first.view) ∧ first.integer? "id" = some n)) ∧
    ((n.natAbs < exactLimit ∨
        ∀ r ∈ c.records target, ∀ i, r.integer? "id" = some i → i.natAbs < exactLimit) →
      c.TellsApart target n) := by
  have hanswer : d.related c source.view name = .ok (.ofFirst ((c.records target).find? fun r =>
      (r.integer? "id").any fun i => (Number.ofInt i).equal (Number.ofInt n))) := by
    simp only [related, hd, Link.follow_integer_key hids hn]
  refine ⟨hanswer, fun happart => ?apart, Catalog.tellsApart_of_small⟩
  rw [Catalog.find?_integer hids happart] at hanswer
  refine ⟨hanswer, fun r hr => ⟨fun hone => ?only, fun hi => ?found⟩⟩
  case only =>
    rw [hanswer] at hone
    cases hfirst : c.find? target (.ofList (Text.signedDecimal n)) with
    | none =>
        rw [hfirst] at hone
        cases hone
    | some first =>
        rw [hfirst] at hone
        have hview : first.view = r.view := Related.one.inj (Except.ok.inj hone)
        exact Catalog.integer?_of_view_eq hids happart hr (Catalog.integer?_of_find? hids hfirst) hview
  case found =>
    cases hfirst : c.find? target (.ofList (Text.signedDecimal n)) with
    | none =>
        have htext := List.find?_eq_none.mp hfirst r hr
        rw [CatalogRecord.idText_of_integer? hi] at htext
        exact absurd (beq_self_eq_true _) htext
    | some first =>
        rw [hfirst] at hanswer
        exact ⟨first, List.mem_of_find?_eq_some hfirst, hanswer, Catalog.integer?_of_find? hids hfirst⟩

/-- The key of a small case leads to the case. -/
theorem related_by_integer_key_ledger :
    ∃ first ∈ Ledger.catalog.records "case",
      Office.tasks.related Ledger.catalog Ledger.smallTask.view "relatedCase" =
        .ok (.one first.view) ∧ first.integer? "id" = some 7 := by
  have hd : Office.tasks.relations.find? (·.name == "relatedCase") =
      some ⟨"relatedCase", "case", .key "caseId"⟩ := rfl
  have hn : Ledger.smallTask.integer? "caseId" = some 7 := rfl
  obtain ⟨-, apart, small⟩ := related_by_integer_key hd hn Ledger.ids_integer
  have hcase : Ledger.smallCase ∈ Ledger.catalog.records "case" := .tail _ (.tail _ (.head _))
  exact ((apart (small (.inl (by decide)))).2 Ledger.smallCase hcase).2 rfl

/-- The key of a large case can lead to another case, although the catalog finds the right one by its
text. -/
theorem related_to_other_integer :
    Ledger.oddTask.integer? "caseId" = some 9007199254740993 ∧
    (∀ r ∈ Ledger.catalog.records "case", ∃ i, r.integer? "id" = some i) ∧
    Office.tasks.related Ledger.catalog Ledger.oddTask.view "relatedCase" =
      .ok (.one Ledger.evenCase.view) ∧
    Ledger.evenCase.integer? "id" = some 9007199254740992 ∧
    Ledger.catalog.find? "case" (.ofList (Text.signedDecimal 9007199254740993)) = some Ledger.oddCase ∧
    Ledger.evenCase.view ≠ Ledger.oddCase.view := by
  have hn : Ledger.oddTask.integer? "caseId" = some 9007199254740993 := rfl
  have hrelated : Office.tasks.related Ledger.catalog Ledger.oddTask.view "relatedCase" =
      .ok ((Link.key "caseId").follow Ledger.catalog "case" Ledger.oddTask.view) := rfl
  have hrecords : Ledger.catalog.records "case" =
      [Ledger.evenCase, Ledger.oddCase, Ledger.smallCase] := rfl
  refine ⟨hn, Ledger.ids_integer, ?related, rfl, ?found, ?views⟩
  case related =>
    -- both integers are rounded to the even one
    have hequal : (Number.ofInt 9007199254740992).equal (Number.ofInt 9007199254740993) = true := by
      decide +kernel
    rw [hrelated, Link.follow_integer_key Ledger.ids_integer hn, hrecords, List.find?_cons_of_pos]
    · rfl
    · exact hequal
  case found =>
    have heven : Ledger.evenCase.idText = .ofList (Text.signedDecimal 9007199254740992) := rfl
    have hodd : Ledger.oddCase.idText = .ofList (Text.signedDecimal 9007199254740993) := rfl
    rw [Catalog.find?, hrecords, List.find?_cons_of_neg, List.find?_cons_of_pos]
    · rw [hodd, beq_self_eq_true]
    · rw [heven, beq_iff_eq, String.ofList_inj]
      exact fun htext => absurd (Text.signedDecimal_inj htext) (by decide)
  case views =>
    intro hview
    have hstatus : (some (.string "OPEN") : Option Value) = some (.string "CLOSED") :=
      congrArg (fun x => x.field "status") hview
    exact absurd (Value.string.inj (Option.some.inj hstatus)) (by decide)

end Declaration
end AccessControl
