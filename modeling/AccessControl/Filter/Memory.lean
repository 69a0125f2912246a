import AccessControl.Comparison
import AccessControl.Filter
import AccessControl.Registry

/-! # Filters of records in memory

A `RecordFilter` is the filter that records held in memory are selected with.  It follows relations
through the registry, one at a time.  `RecordFilter.language` is its vocabulary for `Plan.render`,
`RecordFilter.holds` decides it for one record, and `RecordFilter.select` keeps the records for
which it holds. -/

namespace AccessControl

/-- A filter of records. -/
inductive RecordFilter where
  | always
  | compare (field : String) (operator : Operator) (value : Value)
  | traverse (type relation : String) (inner : RecordFilter)
  | all (parts : List RecordFilter)
  | any (parts : List RecordFilter)
  | not (inner : RecordFilter)

namespace RecordFilter

/-! ### Building -/

/-- A type of records, with the relations that led to it and the types they start from, the last one
first. -/
structure Reached where
  type : String
  hops : List (String × String)

/-- The records of a type, reached from nowhere. -/
def rootOf (type : String) : Reached := ⟨type, []⟩

/-- A filter of the records at the end of relations as a filter of those at their start. -/
def traversed (hops : List (String × String)) (inner : RecordFilter) : RecordFilter :=
  hops.foldl (fun inner hop => traverse hop.1 hop.2 inner) inner

/-- The vocabulary of record filters, given the registry that knows the relations. -/
def language (r : Registry) : FilterLanguage Reached RecordFilter where
  compare := fun scope field operator value =>
    .ok (traversed scope.hops (.compare field operator value))
  traverse := fun scope name => do
    let found ← r.relation scope.type name
    return ⟨found.target, (scope.type, name) :: scope.hops⟩
  all := .all
  any := .any
  not := .not
  always := .always

/-! ### Deciding -/

/-- Everything that a relation reaches from a record. -/
def join (r : Registry) (type : String) (subject : Resource) (relation : String) :
    Inquiry (List Resource) := do
  let (_, related) ← r.related type subject relation
  return related.toList

/-- Whether a test holds for some resource, up to the first for which it does. -/
def holdsForSome (test : Resource → Inquiry Bool) : List Resource → Inquiry Bool
  | [] => return false
  | first :: rest => do if ← test first then return true else holdsForSome test rest

mutual

/-- Whether a filter holds for a record. -/
def holds (r : Registry) (subject : Resource) : RecordFilter → Inquiry Bool
  | .always => return true
  | .compare field operator value => compareField field (subject.field field) operator value
  | .traverse type relation inner => do
    holdsForSome (fun reached => holds r reached inner) (← join r type subject relation)
  | .all parts => holdsAll r subject parts
  | .any parts => holdsAny r subject parts
  | .not inner => do return !(← holds r subject inner)

/-- Whether all filters hold, up to the first that does not. -/
def holdsAll (r : Registry) (subject : Resource) : List RecordFilter → Inquiry Bool
  | [] => return true
  | part :: rest => do if ← holds r subject part then holdsAll r subject rest else return false

/-- Whether some filter holds, up to the first that does. -/
def holdsAny (r : Registry) (subject : Resource) : List RecordFilter → Inquiry Bool
  | [] => return false
  | part :: rest => do if ← holds r subject part then return true else holdsAny r subject rest

end

/-- The records for which a filter holds, in their order. -/
def select {α : Type} (r : Registry) (view : α → Resource) (filter : RecordFilter) :
    List α → Inquiry (List α)
  | [] => return []
  | record :: rest => do
    let kept ← holds r (view record) filter
    let more ← select r view filter rest
    return if kept then record :: more else more

/-! ### As text -/

/-- The text of a group of filters, given theirs. -/
def writeGroup (separator ofNone : String) : List String → String
  | [] => ofNone
  | parts => "(" ++ joinWith (" " ++ separator ++ " ") parts ++ ")"

mutual

def write : RecordFilter → String
  | .always => "true"
  | .compare field operator value => field ++ " " ++ operator.symbol ++ " " ++ value.write
  | .traverse _ relation inner => relation ++ "\x7b" ++ inner.write ++ "\x7d"
  | .all parts => writeGroup "&&" "true" (writeParts parts)
  | .any parts => writeGroup "||" "false" (writeParts parts)
  | .not inner => "!" ++ inner.write

def writeParts : List RecordFilter → List String
  | [] => []
  | part :: rest => part.write :: writeParts rest

end

end RecordFilter
end AccessControl
