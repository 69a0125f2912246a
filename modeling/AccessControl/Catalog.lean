import AccessControl.Json
import AccessControl.Json.Reader
import AccessControl.Policy
import AccessControl.Registry

/-! # The catalog

Records of declared types, held in memory.  A catalog is a JSON object that maps the name of a type
to an array of records, each an object.  `Declaration.provider` makes a provider of a declared type:
it finds related records by comparing ids with fields. -/

namespace AccessControl

/-- A record, by its fields in ascending order of their names. -/
structure CatalogRecord where
  fields : List (String × Json)

namespace CatalogRecord

/-- The id of a record as text; a record without one has the empty text. -/
def idText (record : CatalogRecord) : String :=
  match record.fields.lookup "id" with
  | none | some .null => ""
  | some (.string s) => s
  | some other => other.write

def field? (record : CatalogRecord) (name : String) : Option Value :=
  (record.fields.lookup name).map Json.toValue

/-- A record as conditions see it. -/
def view (record : CatalogRecord) : Resource := ⟨record.field?⟩

end CatalogRecord

/-- The records of each type. -/
structure Catalog where
  entries : List (String × List CatalogRecord)

namespace Catalog

def empty : Catalog := ⟨[]⟩

/-- A member of the document's object as the records of a type. -/
def readRows (type : String) (rows : Json) : Except ServiceFailure (List CatalogRecord) :=
  match rows with
  | .array items => items.mapM fun
    | .object fields => .ok ⟨fields⟩
    | _ => .error (.catalog (backquoted type ++ " contains a record that is not an object"))
  | _ => .error (.catalog (backquoted type ++ " must map to an array of records"))

/-- The catalog that a document describes. -/
def read (text : String) : Except ServiceFailure Catalog :=
  match Json.read? text with
  | some (.object members) => do
    return ⟨← members.mapM fun (type, rows) => return (type, ← readRows type rows)⟩
  | some _ => .error (.serialization "the document is not an object")
  | none => .error (.serialization "the document is not valid JSON")

def records (c : Catalog) (type : String) : List CatalogRecord := (c.entries.lookup type).getD []

/-- The first record of a type with an id. -/
def find? (c : Catalog) (type id : String) : Option CatalogRecord :=
  (c.records type).find? (·.idText == id)

/-- The records of a type whose field has a value. -/
def recordsWith (c : Catalog) (type field : String) (wanted : Value) : List CatalogRecord :=
  (c.records type).filter fun record =>
    match record.field? field with
    | some v => v.same wanted
    | none => false

end Catalog

/-- The value of a field that is neither absent nor null. -/
def Resource.present? (subject : Resource) (field : String) : Option Value :=
  (subject.field field).filter fun v => !v.isNull

/-- What a link leads to from a resource. -/
def Link.follow (c : Catalog) (target : String) (subject : Resource) : Link → Related
  | .key field =>
    match subject.present? field with
    | none => .missing
    | some wanted =>
      -- ids need not be unique; the first record counts
      match c.recordsWith target "id" wanted with
      | [] => .missing
      | first :: _ => .one first.view
  | .foreign field =>
    match subject.present? "id" with
    | none => .missing
    | some id => .many ((c.recordsWith target field id).map (·.view))

namespace Declaration

/-- What a declared relation leads to from a resource. -/
def related (d : Declaration) (c : Catalog) (subject : Resource) (name : String) :
    Except Failure Related :=
  match d.relations.find? (·.name == name) with
  | some found => .ok (found.link.follow c found.target subject)
  | none => .error (.unknownRelation d.type name)

/-- The provider of a declared type, whose records are in a catalog. -/
def provider (d : Declaration) (c : Catalog) : Provider where
  type := d.type
  actions := d.actions.map fun key => ⟨d.type, key⟩
  relations := d.relations.map fun found => ⟨found.name, found.target⟩
  related := d.related c

end Declaration

/-- The registry of declared types over a catalog. -/
def Catalog.registry (c : Catalog) (declarations : List Declaration) : Except Failure Registry :=
  Registry.build (declarations.map (·.provider c))

end AccessControl
