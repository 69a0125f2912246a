import AccessControl.Plan

/-! # Filters

A plan can be turned into a filter of a store, which selects all resources that satisfy the plan at
once.  What the store can express is a `FilterLanguage`, and `Plan.render` writes a plan in it, with
references to the principal replaced by their values.

A comparison in a filter is true or false and nothing else: on a field that is null or absent only
`!=` is true. -/

namespace AccessControl

/-- The words of a store's filters.  A scope is a place that comparisons speak of; traversing a
relation leads to a scope whose comparisons hold when some related resource satisfies them. -/
structure FilterLanguage (Scope Fragment : Type) where
  compare : Scope → String → Operator → Value → Except Failure Fragment
  traverse : Scope → String → Except Failure Scope
  all : List Fragment → Fragment
  any : List Fragment → Fragment
  not : Fragment → Fragment
  always : Fragment

variable {Scope Fragment : Type}

/-- The scope at the end of a path of relations. -/
def FilterLanguage.traverseAll (l : FilterLanguage Scope Fragment) (scope : Scope) :
    List String → Except Failure Scope
  | [] => .ok scope
  | name :: rest => do l.traverseAll (← l.traverse scope name) rest

/-- A comparison as a filter. -/
def Comparison.render (l : FilterLanguage Scope Fragment) (scope : Scope) (p : Principal)
    (c : Comparison) : Except Failure Fragment := do
  let expected ← c.expected p
  l.compare (← l.traverseAll scope c.path.relations) c.path.field c.operator expected

namespace Plan

mutual

/-- A plan as a filter. -/
def render (l : FilterLanguage Scope Fragment) (scope : Scope) (p : Principal) :
    Plan → Except Failure Fragment
  | .compare c => c.render l scope p
  | .all parts => do return l.all (← renderParts l scope p parts)
  | .any parts => do return l.any (← renderParts l scope p parts)
  | .not inner => do return l.not (← render l scope p inner)

def renderParts (l : FilterLanguage Scope Fragment) (scope : Scope) (p : Principal) :
    List Plan → Except Failure (List Fragment)
  | [] => .ok []
  | part :: rest => do return (← render l scope p part) :: (← renderParts l scope p rest)

end

end Plan
end AccessControl
