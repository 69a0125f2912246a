import AccessControl.Action
import AccessControl.Catalog
import AccessControl.CommandLine
import AccessControl.CommandLine.Invocation
import AccessControl.CommandLine.Options
import AccessControl.Comparison
import AccessControl.Condition
import AccessControl.Condition.Grammar
import AccessControl.Condition.Text
import AccessControl.Condition.Token
import AccessControl.Decision
import AccessControl.Failure
import AccessControl.FileSystem
import AccessControl.Filter
import AccessControl.Filter.Memory
import AccessControl.Ini
import AccessControl.Json
import AccessControl.Json.Reader
import AccessControl.Json5
import AccessControl.Kdl
import AccessControl.Kdl.Reader
import AccessControl.Kdl.Space
import AccessControl.Kdl.Strings
import AccessControl.Main
import AccessControl.Number
import AccessControl.Number.Decimal
import AccessControl.Number.Text
import AccessControl.Permission
import AccessControl.Plan
import AccessControl.Policy
import AccessControl.Policy.Reader
import AccessControl.Proofs.Acceptance
import AccessControl.Proofs.Additivity
import AccessControl.Proofs.Batches
import AccessControl.Proofs.Binding
import AccessControl.Proofs.Catalog
import AccessControl.Proofs.Clauses
import AccessControl.Proofs.Comparison
import AccessControl.Proofs.Condition.Meaning
import AccessControl.Proofs.Condition.Numbers
import AccessControl.Proofs.Condition.Text
import AccessControl.Proofs.Context
import AccessControl.Proofs.Decision
import AccessControl.Proofs.Dependence
import AccessControl.Proofs.Digits
import AccessControl.Proofs.Extension
import AccessControl.Proofs.Failure
import AccessControl.Proofs.Filter
import AccessControl.Proofs.Grammar
import AccessControl.Proofs.Grouping
import AccessControl.Proofs.Inquiry
import AccessControl.Proofs.IntegerKeys
import AccessControl.Proofs.Lexemes
import AccessControl.Proofs.Link
import AccessControl.Proofs.Lookups
import AccessControl.Proofs.Names
import AccessControl.Proofs.NewTypes
import AccessControl.Proofs.Number
import AccessControl.Proofs.Number.Finite
import AccessControl.Proofs.Number.Nearest
import AccessControl.Proofs.Number.Rounding
import AccessControl.Proofs.Paths
import AccessControl.Proofs.Permission
import AccessControl.Proofs.PermissionIds
import AccessControl.Proofs.Plan
import AccessControl.Proofs.Policy.Conditions
import AccessControl.Proofs.Policy.Files
import AccessControl.Proofs.Policy.Nodes
import AccessControl.Proofs.Reach
import AccessControl.Proofs.Refusal
import AccessControl.Proofs.Registration
import AccessControl.Proofs.Registry
import AccessControl.Proofs.Rules
import AccessControl.Proofs.Segments
import AccessControl.Proofs.Sql.Aliases
import AccessControl.Proofs.Sql.Comparison
import AccessControl.Proofs.Sql.Dates
import AccessControl.Proofs.Sql.Decision
import AccessControl.Proofs.Sql.Filter
import AccessControl.Proofs.Sql.Meaning
import AccessControl.Proofs.Sql.Parameters
import AccessControl.Proofs.Sql.Path
import AccessControl.Proofs.Sql.Prepared
import AccessControl.Proofs.Sql.Storage
import AccessControl.Proofs.Substitution
import AccessControl.Proofs.Timestamp
import AccessControl.Proofs.Timestamp.Calendar
import AccessControl.Proofs.Timestamp.Text
import AccessControl.Proofs.Token
import AccessControl.Proofs.Value
import AccessControl.Registry
import AccessControl.Resource
import AccessControl.Ron
import AccessControl.Setting
import AccessControl.Setting.Source
import AccessControl.Settings
import AccessControl.Sql.Filter
import AccessControl.Sql.Statement
import AccessControl.Text
import AccessControl.Text.Quoted
import AccessControl.Text.Utf8
import AccessControl.Timestamp
import AccessControl.Timestamp.Text
import AccessControl.Toml
import AccessControl.Toml.Reader
import AccessControl.Value
import AccessControl.Yaml.Place
import AccessControl.Yaml.Reader
import AccessControl.Yaml.Scalar
