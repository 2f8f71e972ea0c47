import FilterSql.Operator
/-!
# Errors

What can go wrong when a criteria is built, compiled or read. Every error ends the call that
raised it.
-/
namespace FilterSql

inductive Error where
  | unknownProperty (property entity : String)
  /-- A text that is neither a projection nor a projection expression. -/
  | malformedExpression (expression : String)
  | noProjectionList (entity : String)
  | unknownEntity (name : String)
  | badSchema
  | badDocument
  | badConnective (conjunction : Conjunction)
  | badConfig
  | unreadable
  deriving DecidableEq, Repr

namespace Error

def message : Error → String
  | unknownProperty property entity =>
    "Unknown property '" ++ property ++ "' on entity '" ++ entity ++ "'"
  | malformedExpression expression => "Malformed expression: '" ++ expression ++ "'"
  | noProjectionList entity => "Projection requires a fetch criteria on '" ++ entity ++ "'"
  | unknownEntity name => "Entity not registered: '" ++ name ++ "'"
  | badSchema => "Schema error: not a schema"
  | badDocument => "Query document error: not a query document"
  | badConnective c => "Query document error: '" ++ c.sql ++ "' is not a filter conjunction"
  | badConfig => "Configuration error: not a configuration"
  | unreadable => "IO error: cannot read the file"

end Error
end FilterSql
