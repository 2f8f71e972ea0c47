import FilterSql.Main
import FilterSql.Proofs.Query.Direct
import FilterSql.Proofs.Query.Lists
import FilterSql.Proofs.Query.Parameters
import FilterSql.Proofs.Query.Placeholders
import FilterSql.Proofs.Criteria.WellFormed
import FilterSql.Proofs.Query.Unambiguous
import FilterSql.Proofs.Sql.Aliases
import FilterSql.Proofs.Query.Entities
import FilterSql.Proofs.Query.SharedTail
import FilterSql.Proofs.Criteria.Reduction
import FilterSql.Proofs.Query.Grouping
import FilterSql.Proofs.Query.ListLiterals
import FilterSql.Proofs.Sql.PathMarks
import FilterSql.Proofs.Query.OneEntity
import FilterSql.Proofs.Document.Acceptance
import FilterSql.Proofs.Query.DeclaredColumns
import FilterSql.Proofs.Query.GroupedLiterals
import FilterSql.Proofs.Query.Keywords
import FilterSql.Proofs.Query.Mentioned
import FilterSql.Proofs.Sql.Shapes
import FilterSql.Proofs.Value.Quoted
import FilterSql.Proofs.Query.Layout
import FilterSql.Proofs.Query.NestedGrouping
import FilterSql.Proofs.Criteria.Suppression
import FilterSql.Proofs.Query.GroupingColumns
import FilterSql.Proofs.Query.WrittenProjections
import FilterSql.Proofs.Query.NameTables
import FilterSql.Proofs.Query.NormalForms
import FilterSql.Proofs.Sql.Openings
import FilterSql.Proofs.Query.Places
import FilterSql.Proofs.Query.References
import FilterSql.Proofs.Query.Pages
import FilterSql.Proofs.Document.DefaultColumns
import FilterSql.Proofs.Criteria.ListFilters
import FilterSql.Proofs.Query.CountAliases
