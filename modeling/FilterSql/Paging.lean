/-!
# Paging

Pages are counted from one; page zero is the first page too.
-/
namespace FilterSql

structure Paging where
  page : UInt32
  rows : UInt32
  deriving DecidableEq, Repr

namespace Paging

def offset (p : Paging) : UInt64 := (max p.page 1 - 1).toUInt64 * p.rows.toUInt64

def limit (p : Paging) : UInt64 := p.rows.toUInt64

end Paging

structure FetchRequest where
  resultKeys : List String := []
  page : Option UInt32 := none
  rows : Option UInt32 := none
  deriving DecidableEq, Repr

/-- A request without a page size asks for no page. -/
def FetchRequest.paging (r : FetchRequest) : Option Paging :=
  r.rows.map fun rows => ⟨r.page.getD 1, rows⟩

end FilterSql
