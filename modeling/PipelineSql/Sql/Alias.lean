import PipelineSql.Sql.Expr

namespace PipelineSql.Sql

/-- Hands out table aliases, numbered from 0. -/
structure AliasCounter where
  next : Nat := 0
deriving DecidableEq, Inhabited

namespace AliasCounter

/-- An alias with the next number, and the counter after it. -/
def make (c : AliasCounter) (name : String) : TableAlias × AliasCounter :=
  (⟨name, c.next⟩, ⟨c.next + 1⟩)

/-- Goes on after whichever of two counters has handed out more aliases. -/
def merge (c d : AliasCounter) : AliasCounter := ⟨max c.next d.next⟩

end AliasCounter

end PipelineSql.Sql
