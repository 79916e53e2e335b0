namespace PipelineSql

/-- The first of the candidates `name 0`, `name 1`, … that is not taken. When the candidates are
distinct, one of the first `taken.length + 1` is free, so the search is bounded. -/
def firstFree (taken : List String) (name : Nat → String) : String :=
  (((List.range (taken.length + 1)).map name).find? fun n => decide (n ∉ taken)).getD (name 0)

end PipelineSql
