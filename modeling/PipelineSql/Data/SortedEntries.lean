namespace PipelineSql

variable {α : Type}

/-- Adds an entry to a list sorted by name; a name that is there takes the new value. -/
def insertEntry (key : String) (value : α) : List (String × α) → List (String × α)
  | [] => [(key, value)]
  | (k, v) :: rest =>
    if key = k then (k, value) :: rest
    else if key < k then (key, value) :: (k, v) :: rest
    else (k, v) :: insertEntry key value rest

/-- Sorts entries by name, in the order of code points; of a repeated name the last value
counts. -/
def sortEntries (entries : List (String × α)) : List (String × α) :=
  entries.foldl (fun sorted e => insertEntry e.1 e.2 sorted) []

end PipelineSql
