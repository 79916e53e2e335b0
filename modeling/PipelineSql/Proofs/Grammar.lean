import PipelineSql.Proofs.Lexing

/-!
# The grammar of SQL expressions

An operator-precedence parser: what an operand belongs to is kept on a stack until a token comes
that binds less tightly. From loose to tight, these are `OR`, `AND`, `NOT`, the comparisons with
`LIKE`, `IN` and `IS NULL`, then `||`, sums, products and the unary minus.
-/

namespace PipelineSql.Sql

section Trees

inductive UnaryOperator where
  | not
  | minus
deriving DecidableEq

/-- An expression as its text is read. Parentheses leave no trace. -/
inductive Tree where
  /-- A column, after the names of its schema and table. -/
  | column (path : List String)
  | text (s : String)
  | number (s : String)
  | truth (value : Bool)
  | null
  | unary (operator : UnaryOperator) (operand : Tree)
  | binary (left : Tree) (operator : String) (right : Tree)
  | isNull (operand : Tree)
  | isNotNull (operand : Tree)
  | isIn (operand : Tree) (values : List Tree)
  | call (function : String) (args : List Tree)
  /-- A function of all rows, such as `COUNT(*)`. -/
  | callAll (function : String)
  | callDistinct (function : String) (arg : Tree)
  | case (whens : List (Tree × Tree)) (otherwise : Option Tree)
  | cast (operand : Tree) (type : String)
  /-- A term of an ordering. -/
  | directed (target : Tree) (direction : Direction)
  | window (function : Tree) (partitionBy orderBy : List Tree) (frame : Option Frame)

/-- How tightly a unary operator binds. -/
def UnaryOperator.level : UnaryOperator → Nat
  | .not => 3
  | .minus => 8

/-- How tightly `IN` and `IS NULL` bind. -/
def predicateLevel : Nat := 4

/-- How tightly an operator binds; comparisons and `LIKE` bind as `IN` does. -/
def operatorLevel (operator : String) : Nat :=
  if operator = "OR" then 1
  else if operator = "AND" then 2
  else if operator = "||" then 5
  else if operator = "+" ∨ operator = "-" then 6
  else if operator = "*" ∨ operator = "/" ∨ operator = "%" then 7
  else predicateLevel

end Trees

section Parsing

/-- What is open around an operand. -/
inductive Pending where
  | unary (operator : UnaryOperator)
  | left (operand : Tree) (operator : String)
  | group
  | args (function : String) (done : List Tree)
  | distinct (function : String)
  | values (operand : Tree) (done : List Tree)
  | when (done : List (Tree × Tree))
  | branch (done : List (Tree × Tree)) (condition : Tree)
  | otherwise (done : List (Tree × Tree))
  | cast
  | over (function : Tree)
  | partition (function : Tree) (done : List Tree)
  | order (function : Tree) (partitionBy done : List Tree)

/-- Gives an operand to the operators before it that bind at least as tightly as a level. -/
def settle (level : Nat) : List Pending → Tree → List Pending × Tree
  | .unary op :: stack, x =>
    if level ≤ op.level then settle level stack (.unary op x) else (.unary op :: stack, x)
  | .left y op :: stack, x =>
    if level ≤ operatorLevel op then settle level stack (.binary y op x)
    else (.left y op :: stack, x)
  | stack, x => (stack, x)

/-- What a comma leads to behind an operand. -/
def nextItem : List Pending × Tree → Option (List Pending)
  | (.args f done :: stack, x) => some (.args f (done ++ [x]) :: stack)
  | (.values y done :: stack, x) => some (.values y (done ++ [x]) :: stack)
  | (.partition f done :: stack, x) => some (.partition f (done ++ [x]) :: stack)
  | (.order f partitionBy done :: stack, x) => some (.order f partitionBy (done ++ [x]) :: stack)
  | _ => none

/-- What a closing parenthesis makes of an operand. -/
def close : List Pending × Tree → Option (List Pending × Tree)
  | (.group :: stack, x) => some (stack, x)
  | (.args f done :: stack, x) => some (stack, .call f (done ++ [x]))
  | (.distinct f :: stack, x) => some (stack, .callDistinct f x)
  | (.values y done :: stack, x) => some (stack, .isIn y (done ++ [x]))
  | (.partition f done :: stack, x) => some (stack, .window f (done ++ [x]) [] none)
  | (.order f partitionBy done :: stack, x) =>
    some (stack, .window f partitionBy (done ++ [x]) none)
  | _ => none

/-- What `WHEN`, `THEN` and `ELSE` lead to behind an operand. -/
def nextBranch : Keyword → List Pending × Tree → Option (List Pending)
  | .THEN, (.when done :: stack, x) => some (.branch done x :: stack)
  | .WHEN, (.branch done c :: stack, x) => some (.when (done ++ [(c, x)]) :: stack)
  | .ELSE, (.branch done c :: stack, x) => some (.otherwise (done ++ [(c, x)]) :: stack)
  | _, _ => none

/-- What `END` makes of an operand. -/
def finishCase : List Pending × Tree → Option (List Pending × Tree)
  | (.branch done c :: stack, x) => some (stack, .case (done ++ [(c, x)]) none)
  | (.otherwise done :: stack, x) => some (stack, .case done (some x))
  | _ => none

/-- What the type of a cast makes of an operand. -/
def finishCast (type : String) : List Pending × Tree → Option (List Pending × Tree)
  | (.cast :: stack, x) => some (stack, .cast x type)
  | _ => none

/-- What a direction makes of a term. -/
def direct (direction : Direction) : List Pending × Tree → Option (List Pending × Tree)
  | (.order f partitionBy done :: stack, x) =>
    some (.order f partitionBy done :: stack, .directed x direction)
  | _ => none

/-- What `ORDER BY` leads to behind the last partition. -/
def nextOrder : List Pending × Tree → Option (List Pending)
  | (.partition f done :: stack, x) => some (.order f (done ++ [x]) [] :: stack)
  | _ => none

/-- What a frame makes of the clauses before it. -/
def finishFrame (frame : Frame) : List Pending × Tree → Option (List Pending × Tree)
  | (.partition f done :: stack, x) => some (stack, .window f (done ++ [x]) [] (some frame))
  | (.order f partitionBy done :: stack, x) =>
    some (stack, .window f partitionBy (done ++ [x]) (some frame))
  | _ => none

/-- One end of a frame. -/
def frameBound? (first second : String) : Option FrameBound :=
  if first = "UNBOUNDED" ∧ second = "PRECEDING" then some .unboundedPreceding
  else if first = "CURRENT" ∧ second = "ROW" then some .currentRow
  else none

/-- A frame from its four words. -/
def frame? (a b c d : String) : Option Frame := do
  return ⟨← frameBound? a b, ← frameBound? c d⟩

mutual

/-- Reads on where an operand is expected. -/
def operand (stack : List Pending) (tokens : List Token) : Option Tree :=
  match tokens with
  | .name s :: rest => after stack (.column [s]) rest
  | .text s :: rest => after stack (.text s) rest
  | .number s :: rest => after stack (.number s) rest
  | .truth b :: rest => after stack (.truth b) rest
  | .keyword .NULL :: rest => after stack .null rest
  | .keyword .NOT :: rest => operand (.unary .not :: stack) rest
  | .opening :: rest => operand (.group :: stack) rest
  | .word f :: .opening :: rest => operand (.args f [] :: stack) rest
  | .keyword .CAST :: .opening :: rest => operand (.cast :: stack) rest
  | .keyword .CASE :: .keyword .WHEN :: rest => operand (.when [] :: stack) rest
  | .operator s :: rest =>
    if s = "-" then operand (.unary .minus :: stack) rest
    else
      match stack, rest with
      | .args f [] :: stack, .closing :: rest =>
        if s = "*" then after stack (.callAll f) rest else none
      | _, _ => none
  | .keyword .DISTINCT :: rest =>
    match stack with
    | .args f [] :: stack => operand (.distinct f :: stack) rest
    | _ => none
  | .closing :: rest =>
    match stack with
    | .args f [] :: stack => after stack (.call f []) rest
    | .over f :: stack => after stack (.window f [] [] none) rest
    | _ => none
  | .keyword .PARTITION :: .keyword .BY :: rest =>
    match stack with
    | .over f :: stack => operand (.partition f [] :: stack) rest
    | _ => none
  | .keyword .ORDER :: .keyword .BY :: rest =>
    match stack with
    | .over f :: stack => operand (.order f [] [] :: stack) rest
    | _ => none
  | .keyword .ROWS :: .keyword .BETWEEN :: .word a :: .word b :: .operator "AND" :: .word c ::
      .word d :: .closing :: rest =>
    match stack, frame? a b c d with
    | .over f :: stack, some frame => after stack (.window f [] [] (some frame)) rest
    | _, _ => none
  | _ => none

/-- Reads on behind an operand. -/
def after (stack : List Pending) (x : Tree) (tokens : List Token) : Option Tree :=
  match tokens with
  | [] =>
    match settle 0 stack x with
    | ([], y) => some y
    | _ => none
  | .point :: .name s :: rest =>
    match x with
    | .column path => after stack (.column (path ++ [s])) rest
    | _ => none
  | .operator s :: rest =>
    operand (.left (settle (operatorLevel s) stack x).2 s ::
      (settle (operatorLevel s) stack x).1) rest
  | .keyword .IS :: .keyword .NULL :: rest =>
    after (settle predicateLevel stack x).1 (.isNull (settle predicateLevel stack x).2) rest
  | .keyword .IS :: .keyword .NOT :: .keyword .NULL :: rest =>
    after (settle predicateLevel stack x).1 (.isNotNull (settle predicateLevel stack x).2) rest
  | .keyword .IN :: .opening :: rest =>
    operand (.values (settle predicateLevel stack x).2 [] :: (settle predicateLevel stack x).1) rest
  | .keyword .OVER :: .opening :: rest => operand (.over x :: stack) rest
  | .comma :: rest =>
    match nextItem (settle 0 stack x) with
    | some stack => operand stack rest
    | none => none
  | .closing :: rest =>
    match close (settle 0 stack x) with
    | some (stack, y) => after stack y rest
    | none => none
  | .keyword .END :: rest =>
    match finishCase (settle 0 stack x) with
    | some (stack, y) => after stack y rest
    | none => none
  | .keyword .AS :: .word t :: .closing :: rest =>
    match finishCast t (settle 0 stack x) with
    | some (stack, y) => after stack y rest
    | none => none
  | .keyword .AS :: .word t :: .word u :: .closing :: rest =>
    match finishCast (t ++ " " ++ u) (settle 0 stack x) with
    | some (stack, y) => after stack y rest
    | none => none
  | .keyword .ASC :: rest =>
    match direct .asc (settle 0 stack x) with
    | some (stack, y) => after stack y rest
    | none => none
  | .keyword .DESC :: rest =>
    match direct .desc (settle 0 stack x) with
    | some (stack, y) => after stack y rest
    | none => none
  | .keyword .ORDER :: .keyword .BY :: rest =>
    match nextOrder (settle 0 stack x) with
    | some stack => operand stack rest
    | none => none
  | .keyword .ROWS :: .keyword .BETWEEN :: .word a :: .word b :: .operator "AND" :: .word c ::
      .word d :: .closing :: rest =>
    match (frame? a b c d).bind fun frame => finishFrame frame (settle 0 stack x) with
    | some (stack, y) => after stack y rest
    | none => none
  | .keyword k :: rest =>
    match nextBranch k (settle 0 stack x) with
    | some stack => operand stack rest
    | none => none
  | _ => none

end

section Operands

variable (stack : List Pending) (rest : List Token)

lemma operand_number (s : String) :
    operand stack (.number s :: rest) = after stack (.number s) rest := rfl

lemma operand_minus :
    operand stack (.operator "-" :: rest) = operand (.unary .minus :: stack) rest := rfl

lemma operand_opening :
    operand stack (.opening :: rest) = operand (.group :: stack) rest := rfl

lemma operand_call (f : String) :
    operand stack (.word f :: .opening :: rest) = operand (.args f [] :: stack) rest := rfl

lemma operand_case : operand stack (.keyword .CASE :: .keyword .WHEN :: rest) =
    operand (.when [] :: stack) rest := rfl

end Operands

/-- Reads the text of an expression. -/
def parse (s : String) : Option Tree := (tokenize s).bind (operand [])

end Parsing

section Settling

/-- Whether what is open waits for a token that closes it. -/
def Pending.isOpen : Pending → Bool
  | .unary _ => false
  | .left _ _ => false
  | _ => true

lemma settle_of_isOpen {p : Pending} (h : p.isOpen = true) (level : Nat) (stack : List Pending)
    (x : Tree) : settle level (p :: stack) x = (p :: stack, x) := by
  cases p with
  | unary op => cases h
  | left y op => cases h
  | _ => rfl

lemma settle_settle (stack : List Pending) (x : Tree) :
    settle 0 (settle 0 stack x).1 (settle 0 stack x).2 = settle 0 stack x := by
  induction stack generalizing x with
  | nil => rfl
  | cons p stack ih =>
    cases p with
    | unary op => exact ih _
    | left y op => exact ih _
    | _ => rfl

def Direction.token : Direction → Token
  | .asc => .keyword .ASC
  | .desc => .keyword .DESC

/-- Tokens that no operator reaches across: all operators before them have their operands. -/
inductive AtBoundary : List Token → Prop where
  | closing (rest : List Token) : AtBoundary (.closing :: rest)
  | comma (rest : List Token) : AtBoundary (.comma :: rest)
  | branch (rest : List Token) (k : Keyword) (h : k ∈ [Keyword.WHEN, .THEN, .ELSE, .END]) :
    AtBoundary (.keyword k :: rest)
  | direction (rest : List Token) (d : Direction) : AtBoundary (d.token :: rest)
  | order (rest : List Token) : AtBoundary (.keyword .ORDER :: .keyword .BY :: rest)
  | frame (rest : List Token) (a b c d : String) :
    AtBoundary (.keyword .ROWS :: .keyword .BETWEEN :: .word a :: .word b :: .operator "AND" ::
      .word c :: .word d :: .closing :: rest)
  | type (rest : List Token) (t : String) :
    AtBoundary (.keyword .AS :: .word t :: .closing :: rest)
  | typeOfTwo (rest : List Token) (t u : String) :
    AtBoundary (.keyword .AS :: .word t :: .word u :: .closing :: rest)

lemma AtBoundary.after_settle {rest : List Token} (h : AtBoundary rest) (stack : List Pending)
    (x : Tree) : after stack x rest = after (settle 0 stack x).1 (settle 0 stack x).2 rest := by
  cases h with
  | branch rest k h =>
    simp only [List.mem_cons, List.not_mem_nil, or_false] at h
    rcases h with rfl | rfl | rfl | rfl <;> simp only [after, settle_settle]
  | direction rest d => cases d <;> simp only [Direction.token, after, settle_settle]
  | _ => simp only [after, settle_settle]

end Settling

end PipelineSql.Sql
