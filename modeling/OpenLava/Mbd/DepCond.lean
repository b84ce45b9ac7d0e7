import Mathlib.Logic.Relation
import OpenLava.Cmd.JobId

/-!
# Dependency conditions

`parseDepCond` of `mbd.dep.c` with its stacks of operators and of operands, and `evalDepCond` on the tree it builds.
Time windows and the counters of job arrays are left out.
-/

namespace OpenLava.DepCond

open OpenLava.JobId (isint_ atoi)

inductive DptType where
  | AND | OR | NOT | LEFT_ | RIGHT_ | DONE | EXIT | STARTED | NAME | ENDED | COMMA | GT | GE | LT | LE | EQ | NE
  | POST_DONE | POST_ERR | TRUE
  deriving DecidableEq

/-- What `getToken` gives. -/
structure Token where
  type : DptType
  text : List Char
  deriving DecidableEq

structure JobNode where
  type : DptType
  dptJobRec : Nat
  opType : DptType
  exitCode : Int
  deriving DecidableEq

inductive DptNode where
  | job (node : JobNode)
  | not (dptLeft : DptNode)
  | and (dptLeft dptRight : DptNode)
  | or (dptLeft dptRight : DptNode)
  | left_ (dptLeft dptRight : DptNode)
  deriving DecidableEq

inductive Operator where
  | and | or | not | left_
  deriving DecidableEq

structure Stacks where
  operatorStack : List Operator
  operandStack : List DptNode
  deriving DecidableEq

def preceTable : List Nat := [2, 1, 3]

def Operator.type : Operator → Nat
  | .and => 0
  | .or => 1
  | .not => 2
  | .left_ => 3

/-- A parenthesis looks one byte behind the table, at the zero that pads it. -/
def Operator.prece (op : Operator) : Nat := preceTable.getD op.type 0

/-- `MERGE_TOP` for an operator taken from the stack. -/
def merge : Operator → List DptNode → Option (List DptNode)
  | .not, operand1 :: operands => some (.not operand1 :: operands)
  | .and, operand1 :: operand2 :: operands => some (.and operand1 operand2 :: operands)
  | .or, operand1 :: operand2 :: operands => some (.or operand1 operand2 :: operands)
  | .left_, operand1 :: operand2 :: operands => some (.left_ operand1 operand2 :: operands)
  | _, _ => none

def mergeTop (s : Stacks) : Option Stacks :=
  match s.operatorStack with
  | [] => none
  | op :: ops => (merge op s.operandStack).map fun operands => ⟨ops, operands⟩

/-- `MERGE_LEFT`: down to the parenthesis. -/
def mergeLeft : List Operator → List DptNode → Option Stacks
  | [], _ => none
  | .left_ :: ops, operands => some ⟨ops, operands⟩
  | op :: ops, operands =>
    match merge op operands with
    | none => none
    | some operands => mergeLeft ops operands

/-- `MERGE_ALL`: until an operator lacks its operands. -/
def mergeAll : List Operator → List DptNode → Stacks
  | [], operands => ⟨[], operands⟩
  | op :: ops, operands =>
    match merge op operands with
    | none => ⟨op :: ops, operands⟩
    | some operands => mergeAll ops operands

/-- For `&&`, `||` and `!`: one operator that binds tighter is merged first. -/
def pushOperator (node : Operator) (s : Stacks) : Option Stacks :=
  match s.operatorStack with
  | [] => some { s with operatorStack := [node] }
  | prev :: _ =>
    if prev.prece > node.prece then
      (mergeTop s).map fun s => { s with operatorStack := node :: s.operatorStack }
    else some { s with operatorStack := node :: s.operatorStack }

/-- The nodes of all jobs a name matches, joined by `&&` as they are made. -/
def createMoreNodes : List JobNode → Bool → Stacks → Option Stacks
  | [], _, s => some s
  | node :: nodes, first, s =>
    let s := { s with operandStack := .job node :: s.operandStack }
    if first then createMoreNodes nodes false s
    else
      match mergeTop { s with operatorStack := .and :: s.operatorStack } with
      | none => none
      | some s => createMoreNodes nodes false s

def isRelation : DptType → Bool
  | .GT | .GE | .LT | .LE | .EQ | .NE => true
  | _ => false

/-- The rest of `exit(name`: how the exit code is compared, if it is. -/
def exitArgs : List Token → Option (DptType × Int × List Token)
  | ⟨.RIGHT_, _⟩ :: rest => some (.TRUE, 0, rest)
  | ⟨.COMMA, _⟩ :: ⟨.NAME, code⟩ :: ⟨.RIGHT_, _⟩ :: rest =>
    if isint_ code then some (.EQ, atoi code, rest) else none
  | ⟨.COMMA, _⟩ :: ⟨op, _⟩ :: ⟨.NAME, code⟩ :: ⟨.RIGHT_, _⟩ :: rest =>
    if isRelation op ∧ isint_ code then some (op, atoi code, rest) else none
  | _ => none

section

variable (matchJobs : List Char → List Nat)

def nodesOf (type : DptType) (name : List Char) (opType : DptType) (exitCode : Int) : Option (List JobNode) :=
  if matchJobs name = [] then none
  else some ((matchJobs name).map fun job => ⟨type, job, opType, exitCode⟩)

/-- The tokens behind that of a condition: what is in the parentheses is taken for a name. -/
def jobCond (type : DptType) : List Token → Option (List JobNode × List Token)
  | ⟨.LEFT_, _⟩ :: name :: rest =>
    if type = .EXIT then do
      let (opType, exitCode, rest) ← exitArgs rest
      let nodes ← nodesOf matchJobs type name.text opType exitCode
      return (nodes, rest)
    else
      match rest with
      | ⟨.RIGHT_, _⟩ :: rest => do
        let nodes ← nodesOf matchJobs type name.text .TRUE 0
        return (nodes, rest)
      | _ => none
  | _ => none

/-- One turn of the loop of `parseDepCond`. -/
def parseToken (token : Token) (rest : List Token) (s : Stacks) : Option (List Token × Stacks) :=
  match token.type with
  | .AND => (pushOperator .and s).map fun s => (rest, s)
  | .OR => (pushOperator .or s).map fun s => (rest, s)
  | .NOT => (pushOperator .not s).map fun s => (rest, s)
  | .LEFT_ => some (rest, { s with operatorStack := .left_ :: s.operatorStack })
  | .RIGHT_ => (mergeLeft s.operatorStack s.operandStack).map fun s => (rest, s)
  | .DONE | .POST_DONE | .POST_ERR | .EXIT | .STARTED | .ENDED => do
    let (nodes, rest) ← jobCond matchJobs token.type rest
    let s ← createMoreNodes nodes true s
    return (rest, s)
  | .NAME => do
    let nodes ← nodesOf matchJobs .DONE token.text .TRUE 0
    let s ← createMoreNodes nodes true s
    return (rest, s)
  | _ => none

def parseTokens : Nat → List Token → Stacks → Option Stacks
  | _, [], s => some s
  | 0, _ :: _, _ => none
  | fuel + 1, token :: rest, s =>
    match parseToken matchJobs token rest s with
    | none => none
    | some (rest, s) => parseTokens fuel rest s

def parseDepCond (dependCond : List Token) : Option DptNode :=
  match parseTokens matchJobs dependCond.length dependCond ⟨[], []⟩ with
  | none => none
  | some s =>
    match mergeAll s.operatorStack s.operandStack with
    | ⟨[], [rootNode]⟩ => some rootNode
    | _ => none

end

inductive Value where
  | DP_FALSE | DP_TRUE | DP_INVALID | DP_REJECT
  deriving DecidableEq

/-- With the values of the nodes of jobs given. -/
def evalDepCond (value : JobNode → Value) : DptNode → Value
  | .job node => value node
  | .or l r =>
    match evalDepCond value l with
    | .DP_REJECT => .DP_REJECT
    | .DP_TRUE => .DP_TRUE
    | .DP_FALSE =>
      match evalDepCond value r with
      | .DP_REJECT => .DP_REJECT
      | .DP_TRUE => .DP_TRUE
      | _ => .DP_FALSE
    | .DP_INVALID => evalDepCond value r
  | .and l r =>
    match evalDepCond value l with
    | .DP_INVALID => .DP_INVALID
    | .DP_REJECT => .DP_REJECT
    | .DP_FALSE =>
      match evalDepCond value r with
      | .DP_INVALID => .DP_INVALID
      | .DP_REJECT => .DP_REJECT
      | _ => .DP_FALSE
    | .DP_TRUE => evalDepCond value r
  | .not l =>
    match evalDepCond value l with
    | .DP_REJECT => .DP_REJECT
    | .DP_FALSE => .DP_TRUE
    | .DP_INVALID => .DP_TRUE
    | .DP_TRUE => .DP_FALSE
  | .left_ _ _ => .DP_FALSE

inductive JobDep where
  | done | exit | started | ended | post_done | post_err
  deriving DecidableEq

def JobDep.type : JobDep → DptType
  | .done => .DONE
  | .exit => .EXIT
  | .started => .STARTED
  | .ended => .ENDED
  | .post_done => .POST_DONE
  | .post_err => .POST_ERR

/-- A name alone, a name with a word in front, or `exit` with a code, which a relation may precede. -/
inductive JobCond where
  | bare (name : List Char)
  | on (dep : JobDep) (name : List Char)
  | exitCode (name code : List Char) (hcode : isint_ code = true)
  | exitRelation (name : List Char) (op : DptType) (hop : isRelation op = true) (code : List Char)
      (hcode : isint_ code = true)

def JobCond.jobName : JobCond → List Char
  | .bare name => name
  | .on _ name => name
  | .exitCode name _ _ => name
  | .exitRelation name _ _ _ _ => name

def leftToken : Token := ⟨.LEFT_, ['(']⟩

def rightToken : Token := ⟨.RIGHT_, [')']⟩

def commaToken : Token := ⟨.COMMA, [',']⟩

def JobCond.tokens : JobCond → List Token
  | .bare name => [⟨.NAME, name⟩]
  | .on dep name => [⟨dep.type, []⟩, leftToken, ⟨.NAME, name⟩, rightToken]
  | .exitCode name code _ => [⟨.EXIT, []⟩, leftToken, ⟨.NAME, name⟩, commaToken, ⟨.NAME, code⟩, rightToken]
  | .exitRelation name op _ code _ =>
    [⟨.EXIT, []⟩, leftToken, ⟨.NAME, name⟩, commaToken, ⟨op, []⟩, ⟨.NAME, code⟩, rightToken]

def JobCond.node (job : Nat) : JobCond → JobNode
  | .bare _ => ⟨.DONE, job, .TRUE, 0⟩
  | .on dep _ => ⟨dep.type, job, .TRUE, 0⟩
  | .exitCode _ code _ => ⟨.EXIT, job, .EQ, atoi code⟩
  | .exitRelation _ op _ code _ => ⟨.EXIT, job, op, atoi code⟩

mutual

/-- The grammar: `!` binds tighter than `&&`, and `&&` tighter than `||`. -/
inductive Primary (α : Type) where
  | cond (c : α)
  | paren (d : Disj α)

inductive Negation (α : Type) where
  | primary (p : Primary α)
  | not (n : Negation α)

inductive Conj (α : Type) where
  | single (n : Negation α)
  | and (n : Negation α) (c : Conj α)

inductive Disj (α : Type) where
  | single (c : Conj α)
  | or (c : Conj α) (d : Disj α)

end

section

variable {α : Type}

mutual

def Primary.value (truth : α → Bool) : Primary α → Bool
  | .cond c => truth c
  | .paren d => d.value truth

def Negation.value (truth : α → Bool) : Negation α → Bool
  | .primary p => p.value truth
  | .not n => !n.value truth

def Conj.value (truth : α → Bool) : Conj α → Bool
  | .single n => n.value truth
  | .and n c => n.value truth && c.value truth

def Disj.value (truth : α → Bool) : Disj α → Bool
  | .single c => c.value truth
  | .or c d => c.value truth || d.value truth

end

variable (cond : α → List Token)

mutual

def Primary.tokens : Primary α → List Token
  | .cond c => cond c
  | .paren d => leftToken :: (d.tokens ++ [rightToken])

def Negation.tokens : Negation α → List Token
  | .primary p => p.tokens
  | .not n => ⟨.NOT, ['!']⟩ :: n.tokens

def Conj.tokens : Conj α → List Token
  | .single n => n.tokens
  | .and n c => n.tokens ++ ⟨.AND, ['&', '&']⟩ :: c.tokens

def Disj.tokens : Disj α → List Token
  | .single c => c.tokens
  | .or c d => c.tokens ++ ⟨.OR, ['|', '|']⟩ :: d.tokens

end

end

end OpenLava.DepCond
