import Mathlib.Tactic
import OpenLava.Lib.Words

/-!
# Configuration files with conditions

`ls_getconf` reads a file into a tree of nodes with three pointers each, and `readNextLine` walks it. A heap maps
addresses to nodes; the next address is its size.
-/

namespace OpenLava.Wconf

open Function Text

abbrev Line := List Char

def readLine (lineNum : Nat) (fp : List Char) : Option ((Line × Nat) × List Char) :=
  match getNextLineD fp with
  | (none, _) => none
  | (some line, rest) => some ((line, if '\n' ∈ fp then lineNum + 1 else lineNum), rest)

/-- What successive calls of `getNextLineD_` give, at most `calls` of them. -/
def readLines : Nat → Nat → List Char → List (Line × Nat)
  | 0, _, _ => []
  | calls + 1, lineNum, fp =>
    match readLine lineNum fp with
    | none => []
    | some (line, rest) => line :: readLines calls line.2 rest

def confLines (text : List Char) : List (Line × Nat) := readLines (text.length + 1) 0 text

/-- `getNextWord_`: the word, empty for NULL, and what follows it. -/
def getNextWord (line : Line) : Line × Line :=
  let line := line.dropWhile isSpace
  (line.takeWhile fun c => !isSpace c, line.dropWhile fun c => !isSpace c)

def strcasecmp (s t : Line) : Bool := s.map Char.toLower = t.map Char.toLower

/-- The rest of a line up to a comment, without the white space around it. -/
def condName (linep : Line) : Line := ((linep.dropWhile isSpace).takeWhile (· ≠ '#')).rdropWhile isSpace

inductive Token where
  | text (line : Line)
  | define (name cond : Line)
  | if_ (cond : Line)
  | elif (cond : Line)
  | else_
  | endif
  | bad -- A directive without the names it needs.
  deriving DecidableEq

def ifNamed (cond : Line) (t : Line → Token) : Token := if cond = [] then .bad else t cond

/-- What `ls_getconf` takes a line for. -/
def token (line : Line) : Token :=
  let (word, linep) := getNextWord line
  match word with
  | '#' :: cp =>
    if strcasecmp cp "define".toList then
      let (name, linep) := getNextWord linep
      if name = [] then .bad else ifNamed (condName linep) (.define name)
    else if strcasecmp cp "if".toList then ifNamed (condName linep) .if_
    else if strcasecmp cp "elif".toList then ifNamed (condName linep) .elif
    else if strcasecmp cp "else".toList then .else_
    else if strcasecmp cp "endif".toList then .endif
    else .text line
  | _ => .text line

inductive NodeTag where
  | zero
  | NODE_LEFT_DONE
  | NODE_ALL_DONE
  | NODE_PASED
  deriving DecidableEq

inductive Field where
  | left
  | right
  | fw
  deriving DecidableEq

structure ConfNode where
  (leftPtr rightPtr fwPtr : Option Nat)
  cond : Option Line
  beginLineNum : Nat
  lines : List Line
  tag : NodeTag

def newNode : ConfNode := ⟨none, none, none, none, 0, [], .zero⟩

def ConfNode.ptr (n : ConfNode) : Field → Option Nat
  | .left => n.leftPtr
  | .right => n.rightPtr
  | .fw => n.fwPtr

def ConfNode.setPtr (n : ConfNode) (f : Field) (p : Nat) : ConfNode :=
  match f with
  | .left => { n with leftPtr := p }
  | .right => { n with rightPtr := p }
  | .fw => { n with fwPtr := p }

/-- The pointers `linkNode` tries, in order. -/
def ConfNode.tries (n : ConfNode) : List Field :=
  match n.cond, n.tag with
  | none, _ => [.fw]
  | some _, .NODE_ALL_DONE => [.fw]
  | some _, .NODE_LEFT_DONE => [.right, .fw]
  | some _, _ => [.left, .right, .fw]

/-- The pointer `linkNode` sets. -/
def ConfNode.free (n : ConfNode) : Option Field := n.tries.find? fun f => n.ptr f = none

def linkNode (prev : ConfNode) (node : Nat) : ConfNode :=
  match prev.free with
  | some f => prev.setPtr f node
  | none => prev

/-- The variables of `ls_getconf`. The stacks have their tops first; `defs` are the macros. -/
structure Build where
  size : Nat
  node : Nat → ConfNode
  (rootNode prev : Option Nat)
  (blockStack ptrStack : List Nat)
  defs : List (Line × Line)
  conds : List Line

def Build.init : Build := ⟨0, fun _ => newNode, none, none, [], [], [], []⟩

/-- A macro stands for the condition of its first definition. -/
def expand (defs : List (Line × Line)) (word : Line) : Line := (defs.lookup word).getD word

def addCond (conds : List Line) (cond : Line) : List Line := if conds.contains cond then conds else conds ++ [cond]

def Build.setTag (b : Build) (i : Nat) (tag : NodeTag) : Build :=
  { b with node := update b.node i { b.node i with tag := tag } }

def Build.attach (b : Build) (n : ConfNode) : Build :=
  let linked := match b.prev with
    | some prev => update b.node prev (linkNode (b.node prev) b.size)
    | none => b.node
  { b with size := b.size + 1, node := update linked b.size n, prev := some b.size
           rootNode := b.rootNode.or (some b.size) }

/-- The directives; `none` is an error. -/
def directive (t : Token) (b : Build) : Option Build :=
  match t with
  | .text _ => some b
  | .bad => none
  | .define name cond => some { b with defs := b.defs ++ [(name, expand b.defs cond)] }
  | .if_ cond =>
    let cond := expand b.defs cond
    let b' := b.attach { newNode with cond := some cond }
    some { b' with blockStack := b.size :: b.blockStack, ptrStack := b.size :: b.ptrStack, conds := addCond b.conds cond }
  | .elif cond =>
    let cond := expand b.defs cond
    match b.blockStack, b.ptrStack with
    | _ :: _, prev :: ptrs =>
      let b' := { b.setTag prev .NODE_LEFT_DONE with prev := some prev }.attach { newNode with cond := some cond }
      some { b' with ptrStack := b.size :: ptrs, conds := addCond b.conds cond }
    | _, _ => none
  | .else_ =>
    match b.blockStack, b.ptrStack with
    | _ :: _, prev :: _ => some { b.setTag prev .NODE_LEFT_DONE with prev := some prev }
    | _, _ => none
  | .endif =>
    match b.blockStack with
    | prev :: blocks =>
      some { b.setTag prev .NODE_ALL_DONE with prev := some prev, blockStack := blocks, ptrStack := b.ptrStack.tail }
    | [] => none

def flush (run : List (Line × Nat)) (b : Build) : Build :=
  match run with
  | [] => b
  | first :: _ => b.attach { newNode with beginLineNum := first.2, lines := run.map Prod.fst }

/-- The loops of `ls_getconf`; `run` are the lines the inner one has collected. -/
def buildTree : List (Line × Nat) → List (Line × Nat) → Build → Option Build
  | [], run, b => some (flush run b)
  | line :: rest, run, b =>
    match token line.1 with
    | .text _ => buildTree rest (run ++ [line]) b
    | t => (directive t (flush run b)).bind (buildTree rest [])

structure LsConf where
  node : Nat → ConfNode
  rootNode : Option Nat
  conds : List Line

def ls_getconf (text : List Char) : Option LsConf :=
  (buildTree (confLines text) [] .init).bind fun b =>
    if b.blockStack = [] then some ⟨b.node, b.rootNode, b.conds⟩ else none

/-- The handle of the file, with the nodes, whose tags change. -/
structure Reader where
  node : Nat → ConfNode
  curNode : Option Nat
  lineCount : Nat
  ptrStack : List Nat
  lineNum : Nat

def checkCond (conds : List Line) (values : List Bool) (cond : Line) : Bool := ((conds.zip values).lookup cond).getD false

def Reader.setTag (r : Reader) (i : Nat) (tag : NodeTag) : Reader :=
  { r with node := update r.node i { r.node i with tag := tag } }

def Reader.goto (r : Reader) (p : Option Nat) : Reader := { r with curNode := p, lineCount := 0 }

/-- The end of both branches: the next line, or else one of the enclosing blocks. -/
def follow (recur : Reader → Option (Option Line × Reader)) (r : Reader) : Option (Option Line × Reader) :=
  (recur r).bind fun x =>
    match x with
    | (some line, r) => some (some line, r)
    | (none, r) => recur (r.goto r.ptrStack.head?)

/-- The body of `readNextLine`. -/
def readBody (check : Line → Bool) (recur : Reader → Option (Option Line × Reader)) (r : Reader) :
    Option (Option Line × Reader) :=
  match r.curNode with
  | none => some (none, r)
  | some i =>
    match (r.node i).cond with
    | some cond =>
      let branch :=
        if (r.node i).tag ≠ .NODE_PASED then
          let r := { r.setTag i .NODE_PASED with ptrStack := i :: r.ptrStack }
          recur (r.goto (if check cond then (r.node i).leftPtr else (r.node i).rightPtr))
        else some (none, r)
      branch.bind fun x =>
        match x with
        | (some line, r) => some (some line, r)
        | (none, r) => follow recur ({ r.setTag i .zero with ptrStack := r.ptrStack.tail }.goto (r.node i).fwPtr)
    | none =>
      match (r.node i).lines[r.lineCount]? with
      | some line =>
        some (some line, { r with lineCount := r.lineCount + 1, lineNum := (r.node i).beginLineNum + r.lineCount })
      | none => follow recur (r.goto (r.node i).fwPtr)

/-- `none` is a call that is too deep for `fuel`. -/
def readNextLine (check : Line → Bool) : Nat → Reader → Option (Option Line × Reader)
  | 0, _ => none
  | fuel + 1, r => readBody check (readNextLine check fuel) r

def readCalls (check : Line → Bool) (fuel : Nat) : Nat → Reader → Option (List (Option Line))
  | 0, _ => some []
  | calls + 1, r =>
    (readNextLine check fuel r).bind fun x => (readCalls check fuel calls x.2).map (x.1 :: ·)

/-- The handle `ls_getconf` returns. -/
def LsConf.reader (conf : LsConf) : Reader := ⟨conf.node, conf.rootNode, 0, [], 0⟩

end OpenLava.Wconf
