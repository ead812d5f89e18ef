import RecordCuration.Yaml.Node
import RecordCuration.Yaml.Scalar

/-!
Reading YAML: one document of block and flow collections.

Anchors, aliases, tags, directives, block scalars and explicit keys are not read. A key stands on
one line with its colon, which lies not far from its start. Block collections hold together by
column, and indentation is made of spaces only; a byte order mark at the start of a line takes up
a column.
-/

namespace RecordCuration.Yaml

/-! ### Between tokens -/

def byteOrderMark : Char := '\ufeff'

/-- Goes on to the next token, over blanks, line breaks and comments. Outside flow collections a tab
cannot indent. -/
def skipFrom (flow : Bool) (comment fresh : Bool) (line column : Nat) :
    List Char → Option Place
  | [] => some ⟨[], line, column, fresh⟩
  | c :: cs =>
    if isBreak c then skipFrom flow false (fresh || !flow) (line + 1) 0 cs
    else if comment then skipFrom flow true fresh line (column + 1) cs
    else if c == byteOrderMark && column == 0 then skipFrom flow false fresh line 1 cs
    else if c == ' ' then skipFrom flow false fresh line (column + 1) cs
    else if c == '\t' then
      if flow || !fresh then skipFrom flow false fresh line (column + 1) cs else none
    else if c == '#' then skipFrom flow true fresh line (column + 1) cs
    else some ⟨c :: cs, line, column, fresh⟩

def Place.next (p : Place) (flow : Bool) : Option Place :=
  skipFrom flow false p.fresh p.line p.column p.rest

/-- Goes on to the next token of a flow collection; the document cannot end there. -/
def Place.nextInFlow (p : Place) : Option Place := do
  let p ← p.next true
  if p.ended then none else some p

/-- How many bytes a colon can lie behind the start of its key. -/
def keyLimit : Nat := 1024

/-- The bytes between two places of one line. -/
def bytesBetween (p q : Place) : Nat :=
  (p.rest.take (q.column - p.column)).foldl (fun n c => n + c.utf8Size) 0

/-- The place after the colon that makes what stands from `start` to `p` a key; all of it is on one
line. -/
def valueMark? (flow : Bool) (start p : Place) : Option Place :=
  let blanks := p.rest.takeWhile isBlank
  match p.rest.dropWhile isBlank with
  | ':' :: cs =>
    let colon := p.skip blanks.length false
    if p.line == start.line && bytesBetween start colon ≤ keyLimit && (flow || blankAhead cs) then
      some (colon.skip 1 false)
    else none
  | _ => none

def isEntry : List Char → Bool
  | '-' :: cs => blankAhead cs
  | _ => false

def scalarNode (s : String × Bool) : Node := .scalar s.1 s.2

/-! ### Scalars and flow collections -/

mutual
/-- Reads a scalar or a flow collection that starts here, inside of a flow collection or not. -/
def inlineNode (margin : Nat) : Nat → Bool → Place → Option (Node × Place)
  | 0, _, _ => none
  | fuel + 1, flow, p =>
    match p.rest with
    | '[' :: _ => flowItems margin fuel [] (p.skip 1 false)
    | '\x7b' :: _ => flowMembers margin fuel [] (p.skip 1 false)
    | _ => (scalarAt flow margin p).map fun r => (scalarNode r.1, r.2)
/-- Reads a value after its colon, which may be missing. -/
def flowValue (margin : Nat) : Nat → Place → Option (Node × Place)
  | 0, _ => none
  | fuel + 1, p => do
    let p ← p.nextInFlow
    match p.rest with
    | ',' :: _ => some (.empty, p)
    | ']' :: _ => some (.empty, p)
    | '\x7d' :: _ => some (.empty, p)
    | _ => inlineNode margin fuel true p
/-- Reads the items of a sequence up to its end; a pair among them is a mapping of one. -/
def flowItems (margin : Nat) : Nat → List Node → Place → Option (Node × Place)
  | 0, _, _ => none
  | fuel + 1, items, p => do
    let p ← p.nextInFlow
    match p.rest with
    | ']' :: _ => some (.sequence items.reverse, p.skip 1 false)
    | _ =>
      let (node, q) ← inlineNode margin fuel true p
      let (node, q) ← match valueMark? true p q with
        | some q => do
          let (value, q) ← flowValue margin fuel q
          some (.mapping [(node, value)], q)
        | none => some (node, q)
      let q ← q.nextInFlow
      match q.rest with
      | ',' :: _ => flowItems margin fuel (node :: items) (q.skip 1 false)
      | ']' :: _ => some (.sequence (node :: items).reverse, q.skip 1 false)
      | _ => none
/-- Reads the members of a mapping up to its end. -/
def flowMembers (margin : Nat) : Nat → List (Node × Node) → Place → Option (Node × Place)
  | 0, _, _ => none
  | fuel + 1, members, p => do
    let p ← p.nextInFlow
    match p.rest with
    | '\x7d' :: _ => some (.mapping members.reverse, p.skip 1 false)
    | _ =>
      let (key, q) ← inlineNode margin fuel true p
      let (value, q) ← match valueMark? true p q with
        | some q => flowValue margin fuel q
        | none => some (.empty, q)
      let q ← q.nextInFlow
      match q.rest with
      | ',' :: _ => flowMembers margin fuel ((key, value) :: members) (q.skip 1 false)
      | '\x7d' :: _ => some (.mapping ((key, value) :: members).reverse, q.skip 1 false)
      | _ => none
end

/-! ### Block collections -/

/-- Whether the next token belongs to a node whose lines start at `margin` or further in; the
entries of a sequence under a key may stand right under the key. -/
def belongs (margin : Nat) (underKey : Bool) (p : Place) : Bool :=
  margin ≤ p.column || (underKey && p.column + 1 == margin && isEntry p.rest)

/-- How a block collection at a column goes on after one of its parts. -/
inductive Continuation where
  | ended (p : Place)
  | same (p : Place)

def continuation? (column : Nat) (p : Place) : Option Continuation := do
  let p ← p.next false
  if p.ended then some (.ended p)
  else if !p.fresh || column < p.column then none
  else if p.column < column then some (.ended p)
  else some (.same p)

mutual
/-- Reads a node under a collection, or the document's own. -/
def blockNode : Nat → Nat → Bool → Place → Option (Node × Place)
  | 0, _, _, _ => none
  | fuel + 1, margin, underKey, p => do
    let p ← p.next false
    if p.ended || !belongs margin underKey p then some (.empty, p)
    else if isEntry p.rest then
      if p.fresh then blockItems fuel p.column [] p else none
    else do
      let (node, q) ← inlineNode margin fuel false p
      match valueMark? false p q with
      | some q => if p.fresh then blockMembers fuel p.column [] node q else none
      | none => some (node, q)
/-- Reads the entries of a sequence from the mark of one. -/
def blockItems : Nat → Nat → List Node → Place → Option (Node × Place)
  | 0, _, _, _ => none
  | fuel + 1, column, items, p => do
    let (item, q) ← blockNode fuel (column + 1) false (p.skip 1 true)
    let items := item :: items
    match ← continuation? column q with
    | .ended q => some (.sequence items.reverse, q)
    | .same q =>
      if isEntry q.rest then blockItems fuel column items q
      else some (.sequence items.reverse, q)
/-- Reads the members of a mapping from after the colon of `key`. -/
def blockMembers : Nat → Nat → List (Node × Node) → Node → Place → Option (Node × Place)
  | 0, _, _, _, _ => none
  | fuel + 1, column, members, key, p => do
    let (value, q) ← blockNode fuel (column + 1) true p
    let members := (key, value) :: members
    match ← continuation? column q with
    | .ended q => some (.mapping members.reverse, q)
    | .same q =>
      let (key, r) ← inlineNode (column + 1) fuel false q
      blockMembers fuel column members key (← valueMark? false q r)
end

/-! ### Documents -/

/-- Whether a character may stand in a text. -/
def isPrintable (c : Char) : Bool :=
  c == '\t' || c == '\n' || c == '\r' || c == '\u0085' || (' ' ≤ c && c ≤ '~')
    || ('\u00a0' ≤ c && c ≠ '\ufffe' && c ≠ '\uffff')

/-- The text with carriage returns and next lines as line feeds. -/
def unifyBreaks : List Char → List Char
  | [] => []
  | '\r' :: '\n' :: cs => '\n' :: unifyBreaks cs
  | '\r' :: cs => '\n' :: unifyBreaks cs
  | '\u0085' :: cs => '\n' :: unifyBreaks cs
  | c :: cs => c :: unifyBreaks cs

/-- Whether nothing but ends of documents follows. -/
def onlyEnds : Nat → Place → Bool
  | 0, _ => false
  | fuel + 1, p =>
    match p.next false with
    | none => false
    | some p =>
      match p.rest with
      | [] => true
      | '.' :: '.' :: '.' :: _ => p.ended && onlyEnds fuel (p.skip 3 false)
      | _ => false

/-- The first place of a document's node; the end of a document cannot come first. -/
def opening (p : Place) : Option Place := do
  let p ← p.next false
  match p.rest with
  | [] => some p
  | c :: _ => if !p.ended then some p else if c == '-' then some (p.skip 3 false) else none

/-- Reads a text of one document; a text without one is empty. -/
def Node.ofString? (s : String) : Option Node :=
  let cs := s.toList
  if !cs.all isPrintable then none else do
    let cs := unifyBreaks cs
    let steps := 3 * cs.length + 3
    let (node, p) ← blockNode steps 0 false (← opening (.start cs))
    let p ← p.next false
    if p.ended && onlyEnds steps p then some node else none

end RecordCuration.Yaml
