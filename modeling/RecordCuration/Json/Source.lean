import RecordCuration.Decimal.Numeral
import RecordCuration.Text.Digit

/-!
JSON text as written: a scanner into tokens and a reader of tokens into a tree.

The tree keeps what a value forgets: repeated members, the form of a numeral, and escapes that
name half a surrogate pair. Both the scanner and the reader are one step per symbol, folded over
the input.
-/

namespace RecordCuration.Json

open Decimal (Numeral)

/-- A piece of a quoted text: a character, or a UTF-16 unit written as an escape. -/
inductive Piece where
  | char (c : Char)
  | unit (n : Nat)
  deriving DecidableEq, Repr

inductive Token where
  | openArr
  | closeArr
  | openObj
  | closeObj
  | comma
  | colon
  | bare (cs : List Char)
  | quoted (ps : List Piece)
  deriving DecidableEq, Repr

/-- JSON text as a tree, before numerals, texts and repeated members are given a meaning. -/
inductive Source where
  | null
  | bool (b : Bool)
  | num (n : Numeral)
  | text (ps : List Piece)
  | arr (items : List Source)
  | obj (members : List (List Piece × Source))
  deriving Repr

/-! ### Scanning -/

namespace Token

/-- What the scanner is in the middle of; lists are reversed. -/
inductive Mode where
  | blank
  | bare (cs : List Char)
  | quoted (ps : List Piece)
  | escape (ps : List Piece)
  | hex (ps : List Piece) (digits : Nat) (n : Nat)
  deriving Repr

structure Scan where
  mode : Mode
  done : List Token

def isBlank (c : Char) : Bool := c == ' ' || c == '\t' || c == '\n' || c == '\r'

/-- The token that a punctuation mark is. -/
def ofMark? : Char → Option Token
  | '[' => some .openArr
  | ']' => some .closeArr
  | '\x7b' => some .openObj
  | '\x7d' => some .closeObj
  | ',' => some .comma
  | ':' => some .colon
  | _ => none

def escaped? : Char → Option Char
  | '"' => some '"'
  | '\\' => some '\\'
  | '/' => some '/'
  | 'b' => some '\x08'
  | 'f' => some '\x0c'
  | 'n' => some '\n'
  | 'r' => some '\r'
  | 't' => some '\t'
  | _ => none

/-- A character outside quotes; `cs` is the bare word in progress, reversed. -/
def stepOutside (done : List Token) (cs : List Char) (c : Char) : Scan :=
  let flushed := if cs.isEmpty then done else .bare cs.reverse :: done
  if isBlank c then ⟨.blank, flushed⟩
  else if c == '"' then ⟨.quoted [], flushed⟩
  else match ofMark? c with
    | some t => ⟨.blank, t :: flushed⟩
    | none => ⟨.bare (c :: cs), done⟩

def step (s : Scan) (c : Char) : Option Scan :=
  match s.mode with
  | .blank => some (stepOutside s.done [] c)
  | .bare cs => some (stepOutside s.done cs c)
  | .quoted ps =>
    if c == '"' then some ⟨.blank, .quoted ps.reverse :: s.done⟩
    else if c == '\\' then some ⟨.escape ps, s.done⟩
    else if c < ' ' then none
    else some ⟨.quoted (.char c :: ps), s.done⟩
  | .escape ps =>
    if c == 'u' then some ⟨.hex ps 4 0, s.done⟩
    else (escaped? c).map fun e => ⟨.quoted (.char e :: ps), s.done⟩
  | .hex ps digits n =>
    (Text.hexDigit? c).map fun d =>
      let n := 16 * n + d
      if digits ≤ 1 then ⟨.quoted (.unit n :: ps), s.done⟩ else ⟨.hex ps (digits - 1) n, s.done⟩

def finish (s : Scan) : Option (List Token) :=
  match s.mode with
  | .blank => some s.done.reverse
  | .bare cs => some (Token.bare cs.reverse :: s.done).reverse
  | _ => none

/-- The tokens of a text; `none` when a quoted text is malformed or not closed. -/
def scan (cs : List Char) : Option (List Token) :=
  cs.foldlM step ⟨.blank, []⟩ >>= finish

end Token

/-! ### Numerals -/

/-- The digits at the head of a list, and what follows them. -/
def spanDigits : List Char → List Nat × List Char
  | [] => ([], [])
  | c :: cs =>
    match Text.digit? 10 c with
    | some d => let (ds, rest) := spanDigits cs; (d :: ds, rest)
    | none => ([], c :: cs)

def exponent? : List Char → Option (Option (Bool × List Nat))
  | [] => some none
  | e :: cs =>
    if e != 'e' && e != 'E' then none else
      let (negative, cs) := match cs with
        | '+' :: cs => (false, cs)
        | '-' :: cs => (true, cs)
        | cs => (false, cs)
      match spanDigits cs with
      | (d :: ds, []) => some (some (negative, d :: ds))
      | _ => none

def fraction? : List Char → Option (Option (List Nat) × List Char)
  | '.' :: cs =>
    match spanDigits cs with
    | (d :: ds, rest) => some (some (d :: ds), rest)
    | ([], _) => none
  | cs => some (none, cs)

/-- A numeral: no leading zeros, and digits on both sides of a point. -/
def numeral? (cs : List Char) : Option Numeral := do
  let (negative, cs) := match cs with
    | '-' :: cs => (true, cs)
    | cs => (false, cs)
  let (whole, cs) := spanDigits cs
  match whole with
  | [] => none
  | 0 :: _ :: _ => none
  | _ =>
    let (fraction, cs) ← fraction? cs
    let exponent ← exponent? cs
    pure ⟨negative, whole, fraction, exponent⟩

/-! ### Trees -/

namespace Source

/-- A container in progress; lists are reversed. -/
inductive Frame where
  | arr (items : List Source)
  | obj (members : List (List Piece × Source)) (name : List Piece)

/-- What the reader expects next, inside the containers of a stack. A container that was just
opened may close at once. -/
inductive State where
  | value (opened : Bool) (stack : List Frame)
  | name (opened : Bool) (members : List (List Piece × Source)) (stack : List Frame)
  | colon (members : List (List Piece × Source)) (name : List Piece) (stack : List Frame)
  | next (frame : Frame) (stack : List Frame)
  | done (v : Source)

/-- The place after a finished value. -/
def after (v : Source) : List Frame → State
  | [] => .done v
  | .arr items :: stack => .next (.arr (v :: items)) stack
  | .obj members name :: stack => .next (.obj ((name, v) :: members) name) stack

def ofBare? (cs : List Char) : Option Source :=
  match String.ofList cs with
  | "null" => some .null
  | "true" => some (.bool true)
  | "false" => some (.bool false)
  | _ => (numeral? cs).map .num

def step : State → Token → Option State
  | .value _ stack, .bare cs => (ofBare? cs).map (after · stack)
  | .value _ stack, .quoted ps => some (after (.text ps) stack)
  | .value _ stack, .openArr => some (.value true (.arr [] :: stack))
  | .value _ stack, .openObj => some (.name true [] stack)
  | .value true (.arr _ :: stack), .closeArr => some (after (.arr []) stack)
  | .name true _ stack, .closeObj => some (after (.obj []) stack)
  | .name _ members stack, .quoted name => some (.colon members name stack)
  | .colon members name stack, .colon => some (.value false (.obj members name :: stack))
  | .next (.arr items) stack, .comma => some (.value false (.arr items :: stack))
  | .next (.arr items) stack, .closeArr => some (after (.arr items.reverse) stack)
  | .next (.obj members _) stack, .comma => some (.name false members stack)
  | .next (.obj members _) stack, .closeObj => some (after (.obj members.reverse) stack)
  | _, _ => none

def ofTokens? (ts : List Token) : Option Source := do
  match ← ts.foldlM step (.value false []) with
  | .done v => some v
  | _ => none

/-- Reads a text as one JSON tree with nothing after it. -/
def ofString? (s : String) : Option Source :=
  Token.scan s.toList >>= ofTokens?

end Source

end RecordCuration.Json
