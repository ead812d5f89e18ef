import RecordCuration.Text.Digit

/-!
YAML scalars: plain, in single quotes and in double quotes.

A scalar may run over several lines. Blanks around a line break are dropped, a single line feed
reads as a space and each further one as itself. Line and paragraph separators break lines too, and
always read as themselves.
-/

namespace RecordCuration.Yaml

/-- A place in a text. In `fresh` places a block sequence or mapping may start: only spaces stand
between here and the start of the line or the mark of an entry. -/
structure Place where
  rest : List Char
  line : Nat
  column : Nat
  fresh : Bool

def isBlank (c : Char) : Bool := c == ' ' || c == '\t'

/-- A line feed, or a separator of lines or paragraphs. -/
def isBreak (c : Char) : Bool := c == '\n' || c == '\u2028' || c == '\u2029'

/-- Whether a list starts with a blank or a line break, or has ended. -/
def blankAhead : List Char → Bool
  | [] => true
  | c :: _ => isBlank c || isBreak c

/-- A line of three hyphens or points begins or ends a document. -/
def isMarker : List Char → Bool
  | '-' :: '-' :: '-' :: cs => blankAhead cs
  | '.' :: '.' :: '.' :: cs => blankAhead cs
  | _ => false

namespace Place

def start (cs : List Char) : Place := ⟨cs, 0, 0, true⟩

/-- Whether a document ends here. -/
def ended (p : Place) : Bool := p.rest.isEmpty || (p.column == 0 && isMarker p.rest)

/-- The place `n` symbols on, on the same line. -/
def skip (p : Place) (n : Nat) (fresh : Bool) : Place :=
  { p with rest := p.rest.drop n, column := p.column + n, fresh }

end Place

/-- Blanks and breaks between two words of a scalar, the last one first. -/
inductive Gap where
  | blanks (reversed : List Char)
  | breaks (first : Char) (reversed : List Char)
  /-- Breaks after one that was escaped. -/
  | escaped (reversed : List Char)

namespace Gap

def blank (c : Char) : Gap → Gap
  | .blanks cs => .blanks (c :: cs)
  | g => g

def newline (c : Char) : Gap → Gap
  | .blanks _ => .breaks c []
  | .breaks first cs => .breaks first (c :: cs)
  | .escaped cs => .escaped (c :: cs)

def crosses : Gap → Bool
  | .blanks _ => false
  | _ => true

def none : Gap := .blanks []

def isNone : Gap → Bool
  | .blanks [] => true
  | _ => false

/-- Puts what a gap reads as before a reversed text. -/
def onto (text : List Char) : Gap → List Char
  | .blanks cs => cs ++ text
  | .breaks '\n' [] => ' ' :: text
  | .breaks '\n' cs => cs ++ text
  | .breaks first cs => cs ++ first :: text
  | .escaped cs => cs ++ text

end Gap

/-! ### Plain scalars -/

def isFlowMark (c : Char) : Bool := c ∈ [',', '[', ']', '\x7b', '\x7d']

/-- Marks that no plain scalar starts with. -/
def isIndicator (c : Char) : Bool :=
  isFlowMark c || c ∈ ['-', '?', ':', '#', '&', '*', '!', '|', '>', '\'', '"', '%', '@', '\x60']

def startsPlain (flow : Bool) : List Char → Bool
  | [] => false
  | c :: cs =>
    if isIndicator c then !blankAhead cs && (c == '-' || (!flow && (c == '?' || c == ':')))
    else !blankAhead [c]

/-- Whether a colon here divides a key from its value. -/
def endsKey (c : Char) (cs : List Char) : Bool := c == ':' && blankAhead cs

/-- A colon in a flow collection that could be read either way. -/
def isUnclearColon (c : Char) (cs : List Char) : Bool :=
  c == ':' && match cs with
    | d :: _ => isFlowMark d || d == '?'
    | [] => false

/-- Reads on in a plain scalar. Lines go on from column `margin`, in flow collections from any
column; tabs cannot stand before it. -/
def plainFrom (flow : Bool) (margin line column : Nat) (text : List Char) (gap : Gap) :
    List Char → Option (String × Place)
  | [] => some (String.ofList text.reverse, ⟨[], line, column, gap.crosses⟩)
  | c :: cs =>
    let stop := some (String.ofList text.reverse, ⟨c :: cs, line, column, gap.crosses⟩)
    if isBlank c then
      if gap.crosses && column < margin && c == '\t' then none
      else plainFrom flow margin line (column + 1) text (gap.blank c) cs
    else if isBreak c then plainFrom flow margin (line + 1) 0 text (gap.newline c) cs
    else if gap.crosses && !flow && column < margin then stop
    else if column == 0 && isMarker (c :: cs) then stop
    else if c == '#' && !gap.isNone then stop
    else if flow && isUnclearColon c cs then none
    else if endsKey c cs || (flow && isFlowMark c) then stop
    else plainFrom flow margin line (column + 1) (c :: gap.onto text) .none cs

/-! ### Quoted scalars -/

def singleFrom (line column : Nat) (text : List Char) (gap : Gap) :
    List Char → Option (String × Place)
  | [] => none
  | '\'' :: '\'' :: cs => singleFrom line (column + 2) ('\'' :: gap.onto text) .none cs
  | '\'' :: cs => some (String.ofList (gap.onto text).reverse, ⟨cs, line, column + 1, false⟩)
  | c :: cs =>
    if column == 0 && isMarker (c :: cs) then none
    else if isBlank c then singleFrom line (column + 1) text (gap.blank c) cs
    else if isBreak c then singleFrom (line + 1) 0 text (gap.newline c) cs
    else singleFrom line (column + 1) (c :: gap.onto text) .none cs

/-- What an escape in double quotes stands for. -/
def escaped? : Char → Option Char
  | '0' => some '\x00'
  | 'a' => some '\x07'
  | 'b' => some '\x08'
  | 't' => some '\t'
  | '\t' => some '\t'
  | 'n' => some '\n'
  | 'v' => some '\x0b'
  | 'f' => some '\x0c'
  | 'r' => some '\r'
  | 'e' => some '\x1b'
  | ' ' => some ' '
  | '"' => some '"'
  | '/' => some '/'
  | '\\' => some '\\'
  | 'N' => some '\u0085'
  | '_' => some '\u00a0'
  | 'L' => some '\u2028'
  | 'P' => some '\u2029'
  | _ => none

/-- The digits in an escape by number. -/
def escapeDigits? : Char → Option Nat
  | 'x' => some 2
  | 'u' => some 4
  | 'U' => some 8
  | _ => none

/-- The character of a number, if it has one. -/
def charOf? (n : Nat) : Option Char := if n.isValidChar then some (Char.ofNat n) else none

/-- What a reader in double quotes is in the middle of. -/
inductive DoubleMode where
  | text
  | escape
  | hex (digits value : Nat)

def doubleFrom (line column : Nat) (text : List Char) (gap : Gap) :
    DoubleMode → List Char → Option (String × Place)
  | _, [] => none
  | .text, c :: cs =>
    if column == 0 && isMarker (c :: cs) then none
    else if c == '"' then
      some (String.ofList (gap.onto text).reverse, ⟨cs, line, column + 1, false⟩)
    else if c == '\\' then doubleFrom line (column + 1) (gap.onto text) .none .escape cs
    else if isBlank c then doubleFrom line (column + 1) text (gap.blank c) .text cs
    else if isBreak c then doubleFrom (line + 1) 0 text (gap.newline c) .text cs
    else doubleFrom line (column + 1) (c :: gap.onto text) .none .text cs
  | .escape, c :: cs =>
    if isBreak c then doubleFrom (line + 1) 0 text (.escaped []) .text cs
    else match escaped? c, escapeDigits? c with
      | some e, _ => doubleFrom line (column + 1) (e :: text) .none .text cs
      | none, some digits => doubleFrom line (column + 1) text .none (.hex digits 0) cs
      | none, none => none
  | .hex digits value, c :: cs =>
    match Text.hexDigit? c with
    | none => none
    | some d =>
      let value := 16 * value + d
      if digits ≤ 1 then
        match charOf? value with
        | some e => doubleFrom line (column + 1) (e :: text) .none .text cs
        | none => none
      else doubleFrom line (column + 1) text .none (.hex (digits - 1) value) cs

/-- A scalar with its text, and whether it is plain. -/
def scalarAt (flow : Bool) (margin : Nat) (p : Place) : Option ((String × Bool) × Place) :=
  match p.rest with
  | '"' :: cs => (doubleFrom p.line (p.column + 1) [] .none .text cs).map fun r =>
      ((r.1, false), r.2)
  | '\'' :: cs => (singleFrom p.line (p.column + 1) [] .none cs).map fun r => ((r.1, false), r.2)
  | cs =>
    if startsPlain flow cs then
      (plainFrom flow margin p.line p.column [] .none cs).map fun r => ((r.1, true), r.2)
    else none

end RecordCuration.Yaml
