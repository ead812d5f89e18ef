import RecordCuration.Json.Parser

/-!
Where a text goes wrong.

A text that cannot be read is searched for the first character with which no JSON text goes on, one
step per character. The search keeps what the character is for, the containers that are open, and
the line and column that it has come to; columns count bytes.
-/

namespace RecordCuration.Json

/-! ### Problems -/

inductive Problem where
  | endInList
  | endInObject
  | endInText
  | endInValue
  | noColon
  | noListComma
  | noObjectComma
  | notAWord
  | notAValue
  | nameNotAText
  | trailingComma
  | trailingCharacters
  | badNumeral
  | tooLarge
  | badEscape
  | controlCharacter
  /-- An escaped surrogate without its other half. -/
  | loneSurrogate
  /-- No second escape after the first half of a pair. -/
  | halfPair
  | tooDeep
  deriving DecidableEq, Repr

def Problem.message : Problem → String
  | .endInList => "EOF while parsing a list"
  | .endInObject => "EOF while parsing an object"
  | .endInText => "EOF while parsing a string"
  | .endInValue => "EOF while parsing a value"
  | .noColon => "expected `:`"
  | .noListComma => "expected `,` or `]`"
  | .noObjectComma => "expected `,` or `\x7d`"
  | .notAWord => "expected ident"
  | .notAValue => "expected value"
  | .nameNotAText => "key must be a string"
  | .trailingComma => "trailing comma"
  | .trailingCharacters => "trailing characters"
  | .badNumeral => "invalid number"
  | .tooLarge => "number out of range"
  | .badEscape => "invalid escape"
  | .controlCharacter => "control character (\\u0000-\\u001F) found while parsing a string"
  | .loneSurrogate => "lone leading surrogate in hex escape"
  | .halfPair => "unexpected end of hex escape"
  | .tooDeep => "recursion limit exceeded"

structure Position where
  line : Nat
  column : Nat
  deriving DecidableEq, Repr

/-- The place after some bytes of a character. -/
def Position.forward (p : Position) (c : Char) : (bytes : Nat) → Position
  | 0 => p
  | bytes + 1 => if c = '\n' then ⟨p.line + 1, 0⟩ else ⟨p.line, p.column + bytes + 1⟩

structure TextFault where
  problem : Problem
  position : Position
  deriving DecidableEq, Repr

def TextFault.message (f : TextFault) : String :=
  f.problem.message ++ " at line " ++ toString f.position.line
    ++ " column " ++ toString f.position.column

/-! ### Phases -/

/-- The part of a numeral that was read last. -/
inductive NumeralPart where
  | minus
  | zero
  | whole
  | point
  | fraction
  | mark
  | markSign
  | exponent
  deriving DecidableEq, Repr

inductive TextPart where
  | plain
  | escape
  /-- The bytes that are due, and the number so far if all were hexadecimal digits; `second` in the
  second half of a pair. -/
  | unit (second : Bool) (bytes : Nat) (n : Option Nat)
  /-- The second half of a pair is due. -/
  | backslash
  | letter
  deriving DecidableEq, Repr

/-- What the next character is for. What follows an opening bracket can be the closing one; what
follows a comma cannot. -/
inductive Phase where
  | value
  | item (opened : Bool)
  | name (opened : Bool)
  | colon
  | next
  | word (due : Char) (rest : List Char)
  /-- The characters of the numeral are reversed. -/
  | numeral (part : NumeralPart) (cs : List Char)
  | text (isName : Bool) (part : TextPart)
  deriving DecidableEq, Repr

inductive Container where
  | list
  | object
  deriving DecidableEq, Repr

/-- What a character leads to; a problem lies after some bytes of the character. -/
abbrev Outcome (α : Type) := Except (Problem × Nat) α

def reject {α : Type} (p : Problem) : Outcome α := .error (p, 1)

/-! ### Numerals -/

/-- The part of a numeral that a character belongs to; `none` when the numeral has ended. -/
def NumeralPart.step (part : NumeralPart) (c : Char) : Outcome (Option NumeralPart) :=
  let isMark := c = 'e' ∨ c = 'E'
  match part with
  | .minus =>
    if c = '0' then .ok (some .zero)
    else if c.isDigit then .ok (some .whole)
    else reject .badNumeral
  | .zero =>
    if c.isDigit then reject .badNumeral
    else .ok (if c = '.' then some .point else if isMark then some .mark else none)
  | .whole =>
    .ok (if c.isDigit then some .whole
      else if c = '.' then some .point
      else if isMark then some .mark
      else none)
  | .point => if c.isDigit then .ok (some .fraction) else reject .badNumeral
  | .fraction =>
    .ok (if c.isDigit then some .fraction else if isMark then some .mark else none)
  | .mark =>
    if c.isDigit then .ok (some .exponent)
    else if c = '+' ∨ c = '-' then .ok (some .markSign)
    else reject .badNumeral
  | .markSign => if c.isDigit then .ok (some .exponent) else reject .badNumeral
  | .exponent => .ok (if c.isDigit then some .exponent else none)

/-- Whether a text may end after a part of a numeral. -/
def NumeralPart.isLast : NumeralPart → Bool
  | .zero | .whole | .fraction | .exponent => true
  | _ => false

/-- Whether the characters of a numeral, reversed, write a number. -/
def isInRange (cs : List Char) : Bool := (numeral? cs.reverse >>= (·.toNumber?)).isSome

/-- An exponent beyond 32 bits is not read to its end. -/
def isBeyond (cs : List Char) : Bool :=
  match numeral? cs.reverse with
  | some ⟨_, _, _, some (false, ds)⟩ =>
    Nat.pow 2 31 ≤ Decimal.Numeral.ofDigits ds && !isInRange cs
  | _ => false

/-! ### Texts -/

def isHighSurrogate (n : Nat) : Bool := 0xD800 ≤ n && n < 0xDC00

def isLowSurrogate (n : Nat) : Bool := 0xDC00 ≤ n && n ≤ 0xDFFF

/-- What follows an escaped unit. -/
def afterUnit (second : Bool) (n : Nat) : Outcome TextPart :=
  if isLowSurrogate n ≠ second then reject .loneSurrogate
  else .ok (if isHighSurrogate n then .backslash else .plain)

/-- The part of a quoted text after a character; `none` after the closing quote. -/
def TextPart.step (part : TextPart) (c : Char) : Outcome (Option TextPart) :=
  match part with
  | .plain =>
    if c = '"' then .ok none
    else if c = '\\' then .ok (some .escape)
    else if c < ' ' then reject .controlCharacter
    else .ok (some .plain)
  | .escape =>
    if c = 'u' then .ok (some (.unit false 4 (some 0)))
    else if (Token.escaped? c).isSome then .ok (some .plain)
    else reject .badEscape
  | .unit second bytes n =>
    let n := n.bind fun n => (Text.hexDigit? c).map (16 * n + ·)
    if c.utf8Size < bytes then .ok (some (.unit second (bytes - c.utf8Size) n))
    else match n with
      | none => .error (.badEscape, bytes)
      | some n => (afterUnit second n).map some
  | .backslash => if c = '\\' then .ok (some .letter) else reject .halfPair
  | .letter => if c = 'u' then .ok (some (.unit true 4 (some 0))) else reject .halfPair

/-! ### Characters -/

/-- What the first character of a value begins. -/
def beginValue (stack : List Container) (c : Char) : Outcome (Phase × List Container) :=
  match c with
  | '"' => .ok (.text false .plain, stack)
  | '[' =>
    if stack.length < maxNesting then .ok (.item true, .list :: stack) else reject .tooDeep
  | '\x7b' =>
    if stack.length < maxNesting then .ok (.name true, .object :: stack) else reject .tooDeep
  | 't' => .ok (.word 'r' ['u', 'e'], stack)
  | 'f' => .ok (.word 'a' ['l', 's', 'e'], stack)
  | 'n' => .ok (.word 'u' ['l', 'l'], stack)
  | '-' => .ok (.numeral .minus [c], stack)
  | '0' => .ok (.numeral .zero [c], stack)
  | _ => if c.isDigit then .ok (.numeral .whole [c], stack) else reject .notAValue

/-- What a character after a value leads to. -/
def afterValue (stack : List Container) (c : Char) : Outcome (Phase × List Container) :=
  if Token.isBlank c then .ok (.next, stack)
  else match stack with
    | [] => reject .trailingCharacters
    | .list :: outer =>
      if c = ',' then .ok (.item false, stack)
      else if c = ']' then .ok (.next, outer)
      else reject .noListComma
    | .object :: outer =>
      if c = ',' then .ok (.name false, stack)
      else if c = '\x7d' then .ok (.next, outer)
      else reject .noObjectComma

def Phase.step (phase : Phase) (stack : List Container) (c : Char) :
    Outcome (Phase × List Container) :=
  match phase with
  | .value => if Token.isBlank c then .ok (.value, stack) else beginValue stack c
  | .item opened =>
    if Token.isBlank c then .ok (.item opened, stack)
    else if c = ']' then
      if opened then .ok (.next, stack.tail) else reject .trailingComma
    else beginValue stack c
  | .name opened =>
    if Token.isBlank c then .ok (.name opened, stack)
    else if c = '"' then .ok (.text true .plain, stack)
    else if c = '\x7d' then
      if opened then .ok (.next, stack.tail) else reject .trailingComma
    else reject .nameNotAText
  | .colon =>
    if Token.isBlank c then .ok (.colon, stack)
    else if c = ':' then .ok (.value, stack)
    else reject .noColon
  | .next => afterValue stack c
  | .word due rest =>
    if c = due then
      match rest with
      | [] => .ok (.next, stack)
      | due :: rest => .ok (.word due rest, stack)
    else reject .notAWord
  | .numeral part cs => do
    match ← part.step c with
    | some part =>
      if part = .exponent ∧ isBeyond (c :: cs) then reject .tooLarge
      else pure (.numeral part (c :: cs), stack)
    | none => if isInRange cs then afterValue stack c else .error (.tooLarge, 0)
  | .text isName part => do
    match ← part.step c with
    | some part => pure (.text isName part, stack)
    | none => pure (if isName then .colon else .next, stack)

/-- What is missing where a text ends after a value. -/
def missing? : List Container → Option Problem
  | [] => none
  | .list :: _ => some .endInList
  | .object :: _ => some .endInObject

/-- What is wrong with the end of a text. -/
def Phase.ending? (phase : Phase) (stack : List Container) : Option Problem :=
  match phase with
  | .value => some .endInValue
  | .item opened => some (if opened then .endInList else .endInValue)
  | .name opened => some (if opened then .endInObject else .endInValue)
  | .colon => some .endInObject
  | .next => missing? stack
  | .word _ _ => some .endInValue
  | .numeral part cs =>
    if part.isLast then if isInRange cs then missing? stack else some .tooLarge
    else some .endInValue
  | .text _ _ => some .endInText

/-! ### Texts as a whole -/

structure Search where
  phase : Phase
  stack : List Container
  position : Position
  deriving DecidableEq, Repr

namespace Search

def start : Search := ⟨.value, [], ⟨1, 0⟩⟩

def step (s : Search) (c : Char) : Except TextFault Search :=
  match s.phase.step s.stack c with
  | .ok (phase, stack) => .ok ⟨phase, stack, s.position.forward c c.utf8Size⟩
  | .error (problem, bytes) => .error ⟨problem, s.position.forward c bytes⟩

end Search

/-- The first fault of a text. -/
def textFault? (text : String) : Option TextFault :=
  match text.toList.foldlM Search.step .start with
  | .error fault => some fault
  | .ok s => (s.phase.ending? s.stack).map (⟨·, s.position⟩)

end RecordCuration.Json
