import RecordCuration.Text.Digit

/-!
URI references: a scheme, an authority, a path, a query and a fragment, all optional. Only certain
ASCII characters may stand bare; any byte may be written as `%` and two hexadecimal digits.
-/

namespace RecordCuration.Format

def isHexDigit (c : Char) : Bool := (Text.hexDigit? c).isSome

def isUnreserved (c : Char) : Bool := c.isAlphanum || "-._~".toList.contains c

def isSubDelim (c : Char) : Bool := "!$&'()*+,;=".toList.contains c

def isPathChar (c : Char) : Bool := isUnreserved c || isSubDelim c || c == ':' || c == '@'

/-- Characters of a class and escaped bytes. -/
def isEscapedText (ok : Char → Bool) : List Char → Bool
  | [] => true
  | '%' :: a :: b :: cs => isHexDigit a && isHexDigit b && isEscapedText ok cs
  | '%' :: _ => false
  | c :: cs => ok c && isEscapedText ok cs

def isPath (cs : List Char) : Bool := isEscapedText (fun c => isPathChar c || c == '/') cs

def isQuery (cs : List Char) : Bool :=
  isEscapedText (fun c => isPathChar c || c == '/' || c == '?') cs

def isScheme : List Char → Bool
  | [] => false
  | c :: cs => c.isAlpha && cs.all fun c => c.isAlphanum || "+-.".toList.contains c

/-- The text before the first of a character, and what follows it if it is there. -/
def cut (mark : Char) (cs : List Char) : List Char × Option (List Char) :=
  match cs.dropWhile (· != mark) with
  | [] => (cs, none)
  | _ :: rest => (cs.takeWhile (· != mark), some rest)

/-- A host, and perhaps a number after a colon; an address in brackets may hold colons. -/
def isHost (cs : List Char) : Bool :=
  match cs with
  | '[' :: rest =>
    match cut ']' rest with
    | (address, some number) =>
      address.all (fun c => isHexDigit c || c == ':' || c == '.') && !address.isEmpty &&
        (number.isEmpty || number.head? == some ':' && number.tail.all Char.isDigit)
    | (_, none) => false
  | _ =>
    match cut ':' cs with
    | (name, number) =>
      isEscapedText (fun c => isUnreserved c || isSubDelim c) name &&
        (number.getD []).all Char.isDigit

def isAuthority (cs : List Char) : Bool :=
  match cut '@' cs with
  | (user, some host) =>
    isEscapedText (fun c => isUnreserved c || isSubDelim c || c == ':') user && isHost host
  | (host, none) => isHost host

/-- An authority after two slashes, and a path. -/
def isHierarchy (cs : List Char) : Bool :=
  match cs with
  | '/' :: '/' :: rest =>
    isAuthority (rest.takeWhile (· != '/')) && isPath (rest.dropWhile (· != '/'))
  | cs => isPath cs

/-- A colon in the first segment ends a scheme. -/
def isSchemed (cs : List Char) : Bool :=
  match cut ':' (cs.takeWhile (· != '/')) with
  | (scheme, some _) => isScheme scheme && isHierarchy (cs.drop (scheme.length + 1))
  | (_, none) => false

def isReferenceBody (cs : List Char) : Bool :=
  if (cs.takeWhile (· != '/')).contains ':' then isSchemed cs else isHierarchy cs

/-- Splits off the fragment and the query and checks each. -/
def isUriWith (body : List Char → Bool) (s : String) : Bool :=
  match cut '#' s.toList with
  | (start, fragment) =>
    match cut '?' start with
    | (start, query) => body start && isQuery (query.getD []) && isQuery (fragment.getD [])

def isUriReference (s : String) : Bool := isUriWith isReferenceBody s

/-- A URI reference with a scheme. -/
def isUri (s : String) : Bool := isUriWith isSchemed s

end RecordCuration.Format
