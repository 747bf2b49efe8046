import NoteQuery.Number.Decimal

/-!
# Tokens of expressions

A token is the longest one that the text starts with. Space, tab, carriage return
and line feed separate tokens.
-/

namespace NoteQuery.Expr

set_option autoImplicit false

inductive Symbol where
  | bars
  | ampersands
  | equal3
  | notEqual3
  | equal2
  | notEqual2
  | lessEqual
  | greaterEqual
  | less
  | greater
  | plus
  | minus
  | star
  | slash
  | percent
  | bang
  | openParen
  | closeParen
  | openBracket
  | closeBracket
  | dot
  | comma
  deriving DecidableEq

inductive Token where
  | number (digits : List Char)
  | text (s : String)
  | word (name : String)
  | symbol (s : Symbol)
  deriving DecidableEq

def isSpace (c : Char) : Bool := c == ' ' || c == '\t' || c == '\r' || c == '\n'

def isWordStart (c : Char) : Bool := ('a' ≤ c && c ≤ 'z') || ('A' ≤ c && c ≤ 'Z') || c == '_' || c == '$'

def isWordChar (c : Char) : Bool := isWordStart c || Decimal.isDigit c

/-- A fraction at the start of a text: a point and at least one digit. -/
def fraction : List Char → List Char
  | '.' :: c :: r => if Decimal.isDigit c then '.' :: c :: r.takeWhile Decimal.isDigit else []
  | _ => []

def exponentDigits (mark : List Char) (r : List Char) : List Char :=
  match r.takeWhile Decimal.isDigit with
  | [] => []
  | ds => mark ++ ds

def exponent : List Char → List Char
  | e :: '+' :: r => if e = 'e' ∨ e = 'E' then exponentDigits [e, '+'] r else []
  | e :: '-' :: r => if e = 'e' ∨ e = 'E' then exponentDigits [e, '-'] r else []
  | e :: r => if e = 'e' ∨ e = 'E' then exponentDigits [e] r else []
  | [] => []

def numeral (cs : List Char) : List Char :=
  let whole := cs.takeWhile Decimal.isDigit
  let afterWhole := cs.drop whole.length
  let part := fraction afterWhole
  whole ++ part ++ exponent (afterWhole.drop part.length)

def unescape (c : Char) : Char :=
  if c = 'n' then '\n' else if c = 't' then '\t' else if c = 'r' then '\r'
  else if c = '0' then '\x00' else c

/-- The contents of a quoted text up to its closing quote, and the text after it. -/
def quotedBody (quote : Char) : List Char → Option (List Char × List Char)
  | [] => none
  | [c] => if c = quote then some ([], []) else none
  | c :: d :: r =>
    if c = quote then some ([], d :: r)
    else if c = '\\' then (quotedBody quote r).map fun (body, rest) => (unescape d :: body, rest)
    else (quotedBody quote (d :: r)).map fun (body, rest) => (c :: body, rest)

def symbol? : List Char → Option (Symbol × List Char)
  | '=' :: '=' :: '=' :: r => some (.equal3, r)
  | '!' :: '=' :: '=' :: r => some (.notEqual3, r)
  | '=' :: '=' :: r => some (.equal2, r)
  | '!' :: '=' :: r => some (.notEqual2, r)
  | '<' :: '=' :: r => some (.lessEqual, r)
  | '>' :: '=' :: r => some (.greaterEqual, r)
  | '|' :: '|' :: r => some (.bars, r)
  | '&' :: '&' :: r => some (.ampersands, r)
  | '<' :: r => some (.less, r)
  | '>' :: r => some (.greater, r)
  | '+' :: r => some (.plus, r)
  | '-' :: r => some (.minus, r)
  | '*' :: r => some (.star, r)
  | '/' :: r => some (.slash, r)
  | '%' :: r => some (.percent, r)
  | '!' :: r => some (.bang, r)
  | '(' :: r => some (.openParen, r)
  | ')' :: r => some (.closeParen, r)
  | '[' :: r => some (.openBracket, r)
  | ']' :: r => some (.closeBracket, r)
  | '.' :: r => some (.dot, r)
  | ',' :: r => some (.comma, r)
  | _ => none

/-- The token at the start of a text that does not start with space. -/
def token? (cs : List Char) : Option (Token × List Char) :=
  match cs with
  | [] => none
  | c :: r =>
    if Decimal.isDigit c then
      let digits := numeral cs
      some (.number digits, cs.drop digits.length)
    else if isWordStart c then
      some (.word (String.ofList (c :: r.takeWhile isWordChar)), r.dropWhile isWordChar)
    else if c = '"' ∨ c = '\'' then
      (quotedBody c r).map fun (body, rest) => (.text (String.ofList body), rest)
    else (symbol? cs).map fun (s, rest) => (.symbol s, rest)

/-- The tokens of a text, of which at most `limit` are read. -/
def tokensUpTo : Nat → List Char → Option (List Token)
  | limit, cs =>
    match cs.dropWhile isSpace with
    | [] => some []
    | c :: r =>
      match limit with
      | 0 => none
      | limit + 1 =>
        match token? (c :: r) with
        | none => none
        | some (t, rest) => (tokensUpTo limit rest).map (t :: ·)

def tokens? (cs : List Char) : Option (List Token) := tokensUpTo cs.length cs

end NoteQuery.Expr
