import NoteQuery.Proofs.Expr.Spelling

/-!
# Phrases

A phrase is an expression as it is written: with the text of its numbers, the spelling of its
operators and its parentheses. Stratified phrases are the derivations of the grammar in which
each operator has a level: infix operators at the levels 0 to 5, prefix operators at 6,
suffixes at 7, and operands at 8.
-/

namespace NoteQuery.Expr

set_option autoImplicit false

structure Name where
  text : String
  isName : IsName text.toList

inductive Phrase where
  | number (n : Numeral)
  | text (s : String)
  | bool (b : Bool)
  /-- The absent value, in full `undefined`. -/
  | null (inFull : Bool)
  | ident (name : Name) (hname : name.text ∉ keywords)
  | group (inner : Phrase)
  | member (object : Phrase) (name : Name)
  | index (object key : Phrase)
  | call (callee : Phrase) (args : List Phrase)
  | unary (op : UnaryOp) (inWords : Bool) (operand : Phrase)
  | binary (op : BinaryOp) (inWords : Bool) (left right : Phrase)

/-- The token of a prefix operator. Only a negation can be written as a word. -/
def unaryToken (inWords : Bool) : UnaryOp → Token
  | .not => if inWords then .word "not" else .symbol .bang
  | .neg => .symbol .minus
  | .plus => .symbol .plus

/-- The token of an infix operator. Only the connectives can be written as words. -/
def binaryToken (inWords : Bool) : BinaryOp → Token
  | .or => if inWords then .word "or" else .symbol .bars
  | .and => if inWords then .word "and" else .symbol .ampersands
  | .eq => .symbol .equal2
  | .ne => .symbol .notEqual2
  | .strictEq => .symbol .equal3
  | .strictNe => .symbol .notEqual3
  | .lt => .symbol .less
  | .le => .symbol .lessEqual
  | .gt => .symbol .greater
  | .ge => .symbol .greaterEqual
  | .add => .symbol .plus
  | .sub => .symbol .minus
  | .mul => .symbol .star
  | .div => .symbol .slash
  | .rem => .symbol .percent

namespace Phrase

def level : Phrase → Nat
  | binary op _ _ _ => op.level
  | unary _ _ _ => 6
  | member _ _ => 7
  | index _ _ => 7
  | call _ _ => 7
  | _ => 8

mutual

def tokens : Phrase → List Token
  | number n => [.number n.chars]
  | text s => [.text s]
  | bool b => [.word (if b then "true" else "false")]
  | null inFull => [.word (if inFull then "undefined" else "null")]
  | ident name _ => [.word name.text]
  | group inner => .symbol .openParen :: (tokens inner ++ [.symbol .closeParen])
  | member object name => tokens object ++ [.symbol .dot, .word name.text]
  | index object key => tokens object ++ .symbol .openBracket :: (tokens key ++ [.symbol .closeBracket])
  | call callee args => tokens callee ++ .symbol .openParen :: (argTokens args ++ [.symbol .closeParen])
  | unary op inWords operand => unaryToken inWords op :: tokens operand
  | binary op inWords left right => tokens left ++ binaryToken inWords op :: tokens right

def argTokens : List Phrase → List Token
  | [] => []
  | p :: ps => tokens p ++ moreTokens ps

def moreTokens : List Phrase → List Token
  | [] => []
  | p :: ps => .symbol .comma :: (tokens p ++ moreTokens ps)

end

mutual

/-- The expression that is written; parentheses leave no trace in it. -/
def expr : Phrase → Expr
  | number n => .literal (.number n.value)
  | text s => .literal (.text s)
  | bool b => .literal (.bool b)
  | null _ => .literal .null
  | ident name _ => .ident name.text
  | group inner => expr inner
  | member object name => .member (expr object) name.text
  | index object key => .index (expr object) (expr key)
  | call callee args => .call (expr callee) (exprs args)
  | unary op _ operand => .unary op (expr operand)
  | binary op _ left right => .binary op (expr left) (expr right)

def exprs : List Phrase → List Expr
  | [] => []
  | p :: ps => expr p :: exprs ps

end

/-- The derivations of the grammar: an operand stands at its own level or a tighter one, and to the
right of an infix operator at a tighter one. -/
inductive Stratified : Phrase → Prop
  | number (n : Numeral) : Stratified (number n)
  | text (s : String) : Stratified (text s)
  | bool (b : Bool) : Stratified (bool b)
  | null (inFull : Bool) : Stratified (null inFull)
  | ident (name : Name) (hname : name.text ∉ keywords) : Stratified (ident name hname)
  | group {inner : Phrase} (h : Stratified inner) : Stratified (group inner)
  | member {object : Phrase} (name : Name) (h : Stratified object) (hlevel : 7 ≤ object.level) :
      Stratified (member object name)
  | index {object key : Phrase} (h : Stratified object) (hlevel : 7 ≤ object.level)
      (hkey : Stratified key) : Stratified (index object key)
  | call {callee : Phrase} {args : List Phrase} (h : Stratified callee) (hlevel : 7 ≤ callee.level)
      (hargs : ∀ a ∈ args, Stratified a) : Stratified (call callee args)
  | unary (op : UnaryOp) (inWords : Bool) {operand : Phrase} (h : Stratified operand)
      (hlevel : 6 ≤ operand.level) : Stratified (unary op inWords operand)
  | binary (op : BinaryOp) (inWords : Bool) {left right : Phrase} (hleft : Stratified left)
      (hleftLevel : op.level ≤ left.level) (hright : Stratified right)
      (hrightLevel : op.level < right.level) : Stratified (binary op inWords left right)

end Phrase

theorem unaryOp?_unaryToken (inWords : Bool) (op : UnaryOp) :
    unaryOp? (unaryToken inWords op) = some op := by
  cases op <;> cases inWords <;> rfl

theorem binaryOp?_binaryToken (inWords : Bool) (op : BinaryOp) :
    binaryOp? (binaryToken inWords op) = some op := by
  cases op <;> cases inWords <;> rfl

theorem exists_unaryToken_eq {t : Token} {op : UnaryOp} (h : unaryOp? t = some op) :
    ∃ inWords, unaryToken inWords op = t := by
  unfold unaryOp? at h
  split at h
  · cases h; exact ⟨false, rfl⟩
  · cases h; exact ⟨false, rfl⟩
  · cases h; exact ⟨false, rfl⟩
  · split at h
    · rename_i hname
      cases h
      exact ⟨true, by rw [hname]; rfl⟩
    · cases h
  · cases h

theorem exists_binaryToken_eq {t : Token} {op : BinaryOp} (h : binaryOp? t = some op) :
    ∃ inWords, binaryToken inWords op = t := by
  unfold binaryOp? at h
  split at h
  case h_16 =>
    split at h
    · rename_i hname
      cases h
      exact ⟨true, by rw [hname]; rfl⟩
    · split at h
      · rename_i hname
        cases h
        exact ⟨true, by rw [hname]; rfl⟩
      · cases h
  case h_17 => cases h
  all_goals
    cases h
    exact ⟨false, rfl⟩

theorem BinaryOp.level_lt (op : BinaryOp) : op.level < 6 := by
  cases op <;> decide

end NoteQuery.Expr
