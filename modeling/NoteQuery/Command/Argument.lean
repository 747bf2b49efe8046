import NoteQuery.Text.Blank

/-!
# Arguments

The words of a command line as arguments: options with or without a value, and other words. An
option is a name behind two hyphens, or a letter in a group behind one. Its value follows an
equals sign or is the next word.
-/

namespace NoteQuery

set_option autoImplicit false

inductive Meaning (α : Type) where
  | plain (a : α)
  | valued (read? : String → Option α)

structure Level (α : Type) where
  named : List (String × Meaning α)
  lettered : List (Char × α)
  /-- The argument of a word that is no option; without one such words start the next level. -/
  word : Option (String → α)
  isFinal : α → Bool

namespace Level

variable {α : Type}

def isOption (w : String) : Bool :=
  match w.toList with
  | '-' :: _ :: _ => true
  | _ => false

def cutName (body : List Char) : String × Option String :=
  match Text.cutAt? '=' body with
  | some (name, value) => (String.ofList name, some (String.ofList value))
  | none => (String.ofList body, none)

def letters? (l : Level α) : List Char → Option (List α)
  | [] => some []
  | c :: cs =>
    match l.lettered.lookup c with
    | none => none
    | some a => if l.isFinal a then some [a] else (l.letters? cs).map (a :: ·)

/-- Arguments in front of what follows them, which counts unless one of them is final. -/
def before (l : Level α) (as : List α) (rest : Option (List α × List String)) :
    Option (List α × List String) :=
  if as.any l.isFinal then some (as, []) else rest.map fun (bs, ws) => (as ++ bs, ws)

/-- The arguments of a level, and the words from the one on that starts the next level. -/
def arguments? (l : Level α) : List String → Option (List α × List String)
  | [] => some ([], [])
  | w :: ws =>
    match w.toList with
    | ['-', '-'] => l.word.map fun word => (ws.map word, [])
    | '-' :: '-' :: body =>
      match l.named.lookup (cutName body).1, (cutName body).2, ws with
      | some (.plain a), none, ws => l.before [a] (l.arguments? ws)
      | some (.valued read?), some value, ws => (read? value).bind fun a =>
        l.before [a] (l.arguments? ws)
      | some (.valued read?), none, value :: ws =>
        if isOption value then none else (read? value).bind fun a => l.before [a] (l.arguments? ws)
      | _, _, _ => none
    | '-' :: c :: cs => (l.letters? (c :: cs)).bind fun as => l.before as (l.arguments? ws)
    | _ =>
      match l.word with
      | some word => l.before [word w] (l.arguments? ws)
      | none => some ([], w :: ws)

end Level

end NoteQuery
