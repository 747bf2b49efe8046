import NoteQuery.Yaml.Token

/-!
# Nodes of YAML

The tree that the tokens of a document spell. An anchor gives a node a number, and an alias holds
the number of the anchor it names. The number of an anchor is the count of different names before
it, so a name that is given again can share its number with a later name; the last node with a
number is the one that aliases mean.
-/

namespace NoteQuery.Yaml

set_option autoImplicit false

inductive Node where
  | scalar (tag : Option (List Char)) (isPlain : Bool) (text : List Char)
  | sequence (tag : Option (List Char)) (items : List Node)
  | mapping (tag : Option (List Char)) (entries : List (Node × Node))
  | reference (number : Nat)

namespace Node

def blank : Node := scalar none true []

mutual

/-- The number of scalars and aliases, and of starts and ends of collections. -/
def size : Node → Nat
  | scalar _ _ _ => 1
  | sequence _ items => 2 + itemsSize items
  | mapping _ entries => 2 + entriesSize entries
  | reference _ => 1

def itemsSize : List Node → Nat
  | [] => 0
  | n :: ns => size n + itemsSize ns

def entriesSize : List (Node × Node) → Nat
  | [] => 0
  | (k, v) :: es => size k + size v + entriesSize es

end

end Node

/-- The tokens that are still to be read, and the anchors so far. -/
structure Reader where
  tokens : List Token
  handles : List (List Char × List Char)
  names : List (List Char × Nat)
  /-- The start of the last node with a number; starts are counted through the document. -/
  starts : List (Nat × Nat)
  nodes : List (Nat × Node)

namespace Reader

def drop (r : Reader) (count : Nat) : Reader := { r with tokens := r.tokens.drop count }

def head? (r : Reader) : Option Token := r.tokens.head?

def sees (r : Reader) (ts : List Token) : Bool := r.head?.any ts.contains

def declare (r : Reader) (anchor : Option (List Char)) : Nat × Reader :=
  let place := r.starts.length
  match anchor with
  | none => (place, r)
  | some name =>
    let number := r.names.length
    let names :=
      if (r.names.lookup name).isSome then
        r.names.map fun (n, k) => (n, if n == name then number else k)
      else (name, number) :: r.names
    (place, { r with names := names, starts := (number, place) :: r.starts })

def define (r : Reader) (anchor : Option (List Char)) (place : Nat) (n : Node) : Reader :=
  if anchor.isSome then { r with nodes := (place, n) :: r.nodes } else r

def aliased? (r : Reader) (number : Nat) : Option Node :=
  (r.starts.lookup number).bind fun place => r.nodes.lookup place

/-- The full form of a tag; a handle has to be known. -/
def fullTag? (r : Reader) (handle suffix : List Char) : Option (List Char) :=
  if handle.isEmpty then some suffix else (r.handles.lookup handle).map (· ++ suffix)

def properties? (r : Reader) : Option (Option (List Char) × Option (List Char) × Reader) :=
  match r.tokens with
  | .anchor name :: .tag handle suffix :: _ =>
    (r.fullTag? handle suffix).map fun tag => (some name, some tag, r.drop 2)
  | .anchor name :: _ => some (some name, none, r.drop 1)
  | .tag handle suffix :: .anchor name :: _ =>
    (r.fullTag? handle suffix).map fun tag => (some name, some tag, r.drop 2)
  | .tag handle suffix :: _ => (r.fullTag? handle suffix).map fun tag => (none, some tag, r.drop 1)
  | _ => some (none, none, r)

mutual

/-- A node inside or outside of blocks. Where it may be a sequence without indentation,
its entries follow at once. -/
def node? : Nat → Bool → Bool → Reader → Option (Node × Reader)
  | 0, _, _, _ => none
  | fuel + 1, inBlock, indentless, r =>
    match r.head? with
    | some (.reference name) => (r.names.lookup name).map fun number => (.reference number, r.drop 1)
    | _ =>
      match r.properties? with
      | none => none
      | some (anchor, tag, r) =>
        let (place, r) := r.declare anchor
        match content? fuel inBlock indentless (anchor.isSome || tag.isSome) tag r with
        | none => none
        | some (n, r) => some (n, r.define anchor place n)

/-- What stands behind the properties of a node; with properties it may be nothing. -/
def content? : Nat → Bool → Bool → Bool → Option (List Char) → Reader → Option (Node × Reader)
  | 0, _, _, _, _, _ => none
  | fuel + 1, inBlock, indentless, hasProperties, tag, r =>
    match r.head? with
    | some (.scalar isPlain text) => some (.scalar tag isPlain text, r.drop 1)
    | some .flowSequenceStart => (flowItems? fuel true (r.drop 1)).map fun (ns, r) =>
      (.sequence tag ns, r)
    | some .flowMappingStart => (flowEntries? fuel true (r.drop 1)).map fun (es, r) =>
      (.mapping tag es, r)
    | some .blockSequenceStart =>
      if inBlock then (blockItems? fuel (r.drop 1)).map fun (ns, r) => (.sequence tag ns, r)
      else if hasProperties then some (.scalar tag true [], r) else none
    | some .blockMappingStart =>
      if inBlock then (blockEntries? fuel (r.drop 1)).map fun (es, r) => (.mapping tag es, r)
      else if hasProperties then some (.scalar tag true [], r) else none
    | some .blockEntry =>
      if indentless then (indentlessItems? fuel r).map fun (ns, r) => (.sequence tag ns, r)
      else if hasProperties then some (.scalar tag true [], r) else none
    | _ => if hasProperties then some (.scalar tag true [], r) else none

def blockItems? : Nat → Reader → Option (List Node × Reader)
  | 0, _ => none
  | fuel + 1, r =>
    match r.head? with
    | some .blockEntry => do
      let (n, r) ← nodeUnless? fuel true false [.blockEntry, .blockEnd] (r.drop 1)
      let (ns, r) ← blockItems? fuel r
      return (n :: ns, r)
    | some .blockEnd => some ([], r.drop 1)
    | _ => none

def indentlessItems? : Nat → Reader → Option (List Node × Reader)
  | 0, _ => none
  | fuel + 1, r =>
    match r.head? with
    | some .blockEntry => do
      let (n, r) ← nodeUnless? fuel true false [.blockEntry, .key, .value, .blockEnd] (r.drop 1)
      let (ns, r) ← indentlessItems? fuel r
      return (n :: ns, r)
    | _ => some ([], r)

def blockEntries? : Nat → Reader → Option (List (Node × Node) × Reader)
  | 0, _ => none
  | fuel + 1, r =>
    match r.head? with
    | some .key => do
      let (k, r) ← nodeUnless? fuel true true [.key, .value, .blockEnd] (r.drop 1)
      let (v, r) ← valueUnless? fuel true [.key, .value, .blockEnd] r
      let (es, r) ← blockEntries? fuel r
      return ((k, v) :: es, r)
    | some .blockEnd => some ([], r.drop 1)
    | _ => none

def flowItems? : Nat → Bool → Reader → Option (List Node × Reader)
  | 0, _, _ => none
  | fuel + 1, isFirst, r =>
    if r.sees [.flowSequenceEnd] then some ([], r.drop 1)
    else if !isFirst && !r.sees [.flowEntry] then none
    else
      let r := if isFirst then r else r.drop 1
      if r.sees [.flowSequenceEnd] then some ([], r.drop 1)
      else do
        let (n, r) ← if r.sees [.key] then flowPair? fuel (r.drop 1) else node? fuel false false r
        let (ns, r) ← flowItems? fuel false r
        return (n :: ns, r)

/-- A mapping of one entry without braces. A missing key takes the token that shows
that it is missing with it. -/
def flowPair? : Nat → Reader → Option (Node × Reader)
  | 0, _ => none
  | fuel + 1, r => do
    let (k, r) ←
      if r.sees [.value, .flowEntry, .flowSequenceEnd] then some (.blank, r.drop 1)
      else node? fuel false false r
    let (v, r) ← valueUnless? fuel false [.flowEntry, .flowSequenceEnd] r
    return (.mapping none [(k, v)], r)

def flowEntries? : Nat → Bool → Reader → Option (List (Node × Node) × Reader)
  | 0, _, _ => none
  | fuel + 1, isFirst, r =>
    if r.sees [.flowMappingEnd] then some ([], r.drop 1)
    else if !isFirst && !r.sees [.flowEntry] then none
    else
      let r := if isFirst then r else r.drop 1
      if r.sees [.flowMappingEnd] then some ([], r.drop 1)
      else if r.sees [.key] then do
        let (k, r) ← nodeUnless? fuel false false [.value, .flowEntry, .flowMappingEnd] (r.drop 1)
        let (v, r) ← valueUnless? fuel false [.flowEntry, .flowMappingEnd] r
        let (es, r) ← flowEntries? fuel false r
        return ((k, v) :: es, r)
      else do
        let (k, r) ← node? fuel false false r
        let (es, r) ← flowEntries? fuel false r
        return ((k, .blank) :: es, r)

def nodeUnless? : Nat → Bool → Bool → List Token → Reader → Option (Node × Reader)
  | 0, _, _, _, _ => none
  | fuel + 1, inBlock, indentless, stops, r =>
    if r.sees stops then some (.blank, r) else node? fuel inBlock indentless r

/-- The value of an entry behind its colon; both may be missing. -/
def valueUnless? : Nat → Bool → List Token → Reader → Option (Node × Reader)
  | 0, _, _, _ => none
  | fuel + 1, inBlock, stops, r =>
    if r.sees [.value] then nodeUnless? fuel inBlock inBlock stops (r.drop 1) else some (.blank, r)

end

def commonHandles : List (List Char × List Char) :=
  [("!".toList, "!".toList), ("!!".toList, "tag:yaml.org,2002:".toList)]

def directives? : Bool → Reader → List Token → Option Reader
  | _, r, .documentStart :: ts => some { r with tokens := ts, handles := r.handles ++ commonHandles }
  | hasVersion, r, .versionDirective major minor :: ts =>
    if hasVersion || major != 1 || (minor != 1 && minor != 2) then none else directives? true r ts
  | hasVersion, r, .tagDirective handle start :: ts =>
    if (r.handles.lookup handle).isSome then none
    else directives? hasVersion { r with handles := r.handles ++ [(handle, start)] } ts
  | _, _, _ => none

def startsDocument : Token → Bool
  | .versionDirective _ _ => true
  | .tagDirective _ _ => true
  | .documentStart => true
  | _ => false

/-- The only document of a text: its node with the anchors, or nothing in an empty text. -/
def document? (ts : List Token) : Option (Option (Node × Reader)) :=
  let r : Reader := ⟨ts, [], [], [], []⟩
  match ts with
  | [] => some none
  | t :: _ => do
    let r ← if startsDocument t then directives? false r ts else some { r with handles := commonHandles }
    let isBlank := startsDocument t && r.head?.all fun t => startsDocument t || t == .documentEnd
    let (n, r) ← if isBlank then some (.blank, r) else node? (4 * ts.length + 8) true false r
    if (r.tokens.dropWhile (· == .documentEnd)).isEmpty then return some (n, r) else none

end Reader

end NoteQuery.Yaml
