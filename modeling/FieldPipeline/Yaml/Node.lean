import FieldPipeline.Yaml.Token

/-!
# Nodes

The tokens of one document make up a tree of scalars, sequences and mappings. An anchor labels its
node with the number of different anchor names before it, and an alias refers to the label that its
name had last; of several nodes with one label the last one counts.
-/

namespace FieldPipeline.Yaml

/-- A node of a document. A scalar is `plain` if it is written without quotes. -/
inductive Node where
  | scalar (label : Option Nat) (text : String) (plain : Bool) (tag : Option String)
  | sequence (label : Option Nat) (items : List Node)
  | mapping (label : Option Nat) (entries : List (Node × Node))
  | alias (label : Nat)
deriving Inhabited

namespace Node

def absent : Node :=
  .scalar none "" true none

/-- The tokens that are left, and the labels of the anchor names. -/
structure Feed where
  tokens : List Token
  labels : Record String Nat := []

structure Properties where
  anchor : Option String := none
  tag : Option String := none

def Properties.any (p : Properties) : Bool :=
  p.anchor.isSome || p.tag.isSome

/-- Takes the properties off the front; a tag needs a known handle. -/
def takeProperties (handles : TagHandles) : List Token → Option (Properties × List Token)
  | .anchor a :: .tag t :: rest | .tag t :: .anchor a :: rest => do
    return (⟨some a, some (← t.whole? handles)⟩, rest)
  | .anchor a :: rest => some (⟨some a, none⟩, rest)
  | .tag t :: rest => do return (⟨none, some (← t.whole? handles)⟩, rest)
  | rest => some ({}, rest)

def label (labels : Record String Nat) : Option String → Option Nat × Record String Nat
  | some name => (some labels.length, Record.put labels name labels.length)
  | none => (none, labels)

def endsBlockValue : List Token → Bool
  | .key :: _ | .value :: _ | .blockEnd :: _ => true
  | _ => false

def endsBlockItem : List Token → Bool
  | .item :: _ | .blockEnd :: _ => true
  | _ => false

def endsFlowValue : List Token → Bool
  | .comma :: _ | .flowMappingEnd :: _ => true
  | _ => false

def endsPairValue : List Token → Bool
  | .comma :: _ | .flowSequenceEnd :: _ => true
  | _ => false

mutual

/-- The node at the front. A block collection may only stand where `block` says so, and a sequence
without indentation of its own where `flat` says so. -/
def take (handles : TagHandles) : Nat → (block flat : Bool) → Feed → Option (Node × Feed)
  | 0, _, _, _ => none
  | fuel + 1, block, flat, feed =>
    match feed.tokens with
    | .alias name :: rest => do
      return (.alias (← Record.get? feed.labels name), { feed with tokens := rest })
    | _ => do
      let (properties, rest) ← takeProperties handles feed.tokens
      let (label, labels) := label feed.labels properties.anchor
      match rest with
      | .item :: _ =>
        if flat then
          let (items, feed) ← takeFlat handles fuel [] ⟨rest, labels⟩
          return (.sequence label items, feed)
        else if properties.any then
          return (.scalar label "" true properties.tag, ⟨rest, labels⟩)
        else none
      | .scalar text plain :: rest =>
        return (.scalar label text plain properties.tag, ⟨rest, labels⟩)
      | .flowSequence :: rest =>
        let (items, feed) ← takeFlowItems handles fuel [] ⟨rest, labels⟩
        return (.sequence label items, feed)
      | .flowMapping :: rest =>
        let (entries, feed) ← takeFlowEntries handles fuel [] ⟨rest, labels⟩
        return (.mapping label entries, feed)
      | rest =>
        match block, rest with
        | true, .blockSequence :: rest =>
          let (items, feed) ← takeBlockItems handles fuel [] ⟨rest, labels⟩
          return (.sequence label items, feed)
        | true, .blockMapping :: rest =>
          let (entries, feed) ← takeBlockEntries handles fuel [] ⟨rest, labels⟩
          return (.mapping label entries, feed)
        | _, rest =>
          if properties.any then
            return (.scalar label "" true properties.tag, ⟨rest, labels⟩)
          else none

/-- The items of a block sequence up to its end; `items` holds those before, the last one first. -/
def takeBlockItems (handles : TagHandles) : Nat → List Node → Feed → Option (List Node × Feed)
  | 0, _, _ => none
  | fuel + 1, items, feed =>
    match feed.tokens with
    | .item :: rest =>
      if endsBlockItem rest then
        takeBlockItems handles fuel (absent :: items) { feed with tokens := rest }
      else do
        let (node, feed) ← take handles fuel true false { feed with tokens := rest }
        takeBlockItems handles fuel (node :: items) feed
    | .blockEnd :: rest => some (items.reverse, { feed with tokens := rest })
    | _ => none

/-- The items of a sequence inside a mapping at the column of its keys. -/
def takeFlat (handles : TagHandles) : Nat → List Node → Feed → Option (List Node × Feed)
  | 0, _, _ => none
  | fuel + 1, items, feed =>
    match feed.tokens with
    | .item :: rest =>
      if endsBlockItem rest || endsBlockValue rest then
        takeFlat handles fuel (absent :: items) { feed with tokens := rest }
      else do
        let (node, feed) ← take handles fuel true false { feed with tokens := rest }
        takeFlat handles fuel (node :: items) feed
    | _ => some (items.reverse, feed)

def takeBlockEntries (handles : TagHandles) :
    Nat → List (Node × Node) → Feed → Option (List (Node × Node) × Feed)
  | 0, _, _ => none
  | fuel + 1, entries, feed =>
    match feed.tokens with
    | .key :: rest => do
      let (key, feed) ←
        if endsBlockValue rest then some (absent, { feed with tokens := rest })
        else take handles fuel true true { feed with tokens := rest }
      match feed.tokens with
      | .value :: rest =>
        if endsBlockValue rest then
          takeBlockEntries handles fuel ((key, absent) :: entries) { feed with tokens := rest }
        else
          let (value, feed) ← take handles fuel true true { feed with tokens := rest }
          takeBlockEntries handles fuel ((key, value) :: entries) feed
      | _ => takeBlockEntries handles fuel ((key, absent) :: entries) feed
    | .blockEnd :: rest => some (entries.reverse, { feed with tokens := rest })
    | _ => none

def takeFlowItems (handles : TagHandles) : Nat → List Node → Feed → Option (List Node × Feed)
  | 0, _, _ => none
  | fuel + 1, items, feed =>
    match feed.tokens with
    | .flowSequenceEnd :: rest => some (items.reverse, { feed with tokens := rest })
    | first => do
      let rest ←
        match items, first with
        | [], rest => some rest
        | _, .comma :: rest => some rest
        | _, _ => none
      match rest with
      | .flowSequenceEnd :: rest => some (items.reverse, { feed with tokens := rest })
      | .key :: rest =>
        let (key, feed) ←
          match rest with
          | .value :: rest | .comma :: rest | .flowSequenceEnd :: rest =>
            some (absent, { feed with tokens := rest })
          | _ => take handles fuel false false { feed with tokens := rest }
        match feed.tokens with
        | .value :: rest =>
          if endsPairValue rest then
            takeFlowItems handles fuel (.mapping none [(key, absent)] :: items)
              { feed with tokens := rest }
          else
            let (value, feed) ← take handles fuel false false { feed with tokens := rest }
            takeFlowItems handles fuel (.mapping none [(key, value)] :: items) feed
        | _ => takeFlowItems handles fuel (.mapping none [(key, absent)] :: items) feed
      | rest =>
        let (node, feed) ← take handles fuel false false { feed with tokens := rest }
        takeFlowItems handles fuel (node :: items) feed

def takeFlowEntries (handles : TagHandles) :
    Nat → List (Node × Node) → Feed → Option (List (Node × Node) × Feed)
  | 0, _, _ => none
  | fuel + 1, entries, feed =>
    match feed.tokens with
    | .flowMappingEnd :: rest => some (entries.reverse, { feed with tokens := rest })
    | first => do
      let rest ←
        match entries, first with
        | [], rest => some rest
        | _, .comma :: rest => some rest
        | _, _ => none
      match rest with
      | .flowMappingEnd :: rest => some (entries.reverse, { feed with tokens := rest })
      | .key :: rest =>
        let (key, feed) ←
          match rest with
          | .value :: _ | .comma :: _ | .flowMappingEnd :: _ =>
            some (absent, { feed with tokens := rest })
          | _ => take handles fuel false false { feed with tokens := rest }
        match feed.tokens with
        | .value :: rest =>
          if endsFlowValue rest then
            takeFlowEntries handles fuel ((key, absent) :: entries) { feed with tokens := rest }
          else
            let (value, feed) ← take handles fuel false false { feed with tokens := rest }
            takeFlowEntries handles fuel ((key, value) :: entries) feed
        | _ => takeFlowEntries handles fuel ((key, absent) :: entries) feed
      | rest =>
        let (key, feed) ← take handles fuel false false { feed with tokens := rest }
        takeFlowEntries handles fuel ((key, absent) :: entries) feed

end

/-- The directives at the front, none of them twice: the declared handles, and the rest. -/
def takeDirectives (versioned : Bool) (handles : TagHandles) :
    List Token → Option (TagHandles × List Token)
  | .version major minor :: rest =>
    if versioned ∨ major ≠ 1 ∨ (minor ≠ 1 ∧ minor ≠ 2) then none
    else takeDirectives true handles rest
  | .handle name beginning :: rest =>
    if (Record.get? handles name).isSome then none
    else takeDirectives versioned ((name, beginning) :: handles) rest
  | rest => some (handles, rest)

def takeDocument (tokens : List Token) : Option (Node × List Token) :=
  let content (handles : TagHandles) (rest : List Token) : Option (Node × List Token) :=
    (take (handles ++ Tag.commonHandles) (4 * tokens.length + 4) true false ⟨rest, []⟩).map
      fun (node, feed) => (node, feed.tokens)
  match tokens with
  | [] => none
  | .version _ _ :: _ | .handle _ _ :: _ | .documentStart :: _ =>
    match takeDirectives false [] tokens with
    | some (handles, .documentStart :: rest) =>
      match rest with
      | [] | .version _ _ :: _ | .handle _ _ :: _ | .documentStart :: _ | .documentEnd :: _ =>
        some (absent, rest)
      | _ => content handles rest
    | _ => none
  | _ => content [] tokens

def ofText (text : String) : Option Node := do
  let (node, rest) ← takeDocument (← tokens text.toList)
  if rest.all (· = .documentEnd) then some node else none

mutual

/-- The labelled nodes of a tree, each before those inside it. -/
def labelled : Node → List (Nat × Node)
  | .scalar label text plain tag => (label.map fun n => (n, .scalar label text plain tag)).toList
  | .sequence label items =>
    (label.map fun n => (n, .sequence label items)).toList ++ labelledItems items
  | .mapping label entries =>
    (label.map fun n => (n, .mapping label entries)).toList ++ labelledEntries entries
  | .alias _ => []

def labelledItems : List Node → List (Nat × Node)
  | [] => []
  | item :: items => labelled item ++ labelledItems items

def labelledEntries : List (Node × Node) → List (Nat × Node)
  | [] => []
  | (key, value) :: entries => labelled key ++ labelled value ++ labelledEntries entries

end

/-- The node that a node of a document stands for: itself, or the last one in the whole document
with the label of an alias. -/
def target : Node → (root : Node) → Option Node
  | .alias label, root => ((labelled root).reverse.find? (·.1 = label)).map Prod.snd
  | node, _ => some node

end Node

end FieldPipeline.Yaml
