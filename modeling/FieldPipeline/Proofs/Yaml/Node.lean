import FieldPipeline.Yaml.Node

/-!
# Nodes of scalars and flow collections

The node of a scalar is the scalar, and that of a flow sequence of quoted texts has their nodes in
order. The fuel that is needed grows with the number of tokens only.
-/

namespace FieldPipeline.Yaml

def itemTokens : List String → List Token
  | [] => []
  | text :: texts => .scalar text false :: texts.flatMap fun text => [.comma, .scalar text false]

namespace Node

def quoted (text : String) : Node :=
  .scalar none text false none

variable (handles : TagHandles) (fuel : Nat) (block flat : Bool) (labels : Record String Nat)

theorem take_scalar (text : String) (plain : Bool) (rest : List Token) :
    take handles (fuel + 1) block flat ⟨.scalar text plain :: rest, labels⟩ =
      some (.scalar none text plain none, ⟨rest, labels⟩) := by
  simp [take, takeProperties, label]

theorem takeFlowItems_end (items : List Node) (rest : List Token) :
    takeFlowItems handles (fuel + 1) items ⟨.flowSequenceEnd :: rest, labels⟩ =
      some (items.reverse, ⟨rest, labels⟩) := by
  simp [takeFlowItems]

theorem takeFlowItems_more {items : List Node} (hitems : items ≠ []) (texts : List String)
    (rest : List Token) :
    takeFlowItems handles (fuel + texts.length + 1) items
        ⟨(texts.flatMap fun text => [.comma, .scalar text false]) ++ .flowSequenceEnd :: rest,
          labels⟩ =
      some (items.reverse ++ texts.map quoted, ⟨rest, labels⟩) := by
  induction texts generalizing items with
  | nil =>
    rw [List.map_nil, List.append_nil]
    exact takeFlowItems_end handles fuel labels items rest
  | cons text texts ih =>
    have hnode := take_scalar handles (fuel + texts.length) false false labels text false
    obtain ⟨item, items, rfl⟩ := List.exists_cons_of_ne_nil hitems
    rw [List.length_cons, ← Nat.add_assoc, takeFlowItems]
    simp [hnode, ih, quoted]

theorem takeFlowItems_itemTokens (texts : List String) (rest : List Token) :
    takeFlowItems handles (fuel + texts.length + 1) []
        ⟨itemTokens texts ++ .flowSequenceEnd :: rest, labels⟩ =
      some (texts.map quoted, ⟨rest, labels⟩) := by
  cases texts with
  | nil => exact takeFlowItems_end handles fuel labels [] rest
  | cons text texts =>
    have hnode := take_scalar handles (fuel + texts.length) false false labels text false
    have hmore := takeFlowItems_more handles fuel labels (List.cons_ne_nil (quoted text) [])
      texts rest
    rw [List.length_cons, ← Nat.add_assoc, takeFlowItems]
    simp [itemTokens, hnode, quoted] at hmore ⊢
    exact hmore

theorem take_flowSequence (texts : List String) (rest : List Token) :
    take handles (fuel + texts.length + 2) block flat
        ⟨.flowSequence :: (itemTokens texts ++ .flowSequenceEnd :: rest), labels⟩ =
      some (.sequence none (texts.map quoted), ⟨rest, labels⟩) := by
  rw [take]
  simp [takeProperties, label, takeFlowItems_itemTokens]

theorem takeFlowEntries_end (entries : List (Node × Node)) (rest : List Token) :
    takeFlowEntries handles (fuel + 1) entries ⟨.flowMappingEnd :: rest, labels⟩ =
      some (entries.reverse, ⟨rest, labels⟩) := by
  simp [takeFlowEntries]

/-- An entry, behind a comma unless it is the first one. -/
theorem takeFlowEntries_entry {entries : List (Node × Node)} {lead : List Token}
    (hlead : entries = [] ∧ lead = [] ∨ entries ≠ [] ∧ lead = [.comma]) (name : String)
    {value : List Token} {node : Node} {rest : List Token} (hends : endsFlowValue value = false)
    (hvalue : take handles (fuel + 1) false false ⟨value, labels⟩ = some (node, ⟨rest, labels⟩)) :
    takeFlowEntries handles (fuel + 2) entries
        ⟨lead ++ .key :: .scalar name false :: .value :: value, labels⟩ =
      takeFlowEntries handles (fuel + 1) ((quoted name, node) :: entries) ⟨rest, labels⟩ := by
  have hname := take_scalar handles fuel false false labels name false
  rw [takeFlowEntries]
  obtain ⟨rfl, rfl⟩ | ⟨hentries, rfl⟩ := hlead
  · simp [hname, hends, hvalue, quoted]
  · obtain ⟨entry, entries, rfl⟩ := List.exists_cons_of_ne_nil hentries
    simp [hname, hends, hvalue, quoted]

/-- A flow mapping of a scalar and a sequence of quoted texts. -/
theorem take_flowMapping (name : String) (text : String) (plain : Bool) (name' : String)
    (texts : List String) (rest : List Token) :
    take handles (fuel + texts.length + 5) block flat
        ⟨.flowMapping :: .key :: .scalar name false :: .value :: .scalar text plain :: .comma ::
          .key :: .scalar name' false :: .value :: .flowSequence ::
            (itemTokens texts ++ .flowSequenceEnd :: .flowMappingEnd :: rest), labels⟩ =
      some (.mapping none [(quoted name, .scalar none text plain none),
        (quoted name', .sequence none (texts.map quoted))], ⟨rest, labels⟩) := by
  have hscalar := take_scalar handles (fuel + texts.length + 2) false false labels text plain
    (.comma :: .key :: .scalar name' false :: .value :: .flowSequence ::
      (itemTokens texts ++ .flowSequenceEnd :: .flowMappingEnd :: rest))
  have hsequence := take_flowSequence handles fuel false false labels texts
    (.flowMappingEnd :: rest)
  have hfirst := takeFlowEntries_entry handles (fuel + texts.length + 2) labels (.inl ⟨rfl, rfl⟩)
    name rfl hscalar
  have hsecond := takeFlowEntries_entry handles (fuel + texts.length + 1) labels
    (.inr ⟨List.cons_ne_nil (quoted name, .scalar none text plain none) [], rfl⟩) name' rfl
    hsequence
  have hend := takeFlowEntries_end handles (fuel + texts.length + 1) labels
    [(quoted name', .sequence none (texts.map quoted)),
      (quoted name, .scalar none text plain none)] rest
  have hentries := hfirst.trans (hsecond.trans hend)
  rw [List.nil_append] at hentries
  rw [take]
  simp [takeProperties, label, hentries]

theorem length_le_itemTokens (texts : List String) :
    texts.length ≤ (itemTokens texts).length := by
  cases texts with
  | nil => exact Nat.le_refl 0
  | cons text texts =>
    simp only [itemTokens, List.length_cons, List.length_flatMap, List.length_nil, List.map_const',
      List.sum_replicate_nat]
    omega

theorem takeDocument_flowMapping (ts : List Token) :
    takeDocument (.flowMapping :: ts) =
      (take Tag.commonHandles (4 * (ts.length + 1) + 4) true false ⟨.flowMapping :: ts, []⟩).map
        fun (node, feed) => (node, feed.tokens) := rfl

/-- The document of a flow mapping of a scalar and a sequence of quoted texts. -/
theorem ofText_of_tokens {s name text name' : String} {plain : Bool} {texts : List String}
    (h : tokens s.toList = some (.flowMapping :: .key :: .scalar name false :: .value ::
      .scalar text plain :: .comma :: .key :: .scalar name' false :: .value :: .flowSequence ::
        (itemTokens texts ++ [.flowSequenceEnd, .flowMappingEnd]))) :
    ofText s = some (.mapping none [(quoted name, .scalar none text plain none),
      (quoted name', .sequence none (texts.map quoted))]) := by
  have hlength := length_le_itemTokens texts
  generalize hts : Token.key :: Token.scalar name false :: Token.value :: Token.scalar text plain ::
    Token.comma :: Token.key :: Token.scalar name' false :: Token.value :: Token.flowSequence ::
      (itemTokens texts ++ [Token.flowSequenceEnd, Token.flowMappingEnd]) = ts at h
  obtain ⟨fuel, hfuel⟩ : ∃ fuel, 4 * (ts.length + 1) + 4 = fuel + texts.length + 5 := by
    refine ⟨4 * (ts.length + 1) + 4 - (texts.length + 5), ?_⟩
    have hshorter : (itemTokens texts).length ≤ ts.length := by
      rw [← hts]
      simp
      omega
    omega
  have htake := take_flowMapping Tag.commonHandles fuel true false [] name text plain name' texts []
  rw [hts] at htake
  rw [ofText, h]
  simp [takeDocument_flowMapping, hfuel, htake]

end Node

end FieldPipeline.Yaml
