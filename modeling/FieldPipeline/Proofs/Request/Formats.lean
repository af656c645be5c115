import FieldPipeline.Proofs.Request.Forms
import FieldPipeline.Proofs.Yaml.Node
import FieldPipeline.Proofs.Yaml.Token
import FieldPipeline.Program

/-!
# One text for both formats

The compact JSON text of a request is a YAML flow mapping too. The quotes keep YAML from giving a
meaning to anything inside them, so as long as nothing has to be escaped, both readers take the text
for the same request.
-/

namespace FieldPipeline

open Text Yaml

theorem Json.quoted_of_unescaped {s : String} (h : Unescaped s) :
    Json.quoted s = '"' :: (s.toList ++ ['"']) := by
  have hescape : ∀ c ∈ s.toList, Json.escape c = [c] := by
    intro c hc
    obtain ⟨hascii, hquote, hslash⟩ := h c hc
    have hraw : ¬ c.toNat < 0x20 := by
      have hlow := hascii.1
      omega
    simp [Json.escape, hquote, hslash, hraw, hascii.ne (d := '\n') (by decide),
      hascii.ne (d := '\r') (by decide), hascii.ne (d := '\t') (by decide),
      hascii.ne (d := '\x08') (by decide), hascii.ne (d := '\x0c') (by decide)]
  have htext : s.toList.flatMap Json.escape = s.toList := by
    rw [List.flatMap_def, List.map_congr_left hescape, ← List.flatMap_def, List.flatMap_singleton']
  rw [Json.quoted, htext, List.cons_append]

namespace Request

def keyToken : Option String → Token
  | none => .scalar "null" true
  | some key => .scalar key false

theorem scans_key {key : Option String} (h : ∀ k ∈ key, Unescaped k) (depth : Nat) :
    Scans ((keyJson key).compactChars ++ [',']) [keyToken key, .comma] (depth + 1) false (depth + 1)
      true := by
  cases key with
  | none => exact .null depth false
  | some key =>
    have hkey := h key rfl
    rw [keyJson, Json.compactChars, Json.quoted_of_unescaped hkey]
    exact (Scans.quoted hkey (depth + 1) false).append (.comma (depth + 1) false)

theorem scans_items {texts : List String} (h : ∀ s ∈ texts, Unescaped s) (depth : Nat)
    (keyAllowed : Bool) :
    ∃ keyAllowed', Scans (Json.compactItems (texts.map .string)) (itemTokens texts) depth keyAllowed
      depth keyAllowed' := by
  induction texts generalizing keyAllowed with
  | nil => exact ⟨keyAllowed, .nil depth keyAllowed⟩
  | cons text texts ih =>
    obtain ⟨htext, htexts⟩ := List.forall_mem_cons.1 h
    have hfirst := Scans.quoted htext depth keyAllowed
    rw [← Json.quoted_of_unescaped htext] at hfirst
    cases texts with
    | nil => exact ⟨false, hfirst⟩
    | cons next texts =>
      obtain ⟨keyAllowed', hrest⟩ := ih htexts true
      have hcomma := (hfirst.append (.comma depth false)).append hrest
      refine ⟨keyAllowed', ?_⟩
      simpa [Json.compactItems, Json.compactChars, itemTokens] using hcomma

/-- The tokens of the object with the key before the fields. -/
theorem tokens_compact {r : Request} (hkey : ∀ key ∈ r.sessionKey, Unescaped key)
    (hfields : ∀ s ∈ r.fields, Unescaped s) :
    tokens r.toJson.compact.toList =
      some (.flowMapping :: .key :: .scalar "session_key" false :: .value :: keyToken r.sessionKey ::
        .comma :: .key :: .scalar "fields" false :: .value :: .flowSequence ::
          (itemTokens r.fields ++ [.flowSequenceEnd, .flowMappingEnd])) := by
  have hkeyName : Unescaped "session_key" := by decide
  have hfieldsName : Unescaped "fields" := by decide
  obtain ⟨keyAllowed, hitems⟩ := scans_items hfields 2 true
  have hopen := Scans.openBracket (.inr ⟨rfl, rfl⟩) 0 true
  have hkeyEntry := (Scans.name hkeyName (by decide) 0).append (scans_key hkey 0)
  have hfieldsEntry := (Scans.name hfieldsName (by decide) 0).append
    (((Scans.openBracket (.inl ⟨rfl, rfl⟩) 1 false).append hitems).append
      (.closeBracket (.inl ⟨rfl, rfl⟩) 1 keyAllowed))
  have hscans := ((hopen.append hkeyEntry).append hfieldsEntry).append
    (.closeBracket (.inr ⟨rfl, rfl⟩) 0 false)
  have htokens := tokens_of_scans hscans
  have htext : r.toJson.compact.toList = '{' :: (('"' :: ("session_key".toList ++ ['"', ':'])) ++
      ((keyJson r.sessionKey).compactChars ++ [',']) ++ (('"' :: ("fields".toList ++ ['"', ':'])) ++
        ('[' :: (Json.compactItems (r.fields.map .string) ++ [']']))) ++ ['}']) := by
    simp [toJson, Json.compact, Json.compactChars, Json.compactMembers, Json.strings,
      Json.quoted_of_unescaped hkeyName, Json.quoted_of_unescaped hfieldsName]
  rw [htext]
  simpa using htokens

theorem textOf?_quoted (root : Node) (text : String) :
    textOf? root (.quoted text) = some text := rfl

theorem textsOf?_quoted (root : Node) (label : Option Nat) (texts : List String) :
    textsOf? root (.sequence label (texts.map .quoted)) = some texts := by
  have hitems : (texts.map Node.quoted).mapM (textOf? root) = some texts := by
    induction texts with
    | nil => rfl
    | cons text texts ih =>
      rw [List.map_cons, List.mapM_cons, textOf?_quoted, ih]
      rfl
  exact hitems

theorem readEntries_pair (root : Node) {value : Node} {key : Option String} {fields : List String}
    (hkey : keyOf? root value = some key) :
    readEntries root none none [(.quoted "session_key", value),
      (.quoted "fields", .sequence none (fields.map .quoted))] = some ⟨key, fields⟩ := by
  simp [readEntries, textOf?_quoted, textsOf?_quoted, hkey]

theorem keyOf?_plain_null (root : Node) : keyOf? root (.scalar none "null" true none) = some none := by
  simp [keyOf?, Node.target, spellsNull]

theorem keyOf?_quoted (root : Node) (key : String) :
    keyOf? root (.scalar none key false none) = some (some key) := by
  simp [keyOf?, Node.target]

/-- A plain `null` is no key, and a quoted one is a key. -/
theorem ofYamlText_compact {r : Request} (hkey : ∀ key ∈ r.sessionKey, Unescaped key)
    (hfields : ∀ s ∈ r.fields, Unescaped s) : ofYamlText r.toJson.compact = some r := by
  have htokens := tokens_compact hkey hfields
  obtain ⟨key, fields⟩ := r
  cases key with
  | none =>
    rw [ofYamlText, Node.ofText_of_tokens htokens]
    exact readEntries_pair _ (keyOf?_plain_null _)
  | some key =>
    rw [ofYamlText, Node.ofText_of_tokens htokens]
    exact readEntries_pair _ (keyOf?_quoted _ key)

/-- A file with the compact text of a request without escapes is read as the request, whatever its
name says about the format. -/
theorem ofFile_compact {r : Request} (hkey : ∀ key ∈ r.sessionKey, Unescaped key)
    (hfields : ∀ s ∈ r.fields, Unescaped s) :
    ofYamlText r.toJson.compact = some r ∧ ofJsonText r.toJson.compact = .ok r ∧
      ∀ path, ofFile path (.ok r.toJson.compact.toUTF8) = .ok r := by
  have hyaml := ofYamlText_compact hkey hfields
  have hjson := ofJsonText_of_mem_forms (r := r) List.mem_cons_self
  refine ⟨hyaml, hjson, fun path => ?_⟩
  have hutf8 : String.fromUTF8? r.toJson.compact.toByteArray = some r.toJson.compact :=
    dif_pos r.toJson.compact.isValidUTF8
  cases hpath : FileName.isYaml path <;> simp [ofFile, hutf8, Request.ofText, hpath, hyaml, hjson]

/-- A key and fields that mean something else in YAML without their quotes. -/
theorem ofFile_compact_yaml_words :
    (∀ key ∈ some "null", Unescaped key) ∧
      (∀ s ∈ ["a: b", " # x ", "1.5", "[", ""], Unescaped s) ∧
      ofFile "r.yaml" (.ok
        "\x7b\"session_key\":\"null\",\"fields\":[\"a: b\",\" # x \",\"1.5\",\"[\",\"\"]\x7d".toUTF8) =
        .ok ⟨some "null", ["a: b", " # x ", "1.5", "[", ""]⟩ := by
  have hkey : ∀ key ∈ some "null", Unescaped key := by decide
  have hfields : ∀ s ∈ ["a: b", " # x ", "1.5", "[", ""], Unescaped s := by decide
  refine ⟨hkey, hfields, ?_⟩
  obtain ⟨-, -, hfile⟩ := ofFile_compact (r := ⟨some "null", ["a: b", " # x ", "1.5", "[", ""]⟩)
    hkey hfields
  exact hfile "r.yaml"

end Request

end FieldPipeline
