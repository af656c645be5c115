import FieldPipeline.Proofs.Json.Truncated
import FieldPipeline.Proofs.Request.Forms

/-!
# Requests that break off

A written request that breaks off anywhere is refused for ending too early, never taken for
something else. The text is followed part by part: the key, the fields, a name with its colon, and
the brackets around them.
-/

namespace FieldPipeline.Request

open Json

namespace KeyReader

variable {ρ : Type} {next : Option String → List Char → Except ReadError ρ}

/-- A written key breaks off, or the text behind it does. -/
theorem starves_key {key : Option String} {cs : List Char} (h : Starves (next key) cs) :
    Starves (through step finish next .start) (compactChars (keyJson key) ++ cs) := by
  cases key with
  | none =>
    refine .cons rfl rfl (through_more (.word ['u', 'l', 'l']) rfl) ?_
    refine .cons rfl rfl (through_more (.word ['l', 'l']) rfl) ?_
    refine .cons rfl rfl (through_more (.word ['l']) rfl) ?_
    exact .cons rfl rfl (through_done none rfl) h
  | some s =>
    rw [keyJson, compactChars, quoted_append]
    refine .cons rfl rfl (through_more (.text .opened) rfl) ?_
    exact (starves_quoted h).congr (through_text .opened)

end KeyReader

theorem compactChars_pair (a b : String) (v w : Json) :
    compactChars (.object [(a, v), (b, w)]) =
      '{' :: (quoted a ++ ':' :: (compactChars v ++
        ',' :: (quoted b ++ ':' :: (compactChars w ++ ['}'])))) := by
  simp [compactChars, compactMembers]

namespace Reader

variable {r : Reader} {m : Members} {cs : List Char}

theorem starves_step {e : ReadError} {c : Char} (r' : Reader) (hend : r.finish = .error e)
    (he : e.category = .truncated) (hstep : r.step c = .ok r') (h : Starves r'.read cs) :
    Starves r.read (c :: cs) :=
  .cons hend he (read_of_step r' hstep) h

/-- A member breaks off inside its name or before its colon, or its value does. -/
theorem starves_entry {e : ReadError} {name : String} (hend : r.finish = .error e)
    (he : e.category = .truncated) (hquote : r.step '"' = .ok (nameText m .opened))
    (hname : startColon m name = .ok (colon m name)) (h : Starves (startMember m name).read cs) :
    Starves r.read (quoted name ++ ':' :: cs) := by
  have hcolon : Starves (colon m name).read (':' :: cs) := starves_step _ rfl rfl rfl h
  rw [quoted_append]
  refine starves_step (nameText m .opened) hend he hquote ?_
  refine (starves_quoted ?_).congr (read_nameText_eq m .opened)
  rw [hname]
  exact hcolon

theorem starves_keyEntry {e : ReadError} {key : Option String} (hend : r.finish = .error e)
    (he : e.category = .truncated) (hquote : r.step '"' = .ok (nameText m .opened))
    (hm : m.sessionKey = none)
    (h : Starves (memberRead { m with sessionKey := some key }).read cs) :
    Starves r.read (quoted "session_key" ++ ':' :: (compactChars (keyJson key) ++ cs)) := by
  have hname : startColon m "session_key" = .ok (colon m "session_key") := by
    simp [startColon, hm]
  have hvalue : Starves (keyValue m .start).read (compactChars (keyJson key) ++ cs) :=
    (KeyReader.starves_key h).congr (read_keyValue m .start)
  exact starves_entry hend he hquote hname hvalue

theorem starves_fieldsEntry {e : ReadError} {fields : List String} (hend : r.finish = .error e)
    (he : e.category = .truncated) (hquote : r.step '"' = .ok (nameText m .opened))
    (hm : m.fields = none) (h : Starves (memberRead { m with fields := some fields }).read cs) :
    Starves r.read (quoted "fields" ++ ':' :: (compactChars (strings fields) ++ cs)) := by
  have hname : startColon m "fields" = .ok (colon m "fields") := by
    simp [startColon, hm]
  have hvalue : Starves (fieldsValue m .start).read (compactChars (strings fields) ++ cs) :=
    (TextList.starves_strings h).congr (read_fieldsValue m .start)
  exact starves_entry hend he hquote hname hvalue

/-- An object breaks off before its brace. -/
theorem starves_brace (m : Members) : Starves (memberRead m).read ['}'] := by
  intro p hp hne
  rcases List.prefix_cons_iff.1 hp with rfl | ⟨rest, rfl, hrest⟩
  · exact ⟨.endInObject, rfl, rfl⟩
  · rw [List.prefix_nil.1 hrest] at hne
    exact absurd rfl hne

theorem starves_keyFirst (key : Option String) (fields : List String) :
    Starves start.read
      (compactChars (.object [("session_key", keyJson key), ("fields", strings fields)])) := by
  rw [compactChars_pair]
  refine starves_step objectOpened rfl rfl rfl (starves_keyEntry (m := {}) rfl rfl rfl rfl ?_)
  refine starves_step (nameStart { sessionKey := some key }) rfl rfl rfl ?_
  exact starves_fieldsEntry rfl rfl rfl rfl (starves_brace _)

theorem starves_fieldsFirst (key : Option String) (fields : List String) :
    Starves start.read
      (compactChars (.object [("fields", strings fields), ("session_key", keyJson key)])) := by
  rw [compactChars_pair]
  refine starves_step objectOpened rfl rfl rfl (starves_fieldsEntry (m := {}) rfl rfl rfl rfl ?_)
  refine starves_step (nameStart { fields := some fields }) rfl rfl rfl ?_
  exact starves_keyEntry rfl rfl rfl rfl (starves_brace _)

/-- The key of an array is read in the same way behind the bracket as anywhere. -/
theorem starves_listOpened {key : Option String} (h : Starves (listKeyRead key).read cs) :
    Starves listOpened.read (compactChars (keyJson key) ++ cs) := by
  have hkey : Starves (listKey .start).read (compactChars (keyJson key) ++ cs) :=
    (KeyReader.starves_key h).congr (read_listKey .start)
  cases key with
  | none =>
    have hread (rest : List Char) :
        listOpened.read ('n' :: rest) = (listKey .start).read ('n' :: rest) := read_congr rfl rest
    exact .of_cons rfl rfl hread hkey
  | some s =>
    have hread (rest : List Char) :
        listOpened.read ('"' :: rest) = (listKey .start).read ('"' :: rest) := read_congr rfl rest
    rw [keyJson, compactChars, quoted_append] at hkey ⊢
    exact .of_cons rfl rfl hread hkey

/-- The fields of an array are read in the same way behind the comma as anywhere. -/
theorem starves_listComma (key : Option String) {fields : List String}
    (h : Starves (listFieldsRead ⟨key, fields⟩).read cs) :
    Starves (listComma key).read (compactChars (strings fields) ++ cs) := by
  have hfields : Starves (listFields key .start).read (compactChars (strings fields) ++ cs) :=
    (TextList.starves_strings h).congr (read_listFields key .start)
  have hread (rest : List Char) :
      (listComma key).read ('[' :: rest) = (listFields key .start).read ('[' :: rest) :=
    read_congr rfl rest
  rw [strings, compactChars, List.append_assoc, List.cons_append] at hfields ⊢
  exact .of_cons rfl rfl hread hfields

theorem starves_list (key : Option String) (fields : List String) :
    Starves start.read (compactChars (.array [keyJson key, strings fields])) := by
  have htext : compactChars (.array [keyJson key, strings fields]) =
      '[' :: (compactChars (keyJson key) ++ ',' :: (compactChars (strings fields) ++ [']'])) := by
    simp [compactChars, compactItems]
  rw [htext]
  refine starves_step listOpened rfl rfl rfl (starves_listOpened ?_)
  refine starves_step (listComma key) rfl rfl rfl (starves_listComma key ?_)
  exact starves_step (complete ⟨key, fields⟩) rfl rfl rfl starves_nil

end Reader

/-- A request that is written in full and breaks off, be it before its first character, is refused
for ending too early; only the whole text is accepted. -/
theorem ofJsonText_broken_off {r : Request} {v : Json} (hv : v ∈ r.forms) :
    ofJsonText v.compact = .ok r ∧
      ∀ p, p <+: v.compact.toList → p ≠ v.compact.toList →
        ∃ e, ofJsonText (String.ofList p) = .error e ∧ e.category = .truncated := by
  refine ⟨ofJsonText_of_mem_forms hv, fun p => ?_⟩
  rw [compact, String.toList_ofList, ofJsonText_eq_read, String.toList_ofList]
  simp only [forms, toJson, List.mem_cons, List.not_mem_nil, or_false] at hv
  rcases hv with rfl | rfl | rfl
  · exact Reader.starves_keyFirst r.sessionKey r.fields p
  · exact Reader.starves_fieldsFirst r.sessionKey r.fields p
  · exact Reader.starves_list r.sessionKey r.fields p

/-- An array whose key needs escapes, broken off inside the second one. -/
theorem ofJsonText_broken_off_in_escape :
    (Json.array [.string "\"\x01", strings ["a"]]) ∈ forms ⟨some "\"\x01", ["a"]⟩ ∧
      "[\"\\\"\\u00".toList <+: (Json.array [.string "\"\x01", strings ["a"]]).compact.toList ∧
      "[\"\\\"\\u00".toList ≠ (Json.array [.string "\"\x01", strings ["a"]]).compact.toList ∧
      ∃ e, ofJsonText (String.ofList "[\"\\\"\\u00".toList) = .error e ∧
        e.category = .truncated := by
  have hform : (Json.array [.string "\"\x01", strings ["a"]]) ∈
      forms ⟨some "\"\x01", ["a"]⟩ := by
    simp [forms, keyJson]
  have hprefix : "[\"\\\"\\u00".toList <+:
      (Json.array [.string "\"\x01", strings ["a"]]).compact.toList := by
    decide +kernel
  have hproper : "[\"\\\"\\u00".toList ≠
      (Json.array [.string "\"\x01", strings ["a"]]).compact.toList := by
    decide +kernel
  exact ⟨hform, hprefix, hproper, (ofJsonText_broken_off hform).2 _ hprefix hproper⟩

end FieldPipeline.Request
