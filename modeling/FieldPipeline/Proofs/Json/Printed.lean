import FieldPipeline.Proofs.Json.Written

/-!
# Printed texts

What the two printers make of a value is a text that writes it.
-/

namespace FieldPipeline.Json

theorem blanks_nil : Blanks [] := by
  intro c hc
  cases hc

theorem blanks_newLine (depth : Nat) : Blanks (newLine depth) := by
  intro c hc
  rcases List.mem_cons.1 hc with rfl | hc
  · rfl
  · rw [List.eq_of_mem_replicate hc]
    rfl

theorem Bare.written {v : Json} {cs : List Char} (hv : Bare v cs) {before after : List Char}
    (hbefore : Blanks before) (hafter : Blanks after) : Written v (before ++ cs ++ after) := by
  rw [List.append_assoc]
  exact .mk hbefore hv hafter

theorem Bare.written_self {v : Json} {cs : List Char} (hv : Bare v cs) : Written v cs := by
  have hwritten : Written v ([] ++ cs ++ []) := hv.written blanks_nil blanks_nil
  rwa [List.nil_append, List.append_nil] at hwritten

mutual

theorem bare_compactChars : ∀ v, Bare v (compactChars v)
  | .null => .null
  | .boolean true => .yes
  | .boolean false => .no
  | .integer n => .integer n
  | .string s => .string s
  | .array [] => .emptyArray blanks_nil
  | .array (v :: vs) => .array (writtenItems_compactItems (v :: vs) (List.cons_ne_nil v vs))
  | .object [] => .emptyObject blanks_nil
  | .object (member :: members) =>
    .object (writtenMembers_compactMembers (member :: members) (List.cons_ne_nil member members))

theorem writtenItems_compactItems : ∀ vs, vs ≠ [] → WrittenItems vs (compactItems vs)
  | [], h => absurd rfl h
  | [v], _ => .last (bare_compactChars v).written_self
  | v :: w :: vs, _ =>
    .more (bare_compactChars v).written_self
      (writtenItems_compactItems (w :: vs) (List.cons_ne_nil w vs))

theorem writtenMembers_compactMembers : ∀ members, members ≠ [] →
    WrittenMembers members (compactMembers members)
  | [], h => absurd rfl h
  | [(_, v)], _ => .last blanks_nil blanks_nil (bare_compactChars v).written_self
  | (name, v) :: member :: members, _ => by
    have hmembers := writtenMembers_compactMembers (member :: members)
      (List.cons_ne_nil member members)
    have hv : Written v (compactChars v) := (bare_compactChars v).written_self
    have htext : compactMembers ((name, v) :: member :: members) =
        [] ++ (quoted name ++ ([] ++ ':' ::
          (compactChars v ++ ',' :: compactMembers (member :: members)))) := by
      simp [compactMembers]
    rw [htext]
    exact .more blanks_nil blanks_nil hv hmembers

end

mutual

theorem bare_indentedChars : ∀ depth v, Bare v (indentedChars depth v)
  | _, .null => .null
  | _, .boolean true => .yes
  | _, .boolean false => .no
  | _, .integer n => .integer n
  | _, .string s => .string s
  | _, .array [] => .emptyArray blanks_nil
  | depth, .array (v :: vs) =>
    .array (writtenItems_indentedItems (depth + 1) (v :: vs) (List.cons_ne_nil v vs)
      (blanks_newLine depth))
  | _, .object [] => .emptyObject blanks_nil
  | depth, .object (member :: members) =>
    .object (writtenMembers_indentedMembers (depth + 1) (member :: members)
      (List.cons_ne_nil member members) (blanks_newLine depth))

theorem writtenItems_indentedItems : ∀ depth vs, vs ≠ [] → ∀ {blanks}, Blanks blanks →
    WrittenItems vs (indentedItems depth vs ++ blanks)
  | _, [], h, _, _ => absurd rfl h
  | depth, [v], _, _, hblanks =>
    .last ((bare_indentedChars depth v).written (blanks_newLine depth) hblanks)
  | depth, v :: w :: vs, _, blanks, hblanks => by
    have hitems := writtenItems_indentedItems depth (w :: vs) (List.cons_ne_nil w vs) hblanks
    have hv : Written v (newLine depth ++ indentedChars depth v ++ []) :=
      (bare_indentedChars depth v).written (blanks_newLine depth) blanks_nil
    have htext : indentedItems depth (v :: w :: vs) ++ blanks =
        newLine depth ++ indentedChars depth v ++ [] ++
          ',' :: (indentedItems depth (w :: vs) ++ blanks) := by
      simp [indentedItems]
    rw [htext]
    exact .more hv hitems

theorem writtenMembers_indentedMembers : ∀ depth members, members ≠ [] → ∀ {blanks},
    Blanks blanks → WrittenMembers members (indentedMembers depth members ++ blanks)
  | _, [], h, _, _ => absurd rfl h
  | depth, [(name, v)], _, blanks, hblanks => by
    have hv : Written v ([' '] ++ indentedChars depth v ++ blanks) :=
      (bare_indentedChars depth v).written (by decide) hblanks
    have htext : indentedMembers depth [(name, v)] ++ blanks =
        newLine depth ++ (quoted name ++ ([] ++ ':' ::
          ([' '] ++ indentedChars depth v ++ blanks))) := by
      simp [indentedMembers]
    rw [htext]
    exact .last (blanks_newLine depth) blanks_nil hv
  | depth, (name, v) :: member :: members, _, blanks, hblanks => by
    have hmembers := writtenMembers_indentedMembers depth (member :: members)
      (List.cons_ne_nil member members) hblanks
    have hv : Written v ([' '] ++ indentedChars depth v ++ []) :=
      (bare_indentedChars depth v).written (by decide) blanks_nil
    have htext : indentedMembers depth ((name, v) :: member :: members) ++ blanks =
        newLine depth ++ (quoted name ++ ([] ++ ':' :: ([' '] ++ indentedChars depth v ++ [] ++
          ',' :: (indentedMembers depth (member :: members) ++ blanks)))) := by
      simp [indentedMembers]
    rw [htext]
    exact .more (blanks_newLine depth) blanks_nil hv hmembers

end

/-- The compact text writes the value. -/
theorem written_compact (v : Json) : Written v (compact v).toList := by
  rw [compact, String.toList_ofList]
  exact (bare_compactChars v).written_self

/-- The indented text writes the value. -/
theorem written_indented (v : Json) : Written v (indented v).toList := by
  rw [indented, String.toList_ofList]
  exact (bare_indentedChars 0 v).written_self

end FieldPipeline.Json
