import FieldPipeline.Json.ReadError
import Mathlib.Data.List.Basic

/-!
# Messages that end in a position

Only a message that ends in the words of a position is cut. The words of a position have no
punctuation, so behind a dot or a colon they stand as a whole.
-/

namespace FieldPipeline.Json

def Digits (cs : List Char) : Prop :=
  cs ≠ [] ∧ ∀ c ∈ cs, c.isDigit = true

def positionWords (line column : List Char) : List Char :=
  " at line ".toList ++ (line ++ (" column ".toList ++ column))

/-- The text ends in the words for a line and a column in decimal. -/
def EndsInPosition (text : String) : Prop :=
  ∃ before line column, Digits line ∧ Digits column ∧
    text.toList = before ++ positionWords line column

theorem dropNumber?_eq_some {cs rest : List Char} (h : dropNumber? cs = some rest) :
    ∃ digits, Digits digits ∧ cs = digits ++ rest := by
  rw [dropNumber?] at h
  split at h
  · rename_i hdigits
    obtain rfl := Option.some.inj h
    refine ⟨cs.takeWhile Char.isDigit, ⟨hdigits.1, fun c hc => ?_⟩, ?_⟩
    · exact List.all_eq_true.1 List.all_takeWhile c hc
    · exact List.takeWhile_append_dropWhile.symm
  · cases h

theorem dropWord?_eq_some {word cs rest : List Char} (h : dropWord? word cs = some rest) :
    cs = word ++ rest := by
  induction word generalizing cs with
  | nil => exact Option.some.inj h
  | cons c word ih =>
    cases cs with
    | nil => cases h
    | cons d cs =>
      rw [dropWord?] at h
      split at h
      · rename_i hcd
        rw [hcd, ih h, List.cons_append]
      · cases h

theorem Digits.reverse {cs : List Char} (h : Digits cs) : Digits cs.reverse :=
  ⟨fun hnil => h.1 (List.reverse_eq_nil_iff.1 hnil), fun c hc => h.2 c (List.mem_reverse.1 hc)⟩

/-- A message is only changed if it ends in a position. -/
theorem withoutPosition_eq_self {message : String} (h : ¬ EndsInPosition message) :
    withoutPosition message = message := by
  rw [withoutPosition]
  simp only [Option.bind_eq_bind]
  cases hcolumn : dropNumber? message.toList.reverse with
  | none => rfl
  | some beforeColumn =>
    rw [Option.bind_some]
    cases hsecond : dropWord? " column ".toList.reverse beforeColumn with
    | none => rfl
    | some beforeSecond =>
      rw [Option.bind_some]
      cases hline : dropNumber? beforeSecond with
      | none => rfl
      | some beforeLine =>
        rw [Option.bind_some]
        cases hfirst : dropWord? " at line ".toList.reverse beforeLine with
        | none => rfl
        | some rest =>
          obtain ⟨column, hcolumnDigits, hmessage⟩ := dropNumber?_eq_some hcolumn
          obtain ⟨line, hlineDigits, hbeforeSecond⟩ := dropNumber?_eq_some hline
          have hbeforeColumn := dropWord?_eq_some hsecond
          have hbeforeLine := dropWord?_eq_some hfirst
          subst hbeforeLine hbeforeSecond hbeforeColumn
          have hend : message.toList =
              rest.reverse ++ positionWords line.reverse column.reverse := by
            have hforward (first second : List Char) :
                (column ++ (second.reverse ++ (line ++ (first.reverse ++ rest)))).reverse =
                  rest.reverse ++ (first ++ (line.reverse ++ (second ++ column.reverse))) := by
              simp
            calc message.toList = message.toList.reverse.reverse := message.toList.reverse_reverse.symm
              _ = _ := congrArg List.reverse hmessage
              _ = _ := hforward " at line ".toList " column ".toList
          exact absurd ⟨rest.reverse, line.reverse, column.reverse, hlineDigits.reverse,
            hcolumnDigits.reverse, hend⟩ h

theorem notMem_positionWords {c : Char} (hdigit : c.isDigit = false)
    (hfirst : c ∉ " at line ".toList) (hsecond : c ∉ " column ".toList) {line column : List Char}
    (hline : Digits line) (hcolumn : Digits column) : c ∉ positionWords line column := by
  have hnotDigits {digits : List Char} (h : Digits digits) : c ∉ digits := by
    intro hmem
    rw [h.2 c hmem] at hdigit
    cases hdigit
  intro hmem
  rcases List.mem_append.1 hmem with hmem | hmem
  · exact hfirst hmem
  rcases List.mem_append.1 hmem with hmem | hmem
  · exact hnotDigits hline hmem
  rcases List.mem_append.1 hmem with hmem | hmem
  · exact hsecond hmem
  · exact hnotDigits hcolumn hmem

theorem EndsInPosition.exists_last_digit {text : String} (h : EndsInPosition text) :
    ∃ c ∈ text.toList.getLast?, c.isDigit = true := by
  obtain ⟨before, line, column, -, ⟨hne, hdigits⟩, htext⟩ := h
  have hlast : column.getLast hne ∈ column.getLast? := List.getLast?_eq_getLast_of_ne_nil hne
  have hwords : column.getLast hne ∈ (positionWords line column).getLast? :=
    List.mem_getLast?_append_of_mem_getLast? (List.mem_getLast?_append_of_mem_getLast?
      (List.mem_getLast?_append_of_mem_getLast? hlast))
  refine ⟨column.getLast hne, ?_, hdigits _ (List.getLast_mem hne)⟩
  rw [htext]
  exact List.mem_getLast?_append_of_mem_getLast? hwords

/-- Words without a character stand behind its last place. -/
theorem exists_eq_append_of_notMem {c : Char} {front back before words : List Char}
    (h : front ++ c :: back = before ++ words) (hc : c ∉ words) :
    ∃ middle, back = middle ++ words := by
  rcases List.append_eq_append_iff.1 h with ⟨middle, -, hback⟩ | ⟨middle, -, hwords⟩
  · cases middle with
    | nil =>
      rw [List.nil_append] at hback
      exact absurd (hback ▸ List.mem_cons_self) hc
    | cons d middle => exact ⟨middle, (List.cons.inj hback).2⟩
  · exact absurd (hwords ▸ List.mem_append_right middle List.mem_cons_self) hc

end FieldPipeline.Json
