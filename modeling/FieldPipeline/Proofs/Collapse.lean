import FieldPipeline.Proofs.Rendering
import Mathlib.Data.List.Induction
import Mathlib.Data.List.Sort

/-!
# Repeated names

Where entries repeat a name, a record that is built from them has it once: at the place of its first
entry and with the value of its last one. Only one record is like that. Values can be rewritten
before the entries are collapsed or after, so an assignment may be collapsed before it becomes a
document.
-/

namespace FieldPipeline

namespace Record

universe u v w

variable {κ : Type u} {α : Type v} {β : Type w}

@[simp] theorem names_append (first second : Record κ α) :
    names (first ++ second) = names first ++ names second :=
  List.map_append

@[simp] theorem names_map (f : α → β) (r : Record κ α) :
    names (r.map fun entry => (entry.1, f entry.2)) = names r := by
  simp [names]

variable [DecidableEq κ]

theorem get?_map (f : α → β) (r : Record κ α) (name : κ) :
    get? (r.map fun entry => (entry.1, f entry.2)) name = (get? r name).map f := by
  induction r with
  | nil => rfl
  | cons entry r ih =>
    rw [List.map_cons, get?_cons, get?_cons, ih]
    split <;> rfl

theorem get?_eq_none_of_notMem {r : Record κ α} {name : κ} (h : name ∉ names r) :
    get? r name = none := by
  induction r with
  | nil => rfl
  | cons entry r ih =>
    have hne : entry.1 ≠ name := fun hname => h (hname ▸ List.mem_cons_self)
    rw [get?_cons, if_neg hne, ih fun hmem => h (List.mem_cons_of_mem _ hmem)]

/-- Records without repeated names are equal if they have the same names in the same order and the
same values under them. -/
theorem eq_of_get?_eq {r s : Record κ α} (hnames : names r = names s) (hnodup : (names r).Nodup)
    (h : ∀ name, get? r name = get? s name) : r = s := by
  induction r generalizing s with
  | nil => exact (List.map_eq_nil_iff.1 hnames.symm).symm
  | cons entry r ih =>
    cases s with
    | nil => cases hnames
    | cons other s =>
      obtain ⟨n, a⟩ := entry
      obtain ⟨m, b⟩ := other
      obtain ⟨hhead, htail⟩ : n = m ∧ names r = names s := List.cons.inj hnames
      obtain ⟨hnew, hnodup⟩ : n ∉ names r ∧ (names r).Nodup := List.nodup_cons.1 hnodup
      subst hhead
      have hvalue : a = b := by simpa [get?_cons] using h n
      have hrest : r = s := by
        refine ih htail hnodup fun name => ?_
        by_cases hname : n = name
        · subst hname
          rw [get?_eq_none_of_notMem hnew, get?_eq_none_of_notMem (htail ▸ hnew)]
        · simpa [get?_cons, hname] using h name
      rw [hvalue, hrest]

/-- A record of the names of some entries, each once, in the order of their first entries and with
the values of their last ones. -/
structure Collapses (entries : List (κ × α)) (r : Record κ α) : Prop where
  nodup : (names r).Nodup
  mem_names_iff : ∀ name, name ∈ names r ↔ name ∈ names entries
  ordered : (names r).Pairwise fun n m => (names entries).idxOf n < (names entries).idxOf m
  get?_eq : ∀ name, get? r name = get? entries.reverse name

namespace Collapses

variable {entries : List (κ × α)} {r s : Record κ α}

/-- One more entry moves no name: a new one comes after all others. -/
theorem concat (h : Collapses entries r) (name : κ) (a : α) :
    Collapses (entries ++ [(name, a)]) (put r name a) where
  nodup := nodup_names_put h.nodup name a
  mem_names_iff other := by
    have hmem := h.mem_names_iff other
    have hlast : names [(name, a)] = [name] := rfl
    rw [names_put, names_append, hlast, List.mem_append, List.mem_singleton, ← hmem]
    split
    · rename_i hold
      exact ⟨.inl, fun hor => hor.elim id fun heq => heq ▸ hold⟩
    · rw [List.mem_append, List.mem_singleton]
  ordered := by
    have hkept : (names r).Pairwise fun n m =>
        (names (entries ++ [(name, a)])).idxOf n < (names (entries ++ [(name, a)])).idxOf m := by
      refine h.ordered.imp_of_mem fun {n m} hn hm hlt => ?_
      rwa [names_append, List.idxOf_append, if_pos ((h.mem_names_iff n).1 hn), List.idxOf_append,
        if_pos ((h.mem_names_iff m).1 hm)]
    rw [names_put]
    split
    · exact hkept
    · rename_i hnew
      refine List.pairwise_append.2 ⟨hkept, List.pairwise_singleton _ _, fun n hn m hm => ?_⟩
      obtain rfl := List.mem_singleton.1 hm
      have hold := (h.mem_names_iff n).1 hn
      rw [names_append, List.idxOf_append, if_pos hold, List.idxOf_append,
        if_neg (mt (h.mem_names_iff m).2 hnew)]
      exact Nat.lt_add_left _ (List.idxOf_lt_length_of_mem hold)
  get?_eq other := by
    rw [List.reverse_append, List.reverse_singleton, List.singleton_append, get?_cons, ← h.get?_eq]
    by_cases hname : name = other
    · subst hname
      rw [get?_put_self, if_pos rfl]
    · rw [get?_put_of_ne r a hname, if_neg hname]

theorem map (h : Collapses entries r) (f : α → β) :
    Collapses (entries.map fun entry => (entry.1, f entry.2))
      (r.map fun entry => (entry.1, f entry.2)) where
  nodup := by simpa using h.nodup
  mem_names_iff := by simpa using h.mem_names_iff
  ordered := by simpa using h.ordered
  get?_eq name := by rw [← List.map_reverse, get?_map, get?_map, h.get?_eq]

/-- Entries collapse in one way only. -/
theorem unique (h : Collapses entries r) (h' : Collapses entries s) : r = s := by
  have hnames : names r = names s := by
    have : Std.Irrefl fun n m => (names entries).idxOf n < (names entries).idxOf m :=
      ⟨fun _ => Nat.lt_irrefl _⟩
    have : Std.Antisymm fun n m => (names entries).idxOf n < (names entries).idxOf m :=
      ⟨fun _ _ hlt hgt => absurd hgt hlt.asymm⟩
    exact h.ordered.eq_of_mem_iff h'.ordered fun name =>
      (h.mem_names_iff name).trans (h'.mem_names_iff name).symm
  exact eq_of_get?_eq hnames h.nodup fun name => (h.get?_eq name).trans (h'.get?_eq name).symm

end Collapses

/-- A record that is built entry by entry collapses the entries. -/
theorem collapses_ofEntries (entries : List (κ × α)) : Collapses entries (ofEntries entries) := by
  induction entries using List.reverseRecOn with
  | nil => exact ⟨List.nodup_nil, fun _ => Iff.rfl, List.Pairwise.nil, fun _ => rfl⟩
  | append_singleton entries entry ih =>
    rw [ofEntries, List.foldl_append]
    exact ih.concat entry.1 entry.2

end Record

namespace Stage

theorem collapses_expressions (fields : List (String × Operand)) :
    Record.Collapses (fields.map fun field => (field.1, field.2.expression)) (expressions fields) :=
  Record.collapses_ofEntries _

theorem expressions_of_collapses {fields collapsed : List (String × Operand)}
    (h : Record.Collapses fields collapsed) : expressions collapsed = expressions fields := by
  rw [expressions_of_nodup h.nodup]
  exact (h.map Operand.expression).unique (collapses_expressions fields)

/-- The document of an assignment has a member for each name that is assigned, in the order in which
the names first occur, with the text of the operand that the name is given last. It is the same
document if the repeated names are collapsed beforehand. -/
theorem document_assign_collapses (fields : List (String × Operand)) :
    (∃ members : Record String String,
      Record.Collapses (fields.map fun field => (field.1, field.2.expression)) members ∧
      (assign fields).document =
        .object [("$addFields",
          .object (members.map fun member => (member.1, .string member.2)))]) ∧
    (∃ collapsed, Record.Collapses fields collapsed) ∧
    ∀ collapsed, Record.Collapses fields collapsed →
      (assign collapsed).document = (assign fields).document := by
  refine ⟨⟨expressions fields, collapses_expressions fields, rfl⟩,
    ⟨_, Record.collapses_ofEntries fields⟩, fun collapsed h => ?_⟩
  rw [document, document, expressions_of_collapses h]

/-- Two names that come back in turns, one of them the empty text. -/
theorem document_assign_collapses_in_turns :
    Record.Collapses [("b", Operand.whole), ("", .field "x"), ("b", .field "y"),
        ("", .path ⟨"k", ["z"]⟩), ("b", .field "w")]
        [("b", .field "w"), ("", .path ⟨"k", ["z"]⟩)] ∧
      (assign [("b", .field "w"), ("", .path ⟨"k", ["z"]⟩)]).document =
        (assign [("b", .whole), ("", .field "x"), ("b", .field "y"), ("", .path ⟨"k", ["z"]⟩),
          ("b", .field "w")]).document ∧
      (assign [("b", .field "w"), ("", .path ⟨"k", ["z"]⟩)]).document =
        .object [("$addFields", .object [("b", .string "$w"), ("", .string "$k.z")])] := by
  have hcollapses : Record.Collapses [("b", Operand.whole), ("", .field "x"), ("b", .field "y"),
      ("", .path ⟨"k", ["z"]⟩), ("b", .field "w")]
      [("b", .field "w"), ("", .path ⟨"k", ["z"]⟩)] :=
    Record.collapses_ofEntries _
  exact ⟨hcollapses, (document_assign_collapses _).2.2 _ hcollapses, rfl⟩

end Stage

end FieldPipeline
