import FieldPipeline.Proofs.Dots
import FieldPipeline.Program
import Mathlib.Data.List.DropRight

/-!
# A file's own name

What stands behind the last slash of a path is the file's own name, and the format of a request file
is read off that name alone. A path that ends in a slash or in a part of dots leads to a directory,
so there is no request to read under it.
-/

namespace FieldPipeline

namespace Text

variable {sep : Char}

theorem forall_mem_ne {text : List Char} (h : sep ∉ text) : ∀ c ∈ text, decide (c ≠ sep) = true := by
  intro c hc
  have hne : c ≠ sep := fun hsep => h (hsep ▸ hc)
  exact decide_eq_true hne

theorem exists_last_sep {text : List Char} (h : sep ∈ text) :
    ∃ before after, text = before ++ sep :: after ∧ sep ∉ after := by
  obtain ⟨after, before, htext, hafter⟩ := List.eq_append_cons_of_mem (List.mem_reverse.2 h)
  refine ⟨before.reverse, after.reverse, ?_, by simpa using hafter⟩
  rw [← List.reverse_reverse text, htext]
  simp

theorem reverse_append_sep (before after : List Char) :
    (before ++ sep :: after).reverse = after.reverse ++ sep :: before.reverse := by
  simp

theorem takeWhile_reverse_append_sep (before : List Char) {after : List Char} (h : sep ∉ after) :
    (before ++ sep :: after).reverse.takeWhile (· ≠ sep) = after.reverse := by
  have hall := forall_mem_ne (List.mem_reverse.not.2 h)
  rw [reverse_append_sep, List.takeWhile_append_of_pos hall]
  simp

theorem dropWhile_reverse_append_sep (before : List Char) {after : List Char} (h : sep ∉ after) :
    (before ++ sep :: after).reverse.dropWhile (· ≠ sep) = sep :: before.reverse := by
  have hall := forall_mem_ne (List.mem_reverse.not.2 h)
  rw [reverse_append_sep, List.dropWhile_append_of_pos hall]
  simp

/-- The last piece stands behind the last separator. -/
theorem getLast?_pieces_eq_rtakeWhile (text : List Char) :
    (pieces sep text).getLast? = some (text.rtakeWhile (· ≠ sep)) := by
  by_cases h : sep ∈ text
  · obtain ⟨before, after, rfl, hafter⟩ := exists_last_sep h
    rw [getLast?_pieces before hafter, List.rtakeWhile, takeWhile_reverse_append_sep before hafter,
      List.reverse_reverse]
  · rw [pieces_eq_singleton h, List.rtakeWhile_eq_self_iff.2 (forall_mem_ne h),
      List.getLast?_singleton]

end Text

namespace FileName

def own (path : String) : String :=
  String.ofList (path.toList.rtakeWhile (· ≠ '/'))

/-- A stem that is not empty and one of the two endings of YAML files behind it. -/
def NamesYaml (name : String) : Prop :=
  ∃ stem, stem ≠ "" ∧ (name = stem ++ ".yaml" ∨ name = stem ++ ".yml")

theorem own_append_slash (directory : String) {name : String} (h : '/' ∉ name.toList) :
    own (directory ++ "/" ++ name) = name := by
  have htext : (directory ++ "/" ++ name).toList = directory.toList ++ '/' :: name.toList := by simp
  rw [own, htext, List.rtakeWhile, Text.takeWhile_reverse_append_sep _ h, List.reverse_reverse,
    String.ofList_toList]

theorem own_of_no_slash {name : String} (h : '/' ∉ name.toList) : own name = name := by
  rw [own, List.rtakeWhile_eq_self_iff.2 (Text.forall_mem_ne h), String.ofList_toList]

theorem exists_parts_eq (path : String) : ∃ init, FileTree.parts path = init ++ [own path] := by
  have hlast : (FileTree.parts path).getLast? = some (own path) := by
    rw [FileTree.parts, List.getLast?_map, Text.getLast?_pieces_eq_rtakeWhile, Option.map_some, own]
  exact List.getLast?_eq_some_iff.1 hlast

theorem ofPath?_of_own {path : String} (h : own path ∉ ["", ".", ".."]) :
    ofPath? path = some (own path) := by
  obtain ⟨init, hparts⟩ := exists_parts_eq path
  simp only [List.mem_cons, List.not_mem_nil, or_false, not_or] at h
  obtain ⟨hempty, hdot, hdots⟩ := h
  rw [ofPath?, hparts, List.filter_append]
  simp [hempty, hdot, hdots]

theorem extension?_of_no_dot {name : String} (h : '.' ∉ name.toList) : extension? name = none := by
  have hall := Text.forall_mem_ne (List.mem_reverse.not.2 h)
  simp only [extension?, List.dropWhile_eq_nil_iff.2 hall]
  rfl

theorem extension?_append_dot (stem : String) {e : String} (h : '.' ∉ e.toList) :
    extension? (stem ++ "." ++ e) = if stem = "" then none else some e := by
  have htext : (stem ++ "." ++ e).toList = stem.toList ++ '.' :: e.toList := by simp
  simp only [extension?, htext, Text.takeWhile_reverse_append_sep _ h,
    Text.dropWhile_reverse_append_sep _ h, List.reverse_reverse, String.ofList_toList]
  simp

/-- An extension stands behind the last dot of a name, if something stands before that dot. -/
theorem extension?_eq_some_iff {name e : String} :
    extension? name = some e ↔ '.' ∉ e.toList ∧ ∃ stem, stem ≠ "" ∧ name = stem ++ "." ++ e := by
  constructor
  · intro h
    by_cases hdot : '.' ∈ name.toList
    · obtain ⟨before, after, htext, hafter⟩ := Text.exists_last_sep hdot
      have hname : name = String.ofList before ++ "." ++ String.ofList after := by
        apply String.toList_inj.1
        simp [htext]
      have hafter' : '.' ∉ (String.ofList after).toList := by rwa [String.toList_ofList]
      rw [hname, extension?_append_dot _ hafter'] at h
      by_cases hstem : String.ofList before = ""
      · rw [if_pos hstem] at h
        cases h
      · rw [if_neg hstem] at h
        obtain rfl := Option.some.inj h
        exact ⟨hafter', _, hstem, hname⟩
    · rw [extension?_of_no_dot hdot] at h
      cases h
  · rintro ⟨he, stem, hstem, rfl⟩
    rw [extension?_append_dot stem he, if_neg hstem]

theorem namesYaml_iff {name : String} :
    NamesYaml name ↔ extension? name = some "yaml" ∨ extension? name = some "yml" := by
  have hyaml (stem : String) : stem ++ ".yaml" = stem ++ "." ++ "yaml" := by
    rw [String.append_assoc]
    rfl
  have hyml (stem : String) : stem ++ ".yml" = stem ++ "." ++ "yml" := by
    rw [String.append_assoc]
    rfl
  rw [extension?_eq_some_iff, extension?_eq_some_iff, NamesYaml]
  constructor
  · rintro ⟨stem, hstem, rfl | rfl⟩
    · exact .inl ⟨by decide, stem, hstem, hyaml stem⟩
    · exact .inr ⟨by decide, stem, hstem, hyml stem⟩
  · rintro (⟨-, stem, hstem, rfl⟩ | ⟨-, stem, hstem, rfl⟩)
    · exact ⟨stem, hstem, .inl (hyaml stem).symm⟩
    · exact ⟨stem, hstem, .inr (hyml stem).symm⟩

theorem not_namesYaml_hidden : ¬ NamesYaml ".yaml" := by
  rw [namesYaml_iff]
  decide

theorem not_namesYaml_upper (stem : String) : ¬ NamesYaml (stem ++ ".YAML") := by
  have hname : stem ++ ".YAML" = stem ++ "." ++ "YAML" := by
    rw [String.append_assoc]
    rfl
  rw [namesYaml_iff, hname, extension?_append_dot stem (by decide)]
  split <;> simp

theorem isYaml_iff {path : String} (h : own path ∉ ["", ".", ".."]) :
    isYaml path = true ↔ NamesYaml (own path) := by
  rw [isYaml, ofPath?_of_own h, namesYaml_iff, Option.bind_some]
  cases hextension : extension? (own path) with
  | none => simp
  | some e => simp

/-- Whatever is read as a file has a name: a path that ends in a slash or in a part of one or two
dots leads to a directory, if it leads anywhere. -/
def ReadsNamed (files : String → Except FileFault ByteArray) : Prop :=
  ∀ path content, files path = .ok content → own path ∉ ["", ".", ".."]

end FileName

namespace FileTree

theorem Place.enter_eq_atFile {place : Place} {part : String} {content : ByteArray}
    (h : place.enter part = .ok (.atFile content)) : part ∉ ["", ".", ".."] := by
  intro hpart
  simp only [List.mem_cons, List.not_mem_nil, or_false] at hpart
  cases place with
  | atFile _ => cases h
  | outside =>
    rw [enter, if_pos hpart] at h
    cases h
  | inside entries above =>
    rcases hpart with rfl | rfl | rfl
    · cases h
    · cases h
    · cases above <;> cases h

theorem foldlM_of_read {entries : Record String FileTree} {path : String} {content : ByteArray}
    (h : read entries path = .ok content) :
    ∃ start, (parts path).foldlM Place.enter start = .ok (.atFile content) := by
  simp only [read] at h
  split at h
  · cases h
  · split at h
    · cases h
    · split at h
      · cases h
      · split at h
        · obtain rfl := Except.ok.inj h
          exact ⟨_, by assumption⟩
        · cases h
        · cases h

/-- A walk that ends at a file ends with the file's name. -/
theorem readsNamed_read (entries : Record String FileTree) :
    FileName.ReadsNamed (read entries) := by
  intro path content h
  obtain ⟨start, hwalk⟩ := foldlM_of_read h
  obtain ⟨init, hparts⟩ := FileName.exists_parts_eq path
  rw [hparts, List.foldlM_append] at hwalk
  cases hinit : init.foldlM Place.enter start with
  | error fault =>
    rw [hinit] at hwalk
    cases hwalk
  | ok place =>
    rw [hinit] at hwalk
    have hlast : [FileName.own path].foldlM Place.enter place = .ok (.atFile content) := hwalk
    rw [List.foldlM_cons] at hlast
    exact Place.enter_eq_atFile (by simpa using hlast)

end FileTree

namespace Request

open FileName

theorem ofFile_of_isYaml {path text : String} {content : ByteArray} (h : isYaml path = true)
    (htext : String.fromUTF8? content = some text) :
    ofFile path (.ok content) = (ofYamlText text).elim (.error .badYaml) .ok := by
  simp only [ofFile, htext, Request.ofText, if_pos h]
  cases ofYamlText text <;> rfl

theorem ofFile_of_not_isYaml {path text : String} {content : ByteArray} (h : isYaml path = false)
    (htext : String.fromUTF8? content = some text) :
    ofFile path (.ok content) = (ofJsonText text).mapError .badJson := by
  simp only [ofFile, htext, Request.ofText, h, Bool.false_eq_true, if_false]
  cases ofJsonText text <;> rfl

theorem ofFile_of_readsNamed {files : String → Except FileFault ByteArray}
    (hfiles : ReadsNamed files) {path text : String} {content : ByteArray}
    (hread : files path = .ok content) (htext : String.fromUTF8? content = some text) :
    (NamesYaml (own path) →
        ofFile path (files path) = (ofYamlText text).elim (.error .badYaml) .ok) ∧
      (¬ NamesYaml (own path) →
        ofFile path (files path) = (ofJsonText text).mapError .badJson) := by
  rw [← isYaml_iff (hfiles path content hread), hread, Bool.not_eq_true]
  exact ⟨fun h => ofFile_of_isYaml h htext, fun h => ofFile_of_not_isYaml h htext⟩

/-- Whoever reads files by their paths finds them under named paths only, as the walk through a file
tree does. A file with text is then read as YAML exactly if its own name is a stem that is not empty
and `.yaml` or `.yml` behind it, and as JSON otherwise. Files with the same own name and the same
content are read alike, whatever stands before the last slash. -/
theorem ofFile_by_own_name :
    (∀ entries, ReadsNamed (FileTree.read entries)) ∧
    (∀ files, ReadsNamed files → ∀ path content text, files path = .ok content →
      String.fromUTF8? content = some text →
        (isYaml path = true ↔ NamesYaml (own path)) ∧
        (NamesYaml (own path) →
          ofFile path (files path) = (ofYamlText text).elim (.error .badYaml) .ok) ∧
        (¬ NamesYaml (own path) →
          ofFile path (files path) = (ofJsonText text).mapError .badJson) ∧
        ∀ path', files path' = .ok content → own path' = own path →
          ofFile path' (files path') = ofFile path (files path)) ∧
    (∀ directory name, '/' ∉ name.toList →
      own (directory ++ "/" ++ name) = name ∧ own name = name) ∧
    ¬ NamesYaml ".yaml" ∧ (∀ stem, ¬ NamesYaml (stem ++ ".YAML")) ∧ NamesYaml "..yaml" := by
  refine ⟨FileTree.readsNamed_read, ?_, ?_, not_namesYaml_hidden, not_namesYaml_upper, ?_⟩
  · intro files hfiles path content text hread htext
    obtain ⟨hyaml, hjson⟩ := ofFile_of_readsNamed hfiles hread htext
    refine ⟨isYaml_iff (hfiles path content hread), hyaml, hjson, fun path' hread' hown => ?_⟩
    obtain ⟨hyaml', hjson'⟩ := ofFile_of_readsNamed hfiles hread' htext
    by_cases hname : NamesYaml (own path)
    · rw [hyaml hname, hyaml' (hown ▸ hname)]
    · rw [hjson hname, hjson' (hown ▸ hname)]
  · exact fun directory name h => ⟨own_append_slash directory h, own_of_no_slash h⟩
  · exact ⟨".", by decide, .inl rfl⟩

/-- A directory that is named like a YAML file, and in it the two hidden names and a name in capital
letters. -/
def likeYaml : Record String FileTree :=
  let content := "[null,[\"a\"]]".toUTF8
  [("d.yaml", .directory [(".yaml", .file content), ("..yaml", .file content),
    ("b.yml.YAML", .file content)])]

theorem ofFile_by_own_name_in_yaml_directory :
    FileTree.read likeYaml "d.yaml/.yaml" = .ok "[null,[\"a\"]]".toUTF8 ∧
      FileTree.read likeYaml "./d.yaml/..yaml" = .ok "[null,[\"a\"]]".toUTF8 ∧
      FileTree.read likeYaml "d.yaml//b.yml.YAML" = .ok "[null,[\"a\"]]".toUTF8 ∧
      String.fromUTF8? "[null,[\"a\"]]".toUTF8 = some "[null,[\"a\"]]" ∧
      ofFile "d.yaml/.yaml" (FileTree.read likeYaml "d.yaml/.yaml") = .ok ⟨none, ["a"]⟩ ∧
      ofFile "./d.yaml/..yaml" (FileTree.read likeYaml "./d.yaml/..yaml") =
        (ofYamlText "[null,[\"a\"]]").elim (.error .badYaml) .ok ∧
      ofFile "d.yaml//b.yml.YAML" (FileTree.read likeYaml "d.yaml//b.yml.YAML") =
        .ok ⟨none, ["a"]⟩ := by
  have htext : String.fromUTF8? "[null,[\"a\"]]".toUTF8 = some "[null,[\"a\"]]" :=
    dif_pos "[null,[\"a\"]]".isValidUTF8
  obtain ⟨htrees, hread, -, hhidden, hupper, hdots⟩ := ofFile_by_own_name
  obtain ⟨-, -, hjson, -⟩ := hread _ (htrees likeYaml) "d.yaml/.yaml" _ _ rfl htext
  obtain ⟨-, hyaml, -, -⟩ := hread _ (htrees likeYaml) "./d.yaml/..yaml" _ _ rfl htext
  obtain ⟨-, -, hjson', -⟩ := hread _ (htrees likeYaml) "d.yaml//b.yml.YAML" _ _ rfl htext
  exact ⟨rfl, rfl, rfl, htext, hjson hhidden, hyaml hdots, hjson' (hupper "b.yml")⟩

end Request

end FieldPipeline
