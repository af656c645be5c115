import FieldPipeline.Program
import FieldPipeline.Proofs.Request.Settled

/-!
# All or nothing

A run either succeeds in everything and prints the pipeline alone, or prints the message of the
first thing that failed. What it is asked to do comes from the first argument and two variables, and
of the files it sees the named one only. What the readers of JSON and YAML add to the message of a
text that they refuse is a function of the path and the content, and everything holds whatever it
is.
-/

namespace FieldPipeline.Program

/-- What the reader of the named file says of its content. -/
def said (words : String → ByteArray → String) (files : String → Except FileFault ByteArray)
    (args : List String) (env : String → Option String) : String :=
  match Invocation.ofProcess args env with
  | .ok invocation =>
    match files invocation.requestPath with
    | .ok content => words invocation.requestPath content
    | .error _ => ""
  | .error _ => ""

/-- The outcome of a run where files are looked up by their paths and their readers have `words` for
what they refuse. -/
def run (words : String → ByteArray → String) (files : String → Except FileFault ByteArray)
    (args : List String) (env : String → Option String) : Outcome :=
  outcome (Id.run (result (m := Id) files args env)) (said words files args env)

variable {words : String → ByteArray → String} {files files' : String → Except FileFault ByteArray}
  {args : List String} {env env' : String → Option String}

def Compiles (files : String → Except FileFault ByteArray) (args : List String)
    (env : String → Option String) (pipeline : Pipeline Stage) : Prop :=
  ∃ invocation request, Invocation.ofProcess args env = .ok invocation ∧
    Request.ofFile invocation.requestPath (files invocation.requestPath) = .ok request ∧
    (request.toPipeline ⟨0⟩).1 = .ok pipeline

/-- The first thing that fails, and how. -/
inductive Fails (files : String → Except FileFault ByteArray) (args : List String)
    (env : String → Option String) : Failure → Prop
  | naming {failure} : Invocation.ofProcess args env = .error failure → Fails files args env failure
  | reading {invocation failure} : Invocation.ofProcess args env = .ok invocation →
      Request.ofFile invocation.requestPath (files invocation.requestPath) = .error failure →
      Fails files args env failure
  | compiling {invocation request failure} : Invocation.ofProcess args env = .ok invocation →
      Request.ofFile invocation.requestPath (files invocation.requestPath) = .ok request →
      (request.toPipeline ⟨0⟩).1 = .error failure → Fails files args env failure

theorem compiles_or_fails (files : String → Except FileFault ByteArray) (args : List String)
    (env : String → Option String) :
    (∃ pipeline, Compiles files args env pipeline) ∨ ∃ failure, Fails files args env failure := by
  cases hnamed : Invocation.ofProcess args env with
  | error failure => exact .inr ⟨failure, .naming hnamed⟩
  | ok invocation =>
    cases hread : Request.ofFile invocation.requestPath (files invocation.requestPath) with
    | error failure => exact .inr ⟨failure, .reading hnamed hread⟩
    | ok request =>
      cases hcompiled : (request.toPipeline ⟨0⟩).1 with
      | error failure => exact .inr ⟨failure, .compiling hnamed hread hcompiled⟩
      | ok pipeline => exact .inl ⟨pipeline, invocation, request, hnamed, hread, hcompiled⟩

theorem print_of_ofFile_error {invocation : Invocation} {content : Except FileFault ByteArray}
    {failure : Failure} (h : Request.ofFile invocation.requestPath content = .error failure) :
    print invocation content = .error failure := by
  rw [print, h]
  rfl

theorem print_of_ofFile_ok {invocation : Invocation} {content : Except FileFault ByteArray}
    {request : Request} (h : Request.ofFile invocation.requestPath content = .ok request) :
    print invocation content =
      (request.toPipeline ⟨0⟩).1.map fun pipeline => pipeline.text invocation.compact := by
  rw [print, h]
  change ((request.toPipeline ⟨0⟩).1 >>= fun pipeline =>
    pure (pipeline.text invocation.compact)) = _
  cases (request.toPipeline ⟨0⟩).1 <;> rfl

theorem run_of_ofProcess_error {failure : Failure}
    (h : Invocation.ofProcess args env = .error failure) :
    run words files args env = outcome (.error failure) := by
  rw [run, said, result, h]
  rfl

theorem run_of_ofProcess_ok {invocation : Invocation}
    (h : Invocation.ofProcess args env = .ok invocation) :
    run words files args env =
      outcome (print invocation (files invocation.requestPath)) (said words files args env) := by
  rw [run, result, h]
  rfl

theorem ofProcess_eq_ok_iff {invocation : Invocation} :
    Invocation.ofProcess args env = .ok invocation ↔
      args.head?.or (env Invocation.requestVariable) = some invocation.requestPath ∧
        invocation.compact = decide (env Invocation.compactVariable = some "1") := by
  obtain ⟨path, compact⟩ := invocation
  rw [Invocation.ofProcess]
  cases args.head?.or (env Invocation.requestVariable) <;> simp [eq_comm]

theorem run_of_compiles {pipeline : Pipeline Stage} (h : Compiles files args env pipeline) :
    run words files args env =
      ⟨0, pipeline.text (env Invocation.compactVariable = some "1") ++ "\n", ""⟩ := by
  obtain ⟨invocation, request, hnamed, hread, hcompiled⟩ := h
  rw [run_of_ofProcess_ok hnamed, print_of_ofFile_ok hread, hcompiled,
    ← (ofProcess_eq_ok_iff.1 hnamed).2]
  rfl

theorem isRefusal_of_ofProcess {failure : Failure}
    (h : Invocation.ofProcess args env = .error failure) : failure.isRefusal = false := by
  rw [Invocation.ofProcess] at h
  split at h
  · cases h
  · obtain rfl := Except.error.inj h
    rfl

theorem isRefusal_of_toPipeline {request : Request} {supply : KeySupply} {failure : Failure}
    (h : (request.toPipeline supply).1 = .error failure) : failure.isRefusal = false := by
  by_cases hnil : request.fields = []
  · rw [Request.toPipeline_of_paths_error (Request.paths_of_nil hnil)] at h
    obtain rfl := Except.error.inj h
    rfl
  · have hpaths := Request.paths_of_ne_nil hnil
    obtain ⟨fields, -, hfields⟩ | ⟨text, fault, hfault⟩ :=
      Request.mapM_readField_cases request.fields
    · rw [Request.toPipeline_of_paths_ok (hpaths.trans hfields)] at h
      cases h
    · rw [Request.toPipeline_of_paths_error (hpaths.trans hfault)] at h
      obtain rfl := Except.error.inj h
      rfl

/-- Only a file with a content is refused by its reader. -/
theorem Fails.exists_content {failure : Failure} (h : Fails files args env failure)
    (hrefusal : failure.isRefusal = true) :
    ∃ invocation content, Invocation.ofProcess args env = .ok invocation ∧
      files invocation.requestPath = .ok content := by
  cases h with
  | naming hnamed =>
    rw [isRefusal_of_ofProcess hnamed] at hrefusal
    cases hrefusal
  | @reading invocation _ hnamed hread =>
    cases hfile : files invocation.requestPath with
    | ok content => exact ⟨invocation, content, hnamed, hfile⟩
    | error fault =>
      rw [hfile] at hread
      obtain rfl := Except.error.inj hread
      cases hrefusal
  | compiling hnamed hread hcompiled =>
    rw [isRefusal_of_toPipeline hcompiled] at hrefusal
    cases hrefusal

theorem run_of_fails {failure : Failure} (h : Fails files args env failure) :
    run words files args env =
      ⟨1, "", "quarry-explain: " ++ failure.report (said words files args env) ++ "\n"⟩ := by
  cases h with
  | naming hnamed =>
    have hown := isRefusal_of_ofProcess hnamed
    rw [run_of_ofProcess_error hnamed, outcome, Failure.report, Failure.report, hown]
    rfl
  | reading hnamed hread => rw [run_of_ofProcess_ok hnamed, print_of_ofFile_error hread, outcome]
  | compiling hnamed hread hcompiled =>
    rw [run_of_ofProcess_ok hnamed, print_of_ofFile_ok hread, hcompiled, Except.map, outcome]

theorem run_of_fails_own {failure : Failure} (h : Fails files args env failure)
    (hown : failure.isRefusal = false) :
    run words files args env = ⟨1, "", "quarry-explain: " ++ failure.message ++ "\n"⟩ := by
  rw [run_of_fails h, Failure.report, hown]
  rfl

theorem run_of_fails_refusal {failure : Failure} (h : Fails files args env failure)
    (hrefusal : failure.isRefusal = true) :
    ∃ path content, args.head?.or (env Invocation.requestVariable) = some path ∧
      files path = .ok content ∧
      run words files args env =
        ⟨1, "", "quarry-explain: " ++ (failure.message ++ words path content) ++ "\n"⟩ := by
  obtain ⟨invocation, content, hnamed, hfile⟩ := h.exists_content hrefusal
  have hsaid : said words files args env = words invocation.requestPath content := by
    rw [said, hnamed]
    simp only [hfile]
  refine ⟨invocation.requestPath, content, (ofProcess_eq_ok_iff.1 hnamed).1, hfile, ?_⟩
  rw [run_of_fails h, Failure.report, hrefusal, hsaid]
  rfl

theorem status_eq_zero_iff (words : String → ByteArray → String)
    (files : String → Except FileFault ByteArray) (args : List String)
    (env : String → Option String) :
    (run words files args env).status = 0 ↔ ∃ pipeline, Compiles files args env pipeline := by
  constructor
  · intro h
    rcases compiles_or_fails files args env with hcompiles | ⟨failure, hfails⟩
    · exact hcompiles
    · rw [run_of_fails hfails] at h
      cases h
  · rintro ⟨pipeline, hcompiles⟩
    rw [run_of_compiles hcompiles]

/-- What is asked depends on the first argument and two variables, the one that names a file only if
there is no argument. -/
theorem ofProcess_congr {args' : List String}
    (hpath : args.head?.or (env Invocation.requestVariable) =
      args'.head?.or (env' Invocation.requestVariable))
    (hcompact : env Invocation.compactVariable = env' Invocation.compactVariable) :
    Invocation.ofProcess args env = Invocation.ofProcess args' env' := by
  rw [Invocation.ofProcess, Invocation.ofProcess, hpath, hcompact]

theorem run_congr_ofProcess {args' : List String}
    (h : Invocation.ofProcess args env = Invocation.ofProcess args' env') :
    run words files args env = run words files args' env' := by
  rw [run, run, said, said, result, result, h]

theorem run_congr_files (h : ∀ path, args.head?.or (env Invocation.requestVariable) = some path →
    files path = files' path) : run words files args env = run words files' args env := by
  cases hnamed : Invocation.ofProcess args env with
  | error failure => rw [run_of_ofProcess_error hnamed, run_of_ofProcess_error hnamed]
  | ok invocation =>
    have hfile := h invocation.requestPath (ofProcess_eq_ok_iff.1 hnamed).1
    have hsaid : said words files args env = said words files' args env := by
      rw [said, said, hnamed]
      simp only [hfile]
    rw [run_of_ofProcess_ok hnamed, run_of_ofProcess_ok hnamed, hfile, hsaid]

/-- A run ends with status 0 exactly if a request is named, can be read and compiles, and then it
prints the text of the pipeline and a line break, compact if and only if the environment says `1`.
Otherwise something fails first; then the status is 1 and nothing is printed but the message of
that failure. Only where the reader of a text refuses it do the reader's own words stand behind the
message. An argument counts as much as a variable that names the file, whatever follows it and
whatever that variable says. No other variable and no other file has any effect. -/
theorem run_all_or_nothing (words : String → ByteArray → String)
    (files : String → Except FileFault ByteArray) (args : List String)
    (env : String → Option String) :
    ((run words files args env).status = 0 ↔ ∃ pipeline, Compiles files args env pipeline) ∧
    (∀ pipeline, Compiles files args env pipeline →
      run words files args env =
        ⟨0, pipeline.text (env "QUARRY_EXPLAIN_COMPACT" = some "1") ++ "\n", ""⟩) ∧
    ((∃ pipeline, Compiles files args env pipeline) ∨ ∃ failure, Fails files args env failure) ∧
    (∀ failure, Fails files args env failure → failure.isRefusal = false →
      run words files args env = ⟨1, "", "quarry-explain: " ++ failure.message ++ "\n"⟩) ∧
    (∀ failure, Fails files args env failure → failure.isRefusal = true →
      ∃ path content, args.head?.or (env "QUARRY_EXPLAIN_REQUEST") = some path ∧
        files path = .ok content ∧
        run words files args env =
          ⟨1, "", "quarry-explain: " ++ (failure.message ++ words path content) ++ "\n"⟩) ∧
    (∀ path others env', env' "QUARRY_EXPLAIN_REQUEST" = some path →
      env' "QUARRY_EXPLAIN_COMPACT" = env "QUARRY_EXPLAIN_COMPACT" →
      run words files (path :: others) env = run words files [] env') ∧
    (∀ env', env' "QUARRY_EXPLAIN_REQUEST" = env "QUARRY_EXPLAIN_REQUEST" →
      env' "QUARRY_EXPLAIN_COMPACT" = env "QUARRY_EXPLAIN_COMPACT" →
      run words files args env' = run words files args env) ∧
    ∀ files', (∀ path, args.head?.or (env "QUARRY_EXPLAIN_REQUEST") = some path →
      files' path = files path) → run words files' args env = run words files args env := by
  refine ⟨status_eq_zero_iff words files args env, fun pipeline => run_of_compiles,
    compiles_or_fails files args env, fun failure => run_of_fails_own,
    fun failure => run_of_fails_refusal, ?_, ?_, fun files' => run_congr_files⟩
  · intro path others env' hrequest hcompact
    apply run_congr_ofProcess
    apply ofProcess_congr _ hcompact.symm
    exact hrequest.symm
  · intro env' hrequest hcompact
    apply run_congr_ofProcess
    apply ofProcess_congr _ hcompact
    exact congrArg _ hrequest

def oneRequest : Record String FileTree :=
  [("r", .file "[null,[\"a\"]]".toUTF8), ("t", .file "[".toUTF8)]

def stopAtFirst : String → ByteArray → String :=
  fun _ _ => " at line 1 column 1"

/-- One request, named by an argument while the variable names no file, then no file at all, and a
text that its reader refuses at its end. -/
theorem run_all_or_nothing_argument_before_variable :
    Compiles (FileTree.read oneRequest) ["r", "s"] (Record.get? [("QUARRY_EXPLAIN_REQUEST", "s")])
        (.ofFields .plain "__quarry_0" [.single "a"]) ∧
      run stopAtFirst (FileTree.read oneRequest) ["r", "s"]
          (Record.get? [("QUARRY_EXPLAIN_REQUEST", "s")]) =
        ⟨0, (Pipeline.ofFields .plain "__quarry_0" [.single "a"]).text false ++ "\n", ""⟩ ∧
      run stopAtFirst (FileTree.read oneRequest) ["r", "s"]
          (Record.get? [("QUARRY_EXPLAIN_REQUEST", "s")]) =
        run stopAtFirst (FileTree.read oneRequest) []
          (Record.get? [("QUARRY_EXPLAIN_REQUEST", "r")]) ∧
      Fails (FileTree.read oneRequest) [] (Record.get? [("QUARRY_EXPLAIN_REQUEST", "s")])
        (.unreadable .notFound) ∧
      run stopAtFirst (FileTree.read oneRequest) []
          (Record.get? [("QUARRY_EXPLAIN_REQUEST", "s")]) =
        ⟨1, "",
          "quarry-explain: failed to read request: No such file or directory (os error 2)\n"⟩ ∧
      Fails (FileTree.read oneRequest) ["t"] (Record.get? []) (.badJson .endInList) ∧
      run stopAtFirst (FileTree.read oneRequest) ["t"] (Record.get? []) =
        ⟨1, "",
          "quarry-explain: invalid JSON request: EOF while parsing a list at line 1 column 1\n"⟩ ∧
      run stopAtFirst (FileTree.read oneRequest) []
          (Record.get? [("QUARRY_EXPLAIN", "r"), ("QUARRY_EXPLAIN_REQUEST", "s")]) =
        run stopAtFirst (FileTree.read oneRequest) []
          (Record.get? [("QUARRY_EXPLAIN_REQUEST", "s")]) ∧
      run stopAtFirst (FileTree.read (("u", .directory []) :: oneRequest)) []
          (Record.get? [("QUARRY_EXPLAIN_REQUEST", "s")]) =
        run stopAtFirst (FileTree.read oneRequest) []
          (Record.get? [("QUARRY_EXPLAIN_REQUEST", "s")]) := by
  have hcompiles : Compiles (FileTree.read oneRequest) ["r", "s"]
      (Record.get? [("QUARRY_EXPLAIN_REQUEST", "s")])
      (.ofFields .plain "__quarry_0" [.single "a"]) :=
    ⟨⟨"r", false⟩, ⟨none, ["a"]⟩, rfl, rfl, rfl⟩
  have hnamed : Invocation.ofProcess [] (Record.get? [("QUARRY_EXPLAIN_REQUEST", "s")]) =
      .ok ⟨"s", false⟩ := rfl
  have hfails : Fails (FileTree.read oneRequest) []
      (Record.get? [("QUARRY_EXPLAIN_REQUEST", "s")]) (.unreadable .notFound) :=
    .reading hnamed rfl
  have hbroken : Invocation.ofProcess ["t"] (Record.get? []) = .ok ⟨"t", false⟩ := rfl
  have hrefused : Fails (FileTree.read oneRequest) ["t"] (Record.get? []) (.badJson .endInList) :=
    .reading hbroken rfl
  obtain ⟨-, hprinted, -, -, -, hargument, -, -⟩ := run_all_or_nothing stopAtFirst
    (FileTree.read oneRequest) ["r", "s"] (Record.get? [("QUARRY_EXPLAIN_REQUEST", "s")])
  obtain ⟨-, -, -, hfailed, -, -, hother, hunread⟩ := run_all_or_nothing stopAtFirst
    (FileTree.read oneRequest) [] (Record.get? [("QUARRY_EXPLAIN_REQUEST", "s")])
  obtain ⟨-, -, -, -, hadded, -⟩ := run_all_or_nothing stopAtFirst
    (FileTree.read oneRequest) ["t"] (Record.get? [])
  obtain ⟨path, content, -, -, hwords⟩ := hadded _ hrefused rfl
  refine ⟨hcompiles, hprinted _ hcompiles, hargument "r" ["s"] _ rfl rfl, hfails,
    hfailed _ hfails rfl, hrefused, hwords, hother _ rfl rfl, hunread _ fun path hpath => ?_⟩
  obtain rfl : "s" = path := Option.some.inj hpath
  rfl

end FieldPipeline.Program
