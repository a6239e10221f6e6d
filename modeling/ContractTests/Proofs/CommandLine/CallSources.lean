import ContractTests.CommandLine.Run
import ContractTests.Proofs.Text.Split

/-! # The two sources of a call sequence

The calls of a text can be given as an option, which splits the text at its commas
(`CommandLine.readOptions_calls`), or in a file, which is split at its commas and its white space
(`CallSequence.parse_eq_flatMap_words`). Both give one sequence exactly when no piece between the
commas has white space inside (`CallSequence.ofValues_eq_parse_iff`), and then a command does the
same with either (`CommandLine.callSources_agree_iff`).
-/

set_option autoImplicit false

namespace ContractTests

namespace CallSequence

/-- The pieces of a text between its commas. -/
def commaPieces (text : String) : List (List Char) := Text.splitOn (· == ',') text.toList

/-! ## Both readings of a text -/

theorem parse_eq_flatMap_words (text : String) :
    parse text = ((commaPieces text).flatMap Text.words).map String.ofList := by
  rw [parse, commaPieces, Text.splitOn_eq_splitOnP, Text.splitOn_eq_splitOnP, Text.splitOnP_or,
    List.filter_flatMap]
  rfl

theorem ofValues_map_ofList (pieces : List (List Char)) :
    ofValues (pieces.map String.ofList) =
      ((pieces.map Text.trim).filter (!·.isEmpty)).map String.ofList := by
  have htrimmed : Text.trimmed ∘ String.ofList = String.ofList ∘ Text.trim := by
    funext piece
    simp only [Function.comp_apply, Text.trimmed, String.toList_ofList]
  have hempty : (· != "") ∘ String.ofList = fun cs => !cs.isEmpty := by
    funext cs
    cases cs <;> simp
  rw [ofValues, List.map_map, htrimmed, ← List.map_map, List.filter_map, hempty]

/-- Both readings of a text give one sequence exactly when no piece of it has white space inside. -/
theorem ofValues_eq_parse_iff (text : String) :
    ofValues ((commaPieces text).map String.ofList) = parse text ↔
      ∀ piece ∈ commaPieces text, Text.IsSolid piece := by
  rw [ofValues_map_ofList, parse_eq_flatMap_words, eq_comm,
    List.map_inj_right fun _ _ => String.ofList_injective, Text.flatMap_words_eq_iff]

end CallSequence

namespace CommandLine

variable {files : FileTree} {contracts path text : String} {given : Given}

/-! ## Arguments -/

/-- What the option for calls takes from a text. -/
def optionSource (text : String) : CallSource :=
  .values ((CallSequence.commaPieces text).map String.ofList)

/-- An option that is a list is given the pieces of its value. -/
theorem give_texts {spec : OptionSpec} (hkind : spec.kind = .texts)
    (hfirst : given.lookup spec.name = none) :
    spec.give text given = .ok ((spec.name, (CallSequence.commaPieces text).map String.ofList) ::
      given.filter (·.1 != spec.name)) := by
  rw [OptionSpec.give, hkind, hfirst]
  rfl

theorem longOption_attached {name : List Char} (hname : '=' ∉ name) (value : List Char) :
    longOption (name ++ '=' :: value) = (String.ofList name, some (String.ofList value)) := by
  have htake : (name ++ '=' :: value).takeWhile (· != '=') = name := by
    rw [List.takeWhile_append_of_pos fun c hc => by simpa using ne_of_mem_of_not_mem hc hname]
    exact List.append_nil name
  simp only [longOption, htake, List.drop_left]

/-- A value that is attached to the name of an option is given to the option. -/
theorem readOptions_attached {specs : List OptionSpec} {spec : OptionSpec} {name value : String}
    (hfind : specs.find? (·.name == name) = some spec) (hkind : spec.kind ≠ .flag)
    (hname : '=' ∉ name.toList) (hasVersion : Bool) (given : Given) (rest : List String) :
    readOptions specs hasVersion given (("--" ++ name ++ "=" ++ value) :: rest) =
      spec.give value given >>= fun given => readOptions specs hasVersion given rest := by
  have harg : ("--" ++ name ++ "=" ++ value).toList =
      '-' :: '-' :: (name.toList ++ '=' :: value.toList) := by
    simp only [String.toList_append, List.append_assoc]
    rfl
  have hlong := longOption_attached hname value.toList
  rw [String.ofList_toList, String.ofList_toList] at hlong
  -- Something follows the two hyphens, so that the argument does not end the options.
  obtain ⟨c, cs, hcons⟩ : ∃ c cs, name.toList ++ '=' :: value.toList = c :: cs :=
    List.exists_cons_of_ne_nil (by simp)
  rw [hcons] at harg hlong
  rw [readOptions, if_neg (by simp [isPlain, harg])]
  simp only [harg, hlong, hfind]

/-- The calls that are attached to the option are its value split at every comma. -/
theorem readOptions_calls (hfirst : given.lookup "calls" = none) (text : String)
    (rest : List String) :
    readOptions (generateOptions ++ globalOptions) false given (("--calls=" ++ text) :: rest) =
      readOptions (generateOptions ++ globalOptions) false
        (("calls", (CallSequence.commaPieces text).map String.ofList) ::
          given.filter (·.1 != "calls")) rest := by
  have hgive : OptionSpec.give ⟨"calls", none, .texts⟩ text given = .ok _ := give_texts rfl hfirst
  have hattached : readOptions (generateOptions ++ globalOptions) false given
      (("--" ++ "calls" ++ "=" ++ text) :: rest) = _ :=
    readOptions_attached rfl (by decide) (by decide) false given rest
  rw [hgive] at hattached
  exact hattached

theorem readOptions_specs (hplain : isPlain contracts = true) (hne : contracts ≠ "")
    (rest : List String) :
    readOptions (generateOptions ++ globalOptions) false [] ("--specs" :: contracts :: rest) =
      readOptions (generateOptions ++ globalOptions) false [("specs", [contracts])] rest := by
  have hgive : OptionSpec.give ⟨"specs", none, .path⟩ contracts [] =
      .ok [("specs", [contracts])] := by
    simp [OptionSpec.give, hne]
  rw [readOptions, if_neg (by decide)]
  change (if isPlain contracts then _ else _) = _
  rw [if_pos hplain, hgive]
  rfl

theorem parse_generate (arguments : List String) :
    parse ("generate" :: arguments) = (do
      let given ← commandOptions generateOptions arguments
      match generateCommand? given with
      | some command => .ok ⟨value? given "config", .generate command⟩
      | none => .error .refused) := by
  unfold parse
  rw [readOptions, if_pos (by decide)]
  simp only [bind, Except.bind]
  cases commandOptions generateOptions arguments with
  | error stop => rfl
  | ok given =>
    have hconfig : (value? given "config").or (value? [] "config") = value? given "config" :=
      Option.or_none
    simp only [hconfig]
    cases generateCommand? given <;> rfl

/-- The command with contracts and calls from these sources and no other option. -/
def plainCommand (contracts : String) (source : CallSource) : GenerateCommand :=
  ⟨contracts, source, "atcgen-out", false, none, none, false, false⟩

theorem parse_calls (hplain : isPlain contracts = true) (hne : contracts ≠ "") (text : String) :
    parse ["generate", "--specs", contracts, "--calls=" ++ text] =
      .ok ⟨none, .generate (plainCommand contracts (optionSource text))⟩ := by
  rw [parse_generate, commandOptions, readOptions_specs hplain hne, readOptions_calls rfl,
    readOptions]
  rfl

theorem parse_callsFile (hplain : isPlain contracts = true) (hne : contracts ≠ "")
    (hpath : path ≠ "") :
    parse ["generate", "--specs", contracts, "--calls-file=" ++ path] =
      .ok ⟨none, .generate (plainCommand contracts (.file path))⟩ := by
  have hfirst : List.lookup "calls-file" [("specs", [contracts])] = none := rfl
  have hgive : OptionSpec.give ⟨"calls-file", none, .path⟩ path [("specs", [contracts])] =
      .ok [("calls-file", [path]), ("specs", [contracts])] := by
    simp [OptionSpec.give, hfirst, hpath]
  have hattached : readOptions (generateOptions ++ globalOptions) false [("specs", [contracts])]
      ["--" ++ "calls-file" ++ "=" ++ path] = _ :=
    readOptions_attached rfl (by decide) (by decide) false _ []
  rw [hgive] at hattached
  rw [parse_generate, commandOptions, readOptions_specs hplain hne]
  change (readOptions _ false _ ["--" ++ "calls-file" ++ "=" ++ path] >>= _) >>= _ = _
  rw [hattached]
  rfl

/-! ## Sources -/

/-- The sequence, unless it is empty. -/
def nonEmpty (calls : CallSequence) : Except RunError CallSequence :=
  if calls.isEmpty then .error .noCalls else .ok calls

theorem loadCalls_optionSource (files : FileTree) (text : String) :
    loadCalls files (optionSource text) =
      nonEmpty (CallSequence.ofValues ((CallSequence.commaPieces text).map String.ofList)) := rfl

theorem ne_of_read (hread : files.read path = .ok text) : path ≠ "" := by
  rintro rfl
  cases hread

theorem loadCalls_file (hread : files.read path = .ok text)
    (hlist : (Text.trimStart text.toList).head? ≠ some '[') :
    loadCalls files (.file path) = nonEmpty (CallSequence.parse text) := by
  have hcalls : callsOfText? text = some (CallSequence.parse text) := if_neg (by simpa using hlist)
  unfold loadCalls
  simp only [hread, Except.mapError, bind, Except.bind, hcalls]
  rfl

/-- Both sources give the same calls, or neither gives any. -/
def SameCalls (files : FileTree) (source source' : CallSource) : Prop :=
  (∃ calls, calls ≠ [] ∧ loadCalls files source = .ok calls ∧ loadCalls files source' = .ok calls) ∨
    (loadCalls files source = .error .noCalls ∧ loadCalls files source' = .error .noCalls)

theorem SameCalls.loadCalls_eq {source source' : CallSource} (h : SameCalls files source source') :
    loadCalls files source = loadCalls files source' := by
  rcases h with ⟨calls, -, hsource, hsource'⟩ | ⟨hsource, hsource'⟩
  · rw [hsource, hsource']
  · rw [hsource, hsource']

theorem sameCalls_iff {source source' : CallSource} {calls calls' : CallSequence}
    (hsource : loadCalls files source = nonEmpty calls)
    (hsource' : loadCalls files source' = nonEmpty calls') :
    SameCalls files source source' ↔ calls = calls' := by
  constructor
  · intro h
    have heq := h.loadCalls_eq
    rw [hsource, hsource'] at heq
    cases calls <;> cases calls' <;> simp_all [nonEmpty]
  · rintro rfl
    cases calls with
    | nil => exact .inr ⟨hsource, hsource'⟩
    | cons call calls => exact .inl ⟨call :: calls, nofun, hsource, hsource'⟩

/-! ## Commands -/

/-- The command with its calls from another source. -/
def GenerateCommand.withCalls (command : GenerateCommand) (source : CallSource) : GenerateCommand :=
  { command with calls := source }

/-- A command does the same with sources that agree. -/
theorem SameCalls.execute_eq {source source' : CallSource} (h : SameCalls files source source')
    (configuration : Option String) (command : GenerateCommand) :
    execute ⟨configuration, .generate (command.withCalls source)⟩ files =
      execute ⟨configuration, .generate (command.withCalls source')⟩ files := by
  have hgenerate (settings : Configuration) :
      (command.withCalls source).generate settings files =
        (command.withCalls source').generate settings files := by
    change (loadContracts files command.contracts >>= fun table => loadCalls files source >>= _) =
      loadContracts files command.contracts >>= fun table => loadCalls files source' >>= _
    rw [h.loadCalls_eq]
    rfl
  unfold execute
  simp only [hgenerate]
  rfl

theorem SameCalls.run_eq (h : SameCalls files (optionSource text) (.file path))
    (hplain : isPlain contracts = true) (hne : contracts ≠ "") (hpath : path ≠ "") :
    run ["generate", "--specs", contracts, "--calls=" ++ text] files =
      run ["generate", "--specs", contracts, "--calls-file=" ++ path] files := by
  have hexecute : execute ⟨none, .generate (plainCommand contracts (optionSource text))⟩ files =
      execute ⟨none, .generate (plainCommand contracts (.file path))⟩ files :=
    h.execute_eq none (plainCommand contracts (.file path))
  unfold run
  rw [parse_calls hplain hne, parse_callsFile hplain hne hpath]
  simp only [hexecute]

/-- For a text that is no JSON list, the option and a file with the text give the same calls exactly
when no piece between the commas has white space inside. Then every command does the same with
either. -/
theorem callSources_agree_iff (hread : files.read path = .ok text)
    (hlist : (Text.trimStart text.toList).head? ≠ some '[') :
    (SameCalls files (optionSource text) (.file path) ↔
        ∀ piece ∈ CallSequence.commaPieces text, Text.IsSolid piece) ∧
      ((∀ piece ∈ CallSequence.commaPieces text, Text.IsSolid piece) →
        (∀ (configuration : Option String) (command : GenerateCommand),
          execute ⟨configuration, .generate (command.withCalls (optionSource text))⟩ files =
            execute ⟨configuration, .generate (command.withCalls (.file path))⟩ files) ∧
        ∀ contracts, isPlain contracts = true → contracts ≠ "" →
          run ["generate", "--specs", contracts, "--calls=" ++ text] files =
            run ["generate", "--specs", contracts, "--calls-file=" ++ path] files) := by
  have hsame : SameCalls files (optionSource text) (.file path) ↔
      ∀ piece ∈ CallSequence.commaPieces text, Text.IsSolid piece := by
    rw [sameCalls_iff (loadCalls_optionSource files text) (loadCalls_file hread hlist)]
    exact CallSequence.ofValues_eq_parse_iff text
  refine ⟨hsame, fun hsolid => ⟨(hsame.2 hsolid).execute_eq, fun contracts hplain hne => ?_⟩⟩
  exact (hsame.2 hsolid).run_eq hplain hne (ne_of_read hread)

/-- Files with contracts and with calls that have white space around them. -/
def paddedFiles : FileTree :=
  .ofList [("specs.json", "\x7b\"functions\": []\x7d"), ("calls.txt", " f ,g,\n h\t")]

theorem padded_callSources_agree :
    SameCalls paddedFiles (optionSource " f ,g,\n h\t") (.file "calls.txt") ∧
      loadCalls paddedFiles (.file "calls.txt") = .ok ["f", "g", "h"] ∧
      run ["generate", "--specs", "specs.json", "--calls= f ,g,\n h\t"] paddedFiles =
        run ["generate", "--specs", "specs.json", "--calls-file=calls.txt"] paddedFiles := by
  have hread : paddedFiles.read "calls.txt" = .ok " f ,g,\n h\t" := rfl
  have hsolid : ∀ piece ∈ CallSequence.commaPieces " f ,g,\n h\t", Text.IsSolid piece := by decide
  have h := callSources_agree_iff hread (by decide)
  exact ⟨h.1.2 hsolid, rfl, (h.2 hsolid).2 "specs.json" (by decide) (by decide)⟩

/-- White space inside a piece stays in the option and separates calls in the file. -/
theorem spaced_callSources_disagree :
    (FileTree.ofList [("calls.txt", "f g")]).read "calls.txt" = .ok "f g" ∧
      (Text.trimStart "f g".toList).head? ≠ some '[' ∧
      loadCalls (.ofList [("calls.txt", "f g")]) (optionSource "f g") = .ok ["f g"] ∧
      loadCalls (.ofList [("calls.txt", "f g")]) (.file "calls.txt") = .ok ["f", "g"] :=
  ⟨rfl, by decide, rfl, rfl⟩

end CommandLine

end ContractTests
