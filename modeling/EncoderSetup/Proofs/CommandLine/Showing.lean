import EncoderSetup.CommandLine.Run
import EncoderSetup.Proofs.Attribute.ProfileRoundTrip
import EncoderSetup.Proofs.Lifecycle.Loading
import EncoderSetup.Proofs.Lifecycle.Registrations

/-!
# Showing a profile

`ShowArguments.Ends` says how showing a profile ends: at the first of the registry file, the stage
and the profile that is not to be had, or with what is printed. The command ends in this way and in
no other (`ShowArguments.gives_printConfig`), and what it prints as JSON depends on the profile
alone and is printed again when it is shown (`CommandLine.cfgShow_end_to_end`).
-/

namespace EncoderSetup

namespace CommandLine

namespace Step

variable {α β : Type} {x : Step α} {f : α → Step β} {contexts : List String}

/-- Under every debug word there is this outcome and no other, or the process ends in its place. -/
def Gives (x : Step α) (r : Except ContextError α) : Prop :=
  Traced.Gives (fun flags => Traced.Returns flags (r.mapError ContextError.error)) x.run r

theorem gives_pure (a : α) : Gives (pure a) (.ok a) :=
  (Traced.gives_pure _).congr fun _ => (iff_true_intro (Traced.returns_ok a)).symm

theorem Gives.unique {r r' : Except ContextError α} (h : Gives x r) (h' : Gives x r') : r = r' := by
  have hclear : Traced.Returns .clear (r.mapError ContextError.error) :=
    Traced.returns_of_not_abort rfl _
  exact Traced.Gives.unique h h' hclear

theorem gives_inContext {x : Checked α} {r : Except SetupError α} (hx : x.Gives r) :
    Gives (inContext contexts x) (r.mapError fun e => ⟨contexts, e⟩) := by
  have h := (Checked.gives_iff.mp hx).map (Except.mapError fun e => ContextError.mk contexts e)
  refine h.congr fun _ => ?_
  cases r with
  | ok a => exact Iff.rfl
  | error e => exact Iff.rfl

theorem gives_bind {a : α} {r : Except ContextError β} (hx : Gives x (.ok a))
    (hf : Gives (f a) r) : Gives (x >>= f) r :=
  (Traced.Gives.run_bind hx hf).congr fun _ => and_iff_right (Traced.returns_ok a)

theorem gives_bind_of_error {e : ContextError} (hx : Gives x (.error e)) :
    Gives (x >>= f) (.error e) :=
  (Traced.Gives.run_bind_of_error hx).congr fun _ =>
    Traced.returns_error.trans Traced.returns_error.symm

end Step

end CommandLine

/-- The stage that a name stands for: the one that these names give it, else the stage that it is
the name of, or the name of whose configuration it is. -/
inductive Registry.Stands (extra : Registry) (name : String) : Stage → Prop where
  | given {st : Stage} (h : extra.resolve name = .ok st) : Stands extra name st
  | builtin {st : Stage} (hnone : ∀ st', extra.resolve name ≠ .ok st')
      (hname : name = st.name ∨ name = "venc_" ++ st.name ++ "_cfg") : Stands extra name st

theorem Registry.resolve_builtin_merge {extra : Registry} {name : String} {st : Stage} :
    (Registry.builtin.merge extra).resolve name = .ok st ↔ extra.Stands name st := by
  rw [resolve_merge]
  constructor
  · intro h
    split at h
    · next st' hst' =>
        rw [Except.ok.inj h] at hst'
        exact .given hst'
    · next e he =>
        refine .builtin (fun st' hst' => ?_) (resolve_builtin.mp h)
        rw [he] at hst'
        cases hst'
  · intro h
    cases h with
    | given h => rw [h]
    | builtin hnone hname =>
        split
        · next st' hst' => exact absurd hst' (hnone st')
        · exact resolve_builtin.mpr hname

namespace Store

variable {s : Store} {content : FileContent} {path : String}

/-- A profile that loads does so from every path with this content. -/
theorem gives_ofProfileFile_path (h : Checked.Gives (ofProfileFile path content) (.ok s))
    (path' : String) : Checked.Gives (ofProfileFile path' content) (.ok s) := by
  cases content with
  | bytes bytes => exact h
  | unreadable => exact h
  | unopened reason => cases (gives_ofProfileFile path (.unopened reason)).unique h

theorem discard_of_gives_ofProfileFile (h : Checked.Gives (ofProfileFile path content) (.ok s)) :
    s.discard = s := by
  have hresult := (gives_ofProfileFile path content).unique h
  rw [discard, ← pending_of_fileResult hresult]

/-- What is printed of a profile that loaded, with the end of its line, loads as that profile. -/
theorem gives_ofProfileFile_printed (h : Checked.Gives (ofProfileFile path content) (.ok s))
    {bytes : List UInt8} (hbytes : bytes.toByteArray = (s.profileText ++ "\n").toUTF8)
    (path' : String) : Checked.Gives (ofProfileFile path' (.bytes bytes)) (.ok s) := by
  have hreachable : s.Reachable := .profileFile ((h .clear _).mpr ⟨rfl, Traced.returns_ok s⟩)
  have hprofile := s.isProfile_profileText.append_newline
  have hgives := gives_ofProfileFile path' (.bytes bytes)
  -- Pending edits do not show in the text, but a profile that was loaded has none.
  rwa [fileResult, Document.load, Json.ofBytes?_of_eq_toUTF8 hbytes,
    profileResult_of_entries hreachable.wellFormed.emptyName hprofile,
    discard_of_gives_ofProfileFile h] at hgives

end Store

namespace CommandLine

/-! ## How showing ends -/

namespace ShowArguments

/-- The names that are put over those of every stage: the ones of the registry file, if it is asked
for one, and none otherwise. -/
inductive Overrides (files : Files) (args : ShowArguments) : Registry → Prop where
  | none (h : args.profiles = none) : Overrides files args .empty
  | file {path : String} {extra : Registry} (h : args.profiles = some path)
      (hload : Checked.Gives (Registry.ofFile path (files path)) (.ok extra)) :
      Overrides files args extra

/-- The registry file loads, the stage stands for something, and the profile loads. -/
structure Reads (files : Files) (args : ShowArguments) (extra : Registry) (st : Stage)
    (s : Store) : Prop where
  names : args.Overrides files extra
  stage : extra.Stands args.stage st
  profile : Checked.Gives (Store.ofProfileFile args.input (files args.input)) (.ok s)

/-- The text on the standard output. -/
def shown (args : ShowArguments) (st : Stage) (s : Store) : String :=
  if args.json then s.profileText ++ "\n" else "stage " ++ st.name ++ "\n" ++ s.dump

/-- One line for each issue that the profile has at the stage, in their order. -/
def warnings (st : Stage) (s : Store) : String :=
  String.join ((StageConfig.issues ⟨st, s⟩).map fun issue => "warning: " ++ issue.text ++ "\n")

/-- How showing a profile ends. -/
inductive Ends (files : Files) (args : ShowArguments) : Except ContextError Printed → Prop where
  | badNames {path : String} {e : SetupError} (h : args.profiles = some path)
      (hload : Checked.Gives (Registry.ofFile path (files path)) (.error e)) :
      Ends files args (.error ⟨loading .registry path, e⟩)
  | unknownStage {extra : Registry} (hnames : args.Overrides files extra)
      (hstage : ∀ st, ¬ extra.Stands args.stage st) :
      Ends files args (.error ⟨[], .notFound (.profileName args.stage)⟩)
  | badProfile {extra : Registry} {st : Stage} {e : SetupError}
      (hnames : args.Overrides files extra) (hstage : extra.Stands args.stage st)
      (hload : Checked.Gives (Store.ofProfileFile args.input (files args.input)) (.error e)) :
      Ends files args (.error ⟨loading .profile args.input, e⟩)
  | shown {extra : Registry} {st : Stage} {s : Store} (h : args.Reads files extra st s) :
      Ends files args (.ok ⟨args.shown st s, warnings st s⟩)

variable {files : Files} {args : ShowArguments}

theorem gives_registry {extra : Registry} (h : args.Overrides files extra) :
    Step.Gives (args.registry files) (.ok (Registry.builtin.merge extra)) := by
  unfold registry
  cases h with
  | none h =>
      rw [h, Registry.merge_empty]
      exact Step.gives_pure _
  | file h hload =>
      rw [h]
      exact Step.gives_bind (Step.gives_inContext hload) (Step.gives_pure _)

theorem gives_resolve {extra : Registry} {st : Stage} {name : String}
    (h : extra.Stands name st) :
    Step.Gives (Step.ofExcept [] ((Registry.builtin.merge extra).resolve name)) (.ok st) := by
  rw [Registry.resolve_builtin_merge.mpr h]
  exact Step.gives_inContext (Checked.gives_pure st)

theorem gives_resolve_of_unknown {extra : Registry} {name : String}
    (h : ∀ st, ¬ extra.Stands name st) :
    Step.Gives (Step.ofExcept [] ((Registry.builtin.merge extra).resolve name))
      (.error ⟨[], .notFound (.profileName name)⟩) := by
  cases hr : (Registry.builtin.merge extra).resolve name with
  | ok st => exact absurd (Registry.resolve_builtin_merge.mp hr) (h st)
  | error e =>
      obtain ⟨-, rfl⟩ := Registry.resolve_eq_error_iff.mp hr
      exact Step.gives_inContext (Checked.gives_throw rfl)

/-- The command ends as it is said, and in no other way. -/
theorem gives_printConfig {o : Except ContextError Printed} (h : args.Ends files o) :
    Step.Gives (printConfig files args) o := by
  unfold printConfig
  cases h with
  | badNames h hload =>
      refine Step.gives_bind_of_error ?_
      unfold registry
      rw [h]
      exact Step.gives_bind_of_error (Step.gives_inContext hload)
  | unknownStage hnames hstage =>
      exact Step.gives_bind (gives_registry hnames)
        (Step.gives_bind_of_error (gives_resolve_of_unknown hstage))
  | badProfile hnames hstage hload =>
      exact Step.gives_bind (gives_registry hnames) (Step.gives_bind (gives_resolve hstage)
        (Step.gives_bind_of_error (Step.gives_inContext hload)))
  | shown h =>
      exact Step.gives_bind (gives_registry h.names) (Step.gives_bind (gives_resolve h.stage)
        (Step.gives_bind (Step.gives_inContext h.profile) (Step.gives_pure _)))

theorem overrides_or_error (files : Files) (args : ShowArguments) :
    (∃ extra, args.Overrides files extra) ∨ ∃ path e, args.profiles = some path ∧
      Checked.Gives (Registry.ofFile path (files path)) (.error e) := by
  cases hpath : args.profiles with
  | none => exact Or.inl ⟨_, .none hpath⟩
  | some path =>
      have hload := Registry.gives_ofOrigin (.file path (files path))
      cases hr : Registry.originResult (.file path (files path)) with
      | ok extra =>
          rw [hr] at hload
          exact Or.inl ⟨extra, .file hpath hload⟩
      | error e =>
          rw [hr] at hload
          exact Or.inr ⟨path, e, rfl, hload⟩

theorem exists_ends (files : Files) (args : ShowArguments) : ∃ o, args.Ends files o := by
  rcases overrides_or_error files args with ⟨extra, hnames⟩ | ⟨path, e, hpath, hload⟩
  · by_cases hstage : ∃ st, extra.Stands args.stage st
    · obtain ⟨st, hstage⟩ := hstage
      have hload := Store.gives_ofProfileFile args.input (files args.input)
      cases hr : Store.fileResult args.input (files args.input) with
      | ok s =>
          rw [hr] at hload
          exact ⟨_, .shown ⟨hnames, hstage, hload⟩⟩
      | error e =>
          rw [hr] at hload
          exact ⟨_, .badProfile hnames hstage hload⟩
    · exact ⟨_, .unknownStage hnames (not_exists.mp hstage)⟩
  · exact ⟨_, .badNames hpath hload⟩

theorem Ends.unique {o o' : Except ContextError Printed} (h : args.Ends files o)
    (h' : args.Ends files o') : o = o' := (gives_printConfig h).unique (gives_printConfig h')

end ShowArguments

/-! ## The program -/

variable {files : Files} {argv : List String} {args : ShowArguments} {verbose : Bool}

theorem gives_program (hargv : readArguments argv = .ok ⟨.cfgShow args, verbose⟩)
    {o : Except ContextError Printed} (h : args.Ends files o) :
    Traced.Gives (fun flags => Traced.Returns flags (o.mapError ContextError.error))
      (program files argv) (.ofOutcome o) := by
  unfold program
  rw [hargv]
  exact (ShowArguments.gives_printConfig h).map Ending.ofOutcome

theorem yields_program_iff_of_reads (hargv : readArguments argv = .ok ⟨.cfgShow args, verbose⟩)
    {extra : Registry} {st : Stage} {s : Store} (h : args.Reads files extra st s)
    {flags : DebugFlags} {ending : Ending} : (program files argv).Yields flags ending ↔
      ending = ⟨0, args.shown st s, ShowArguments.warnings st s⟩ :=
  (gives_program hargv (.shown h) flags ending).trans (and_iff_left (Traced.returns_ok _))

/-- Under every debug word the program succeeds, with this text on the standard output. -/
def Prints (files : Files) (argv : List String) (output : String) : Prop :=
  ∃ diagnostics, ∀ flags ending,
    (program files argv).Yields flags ending ↔ ending = ⟨0, output, diagnostics⟩

theorem prints_iff (hargv : readArguments argv = .ok ⟨.cfgShow args, verbose⟩) {output : String} :
    Prints files argv output ↔
      ∃ extra st s, args.Reads files extra st s ∧ output = args.shown st s := by
  constructor
  · rintro ⟨diagnostics, h⟩
    obtain ⟨o, ho⟩ := ShowArguments.exists_ends files args
    obtain ⟨hending, -⟩ := (gives_program hargv ho _ _).mp ((h .clear _).mpr rfl)
    cases ho with
    | shown hreads =>
        cases hending
        exact ⟨_, _, _, hreads, rfl⟩
    | badNames | unknownStage | badProfile => cases hending
  · rintro ⟨extra, st, s, h, rfl⟩
    exact ⟨_, fun flags ending => yields_program_iff_of_reads hargv h⟩

theorem exists_prints_iff (hargv : readArguments argv = .ok ⟨.cfgShow args, verbose⟩) :
    (∃ output, Prints files argv output) ↔ ∃ extra st s, args.Reads files extra st s := by
  simp only [prints_iff hargv]
  constructor
  · rintro ⟨output, extra, st, s, h, -⟩
    exact ⟨extra, st, s, h⟩
  · rintro ⟨extra, st, s, h⟩
    exact ⟨_, extra, st, s, h, rfl⟩

theorem prints_or_fails (hargv : readArguments argv = .ok ⟨.cfgShow args, verbose⟩)
    {flags : DebugFlags} {ending : Ending} (h : (program files argv).Yields flags ending) :
    (ending.code = 0 ∧ Prints files argv ending.output) ∨
      (ending.code = 1 ∧ ending.output = "" ∧ ∀ output, ¬ Prints files argv output) := by
  obtain ⟨o, ho⟩ := ShowArguments.exists_ends files args
  obtain ⟨rfl, -⟩ := (gives_program hargv ho flags ending).mp h
  cases ho with
  | shown hreads => exact Or.inl ⟨rfl, (prints_iff hargv).mpr ⟨_, _, _, hreads, rfl⟩⟩
  | badNames | unknownStage | badProfile =>
      -- A run that prints ends with code 0 under every debug word, this one included.
      refine Or.inr ⟨rfl, rfl, ?_⟩
      rintro output ⟨diagnostics, hprints⟩
      cases (hprints flags _).mp h

variable {files' : Files} {argv' : List String} {args' : ShowArguments} {verbose' : Bool}
  {output output' : String}

/-- Two runs on the same profile print the same JSON, at whatever stages and with whatever names. -/
theorem Prints.eq_of_same_profile (hargv : readArguments argv = .ok ⟨.cfgShow args, verbose⟩)
    (hargv' : readArguments argv' = .ok ⟨.cfgShow args', verbose'⟩) (hjson : args.json = true)
    (hjson' : args'.json = true) (hprofile : files' args'.input = files args.input)
    (h : Prints files argv output) (h' : Prints files' argv' output') : output' = output := by
  obtain ⟨extra, st, s, hreads, rfl⟩ := (prints_iff hargv).mp h
  obtain ⟨extra', st', s', hreads', rfl⟩ := (prints_iff hargv').mp h'
  have hload := Store.gives_ofProfileFile_path hreads.profile args'.input
  have hload' := hreads'.profile
  rw [hprofile] at hload'
  obtain rfl := Except.ok.inj (hload.unique hload')
  rw [ShowArguments.shown, ShowArguments.shown, if_pos hjson, if_pos hjson']

/-- The JSON that was printed is printed again where it is the profile. -/
theorem Prints.again (hargv : readArguments argv = .ok ⟨.cfgShow args, verbose⟩)
    (hargv' : readArguments argv' = .ok ⟨.cfgShow args', verbose'⟩) (hjson : args.json = true)
    (hjson' : args'.json = true) (h : Prints files argv output) {bytes : List UInt8}
    (hbytes : bytes.toByteArray = output.toUTF8) (hprofile : files' args'.input = .bytes bytes)
    {extra : Registry} {st : Stage} (hnames : args'.Overrides files' extra)
    (hstage : extra.Stands args'.stage st) : Prints files' argv' output := by
  obtain ⟨extra', st', s, hreads, rfl⟩ := (prints_iff hargv).mp h
  rw [ShowArguments.shown, if_pos hjson] at hbytes ⊢
  have hload := Store.gives_ofProfileFile_printed hreads.profile hbytes args'.input
  rw [← hprofile] at hload
  refine (prints_iff hargv').mpr ⟨extra, st, s, ⟨hnames, hstage, hload⟩, ?_⟩
  rw [ShowArguments.shown, if_pos hjson']

/-- Showing a profile ends in the one way that its files and arguments say: it fails at the first of
the names, the stage and the profile that is not to be had, with nothing on the standard output, and
succeeds if all three are. The issues are then told in their order and change nothing else. What is
printed as JSON depends on the profile alone, and a file that holds it is printed as it is. -/
theorem cfgShow_end_to_end (files : Files)
    (hargv : readArguments argv = .ok ⟨.cfgShow args, verbose⟩) :
    (∃ o, args.Ends files o ∧ (∀ o', args.Ends files o' → o' = o) ∧ ∀ flags ending,
      (program files argv).Yields flags ending ↔
        ending = .ofOutcome o ∧ Traced.Returns flags (o.mapError ContextError.error)) ∧
    ((∃ output, Prints files argv output) ↔ ∃ extra st s, args.Reads files extra st s) ∧
    (∀ flags ending, (program files argv).Yields flags ending →
      (ending.code = 0 ∧ Prints files argv ending.output) ∨
        (ending.code = 1 ∧ ending.output = "" ∧ ∀ output, ¬ Prints files argv output)) ∧
    (∀ extra st s, args.Reads files extra st s → ∀ flags ending,
      (program files argv).Yields flags ending ↔
        ending = ⟨0, args.shown st s, ShowArguments.warnings st s⟩) ∧
    (args.json = true → ∀ output, Prints files argv output → ∀ files' argv' args' verbose',
      readArguments argv' = .ok ⟨.cfgShow args', verbose'⟩ → args'.json = true →
        (files' args'.input = files args.input →
          ∀ output', Prints files' argv' output' → output' = output) ∧
        ∀ bytes, bytes.toByteArray = output.toUTF8 → files' args'.input = .bytes bytes →
          ∀ extra st, args'.Overrides files' extra → extra.Stands args'.stage st →
            Prints files' argv' output) := by
  obtain ⟨o, ho⟩ := ShowArguments.exists_ends files args
  refine ⟨⟨o, ho, fun o' ho' => ho'.unique ho, gives_program hargv ho⟩,
    exists_prints_iff hargv, fun flags ending => prints_or_fails hargv,
    fun extra st s h flags ending => yields_program_iff_of_reads hargv h, ?_⟩
  intro hjson output h files' argv' args' verbose' hargv' hjson'
  exact ⟨fun hprofile output' => h.eq_of_same_profile hargv hargv' hjson hjson' hprofile,
    fun bytes hbytes hprofile extra st => h.again hargv hargv' hjson hjson' hbytes hprofile⟩

/-- The name of a stage is given to another one. The profile has two issues there, and is printed;
the file of what was printed is printed as it is, at the first stage and without other names. -/
theorem cfgShow_of_renamed_stage :
    let profile := "\x7b\"x\":\x7b\"s32\":1\x7d,\"rc.gop\":\x7b\"u32\":60\x7d\x7d"
    let names := "\x7b\"start\":\"stop\"\x7d"
    let printed := "\x7b\n  \"rc.gop\": \x7b\n    \"u32\": 60\n  \x7d,\n" ++
      "  \"x\": \x7b\n    \"s32\": 1\n  \x7d\n\x7d\n"
    let files : Files := fun path =>
      if path = "profile.json" then .bytes profile.toUTF8.toList
      else if path = "names.json" then .bytes names.toUTF8.toList
      else .bytes printed.toUTF8.toList
    let argv := ["cfg", "show", "--in", "profile.json", "--stage", "start",
      "--profiles", "names.json", "--json"]
    (∀ flags ending, (program files argv).Yields flags ending ↔ ending = ⟨0, printed,
      "warning: 'rc.gop' is not read at stop\nwarning: 'rc.gop' is u32, schema declares s32\n"⟩) ∧
    Prints files ["cfg", "show", "--in", "printed.json", "--json"] printed := by
  intro profile names printed files argv
  let args : ShowArguments := ⟨"profile.json", "start", some "names.json", true⟩
  let extra : Registry := ⟨.ofList [("start", .stop)]⟩
  let s : Store := ⟨.ofList [("rc.gop", .u32 60), ("x", .s32 1)], .empty⟩
  have hargv : readArguments argv = .ok ⟨.cfgShow args, false⟩ := by rfl
  have hargv' : readArguments ["cfg", "show", "--in", "printed.json", "--json"] =
      .ok ⟨.cfgShow ⟨"printed.json", "init", none, true⟩, false⟩ := by rfl
  have hextra : Registry.originResult (.file "names.json" (files "names.json")) = .ok extra := by
    decide +kernel
  have hs : Store.fileResult "profile.json" (files "profile.json") = .ok s := by decide +kernel
  have hshown : args.shown .stop s = printed := by decide +kernel
  have hwarnings : ShowArguments.warnings .stop s =
      "warning: 'rc.gop' is not read at stop\nwarning: 'rc.gop' is u32, schema declares s32\n" := by
    decide +kernel
  have hnames := Registry.gives_ofOrigin (.file "names.json" (files "names.json"))
  rw [hextra] at hnames
  have hstage : extra.Stands "start" .stop :=
    Registry.resolve_builtin_merge.mp (by decide +kernel)
  have hstage' : Registry.empty.Stands "init" .init :=
    Registry.resolve_builtin_merge.mp (by decide +kernel)
  have hprofile := Store.gives_ofProfileFile "profile.json" (files "profile.json")
  rw [hs] at hprofile
  have hreads : args.Reads files extra .stop s := ⟨.file rfl hnames, hstage, hprofile⟩
  obtain ⟨-, -, -, hends, hagain⟩ := cfgShow_end_to_end files hargv
  have hyields := hends extra .stop s hreads
  rw [hshown, hwarnings] at hyields
  have hbytes : printed.toUTF8.toList.toByteArray = printed.toUTF8 := by decide +kernel
  obtain ⟨-, hprints⟩ := hagain rfl printed ⟨_, hyields⟩ files _ _ _ hargv' rfl
  exact ⟨hyields, hprints _ hbytes rfl .empty .init (.none rfl) hstage'⟩

end CommandLine

end EncoderSetup
