import OpcodeTables.CommandLine
import OpcodeTables.Proofs.CommandLine.Arguments
import OpcodeTables.Proofs.Generation

/-!
# Reruns, checks and exit codes

Whether an output is only to be checked makes no difference to the survey. So a check finds an output stale if and only
if a run that does not check begins to replace it, and in all other cases both end the same way
(`check_predicts_run`). After a run that has left the right output behind, a survey finds nothing to do, and so does the
next run (`run_again`). The exit code is zero exactly after such runs, and where only a text is asked for
(`code_eq_zero_iff`); the run is that of the configuration which the arguments describe (`Arguments.isDone_run_iff`).
-/

namespace OpcodeTables

namespace Generation

open Volume

variable {σ : Type} {m : Machine σ} {s : σ} {mark : String} {c : Config}

theorem survey_check (c : Config) (check : Bool) : survey { c with check } = survey c := by
  have hfault : Config.fault? { c with check } = c.fault? := rfl
  rw [survey, survey, hfault]
  congr 1
  funext fault
  cases fault with
  | some e => rfl
  | none =>
    refine congrArg (Script.ask (.read c.input)) (funext fun x => ?_)
    cases x <;> rfl

theorem run_eq_unchanged_iff (m : Machine σ) (mark : String) (c : Config) (s : σ) :
    ((run mark c).run m s).1 = .ok .unchanged ↔ ((survey c).run m s).1 = .ok none := by
  have hcourse := course_run m mark c s
  generalize (run mark c).run m s = after at hcourse ⊢
  cases hcourse with
  | failed hsurvey | unchanged hsurvey | stale hsurvey | written hsurvey | broken hsurvey => simp [hsurvey]

/-! ### Checks -/

/-- Without a check, a survey that finds an output out of date is followed by the replacement. -/
theorem create_mem_requests_iff (m : Machine σ) (mark : String) (s : σ) (hcheck : c.check = false) :
    .change (.create (temporaryPath mark c.output)) ∈ (run mark c).requests m s ↔
      ∃ bytes, ((survey c).run m s).1 = .ok (some bytes) := by
  have hsurvey := change_not_mem_requests_survey m c s (.create (temporaryPath mark c.output))
  rw [run_eq_survey_bind, Script.requests_bind, List.mem_append, or_iff_right hsurvey]
  rcases ((survey c).run m s).1 with e | _ | bytes
  · simp [settle, Script.requests]
  · simp [settle, Script.requests]
  · simp only [settle, hcheck, Bool.false_eq_true, if_false, Script.requests_map]
    simp [replace, Script.changes, Script.bind, Script.requests]

/-- A check tells what the survey has found. -/
theorem run_check (m : Machine σ) (mark : String) (s : σ) (hcheck : c.check = true) :
    ((run mark c).run m s).1 = ((survey c).run m s).1.map fun
      | none => .unchanged
      | some _ => .stale := by
  have hcourse := course_run m mark c s
  generalize (run mark c).run m s = after at hcourse ⊢
  cases hcourse with
  | failed hsurvey | unchanged hsurvey | stale hsurvey =>
    rw [hsurvey]
    rfl
  | written hsurvey hno | broken hsurvey hno =>
    rw [hcheck] at hno
    cases hno

theorem run_of_survey_eq_error {e : Fault} (mark : String) (h : ((survey c).run m s).1 = .error e) :
    ((run mark c).run m s).1 = .error e := by
  have hcourse := course_run m mark c s
  generalize (run mark c).run m s = after at hcourse ⊢
  cases hcourse with
  | failed hsurvey | unchanged hsurvey | stale hsurvey | written hsurvey | broken hsurvey => simp_all

/-- A check tells what a run that does not check is going to do. -/
theorem check_predicts_run (m : Machine σ) (mark : String) (c : Config) (s : σ) :
    let dry := ((run mark { c with check := true }).run m s).1
    let real := ((run mark { c with check := false }).run m s).1
    (dry = .ok .stale ↔
      .change (.create (temporaryPath mark c.output)) ∈ (run mark { c with check := false }).requests m s) ∧
    (dry = .ok .unchanged ↔ real = .ok .unchanged) ∧
    (dry ≠ .ok .stale → dry ≠ .ok .unchanged → ∃ e, dry = .error e ∧ real = .error e) := by
  intro dry real
  have hdry := run_check m mark s (c := { c with check := true }) rfl
  have hbegun := create_mem_requests_iff m mark s (c := { c with check := false }) rfl
  have hreal := run_eq_unchanged_iff m mark { c with check := false } s
  rw [survey_check] at hdry hbegun hreal
  rw [show real = .ok .unchanged ↔ _ from hreal, show dry = _ from hdry, hbegun]
  cases hsurvey : ((survey c).run m s).1 with
  | error e =>
    have herror : real = .error e := run_of_survey_eq_error mark (by rw [survey_check, hsurvey])
    simp [Except.map, herror]
  | ok x => cases x <;> simp [Except.map]

/-! ### Reruns -/

variable {F : Places} {v : Volume}

theorem run_survey_of_isReliable (hv : v.IsReliable) (c : Config) : ((survey c).run F.machine v).2 = v :=
  hv.eq_of_entries (Places.isReliable_run _ hv) (entries_run_survey F v c)

theorem run_of_survey_eq_none (hv : v.IsReliable) (h : ((survey c).run F.machine v).1 = .ok none) (mark : String)
    (check : Bool) : (run mark { c with check }).run F.machine v = (.ok .unchanged, v) := by
  have hcourse := course_run F.machine mark { c with check } v
  rw [← survey_check c check] at h
  generalize (run mark { c with check }).run F.machine v = after at hcourse ⊢
  cases hcourse with
  | unchanged => rw [survey_check, run_survey_of_isReliable hv]
  | failed hsurvey | stale hsurvey | written hsurvey | broken hsurvey =>
    rw [hsurvey] at h
    cases h

/-- After a replacement, a survey finds the output up to date. -/
theorem survey_after_written (hv : v.IsReliable) (h : ((run mark c).run F.machine v).1 = .ok .written)
    (hne : F.place (temporaryPath mark c.output) ≠ F.place c.input) :
    ((survey c).run F.machine ((run mark c).run F.machine v).2).1 = .ok none := by
  obtain ⟨-, bytes, hsurvey, hafter⟩ := exists_of_run_eq_written h
  obtain ⟨hvalid, s, bytes', hs, hbytes, hx | ⟨hx, -⟩⟩ := exists_of_run_survey hsurvey
  · cases hx
    have hplace := hvalid.place_ne hs
    -- the input is what it was, so the conversion gives the bytes that the output holds now
    refine (run_survey_eq_ok_none_iff (Places.isReliable_run _ hv)).2
      ⟨hvalid.of_place_ne hplace, s, bytes, bytes, ?_, hbytes, ?_, rfl⟩
    · rw [hafter, Function.update_of_ne hplace.symm, Function.update_of_ne hne.symm, hs]
    · rw [hafter, Function.update_self]
  · cases hx

theorem run_again (hv : v.IsReliable)
    (h : ((run mark c).run F.machine v).1 = .ok .unchanged ∨ ((run mark c).run F.machine v).1 = .ok .written ∧
      F.place (temporaryPath mark c.output) ≠ F.place c.input) (mark' : String) (check : Bool) :
    (run mark' { c with check }).run F.machine ((run mark c).run F.machine v).2 =
      (.ok .unchanged, ((run mark c).run F.machine v).2) := by
  rcases h with h | ⟨h, hne⟩
  · have hsurvey := (run_eq_unchanged_iff F.machine mark c v).1 h
    have hafter : (run mark c).run F.machine v = (.ok .unchanged, v) := run_of_survey_eq_none hv hsurvey mark c.check
    rw [hafter]
    exact run_of_survey_eq_none hv hsurvey mark' check
  · exact run_of_survey_eq_none (Places.isReliable_run _ hv) (survey_after_written hv h hne) mark' check

/-- A run that does not fail has found its configuration valid. -/
theorem valid_of_run_eq_ok {o : Outcome} (h : ((run mark c).run F.machine v).1 = .ok o) : c.Valid F v.entries := by
  have hcourse := course_run F.machine mark c v
  generalize (run mark c).run F.machine v = after at h hcourse ⊢
  cases hcourse with
  | unchanged hsurvey | stale hsurvey | written hsurvey => exact (exists_of_run_survey hsurvey).1
  | failed | broken => cases h

theorem run_eq_unchanged_iff_digest_eq (hv : v.IsReliable) :
    ((run mark c).run F.machine v).1 = .ok .unchanged ↔
      (c.validate.run F.machine v).1 = .ok c ∧ ∃ s d t bytes old, v.entries (F.place c.input) = some (.file s) ∧
        Description.load s = .ok d ∧ d.build c.policy = .ok t ∧ t.emit c.target c.namespaceName = .ok bytes ∧
        v.entries (F.place c.output) = some (.file old) ∧ Sha256.digest old = Sha256.digest bytes := by
  rw [run_eq_unchanged_iff, run_survey_eq_ok_none_iff hv, Config.run_validate_eq_ok_iff, Config.run_fault?_eq_none_iff]
  constructor
  · rintro ⟨hvalid, s, bytes, old, hs, hbytes, hold, hdigest⟩
    obtain ⟨d, t, hd, ht, hemit⟩ := Conversion.run_eq_ok_iff.1 hbytes
    exact ⟨⟨rfl, hvalid⟩, s, d, t, bytes, old, hs, hd, ht, hemit, hold, hdigest⟩
  · rintro ⟨⟨-, hvalid⟩, s, d, t, bytes, old, hs, hd, ht, hemit, hold, hdigest⟩
    exact ⟨hvalid, s, bytes, old, hs, Conversion.run_eq_ok_iff.2 ⟨d, t, hd, ht, hemit⟩, hold, hdigest⟩

end Generation

namespace CommandLine

open Volume

variable {σ : Type} {m : Machine σ} {s : σ} {mark : String}

/-- Whether a run leaves the output up to date. -/
def IsDone (x : Except Generation.Fault Outcome) : Prop :=
  x = .ok .written ∨ x = .ok .unchanged

theorem resultOf_code_eq_zero_iff {c : Config} {x : Except Generation.Fault Outcome} :
    (resultOf c x).code = 0 ↔ IsDone x := by
  rcases x with e | _ | _ | _ <;> simp [resultOf, IsDone]

theorem Arguments.run_code_eq_zero_iff {a : Arguments} :
    ((a.run mark).run m s).1.code = 0 ↔ ∃ c, (a.config.run m s).1 = .ok c ∧
      IsDone ((Generation.run mark (a.adjust c)).run m (a.config.run m s).2).1 := by
  rw [run, Script.run_bind]
  cases (a.config.run m s).1 with
  | error e => simp [Script.run]
  | ok c =>
    rw [Script.run_map, resultOf_code_eq_zero_iff]
    simp

theorem code_eq_zero_iff (m : Machine σ) (mark : String) (as : List String) (s : σ) :
    ((run mark as).run m s).1.code = 0 ↔
      Arguments.read as = .error .help ∨ Arguments.read as = .error .version ∨
      ∃ a c, Arguments.read as = .ok a ∧ (a.config.run m s).1 = .ok c ∧
        IsDone ((Generation.run mark (a.adjust c)).run m (a.config.run m s).2).1 := by
  unfold run
  split
  · simp [Script.run, *]
  · simp [Script.run, *]
  · simp [Script.run, *]
  · rename_i a ha
    rw [Arguments.run_code_eq_zero_iff]
    simp [ha]

variable {F : Places} {v : Volume}

namespace Arguments

/-- The configuration that arguments describe once the format is known. -/
def configOf (a : Arguments) (target : Target) : Config where
  target := target
  policy := if a.allowShadowed then .lastWins else .strict
  namespaceName := a.namespaceName.getD defaultNamespace
  input := a.input
  output := a.output
  check := a.check

theorem snd_run_config (a : Arguments) (v : Volume) : (a.config.run F.machine v).2 = v := by
  rw [config, Script.run_bind, Config.snd_run_ofPaths]
  split
  · rfl
  · split
    · rfl
    · exact Config.snd_run_validate _ v

/-- The default namespace is valid, so that the first validation fails for nothing that the last one lets through. -/
theorem run_config_eq_ok_iff {a : Arguments} {c : Config} :
    (a.config.run F.machine v).1 = .ok c ↔ ∃ target, a.target.or (Target.ofPath? a.output) = some target ∧
      c = { a.configOf target with policy := .strict, check := false } ∧ c.Valid F v.entries := by
  rw [config, Script.run_bind, Config.snd_run_ofPaths]
  constructor
  · intro h
    cases hpaths : ((Config.ofPaths a.input a.output a.target).run F.machine v).1 with
    | error e =>
      rw [hpaths] at h
      cases h
    | ok d =>
      obtain ⟨target, htarget, rfl, hvalid⟩ := Config.run_ofPaths_eq_ok_iff.1 hpaths
      simp only [hpaths] at h
      split at h
      · rename_i hname
        cases h
        exact ⟨target, htarget, by simp [configOf, hname], hvalid⟩
      · rename_i name hname
        obtain ⟨rfl, hfault⟩ := Config.run_validate_eq_ok_iff.1 h
        exact ⟨target, htarget, by simp [configOf, hname], Config.run_fault?_eq_none_iff.1 hfault⟩
  · rintro ⟨target, htarget, rfl, hvalid⟩
    have hsymbol : Symbol.isSymbol defaultNamespace = true := by decide +kernel
    have hdefault : Config.Valid F v.entries { target, input := a.input, output := a.output } :=
      ⟨hsymbol, hvalid.isNamed, hvalid.apart⟩
    rw [Config.run_ofPaths_eq_ok_iff.2 ⟨target, htarget, rfl, hdefault⟩]
    dsimp only
    split
    · rename_i hname
      simp [configOf, hname, Script.run]
    · rename_i name hname
      refine Config.run_validate_eq_ok_iff.2 ⟨by simp [configOf, hname], Config.run_fault?_eq_none_iff.2 ?_⟩
      simpa [configOf, hname] using hvalid

theorem adjust_configOf (a : Arguments) (target : Target) :
    a.adjust { a.configOf target with policy := .strict, check := false } = a.configOf target :=
  rfl

/-- The arguments' own validations find nothing that the run would not find. -/
theorem isDone_run_iff {a : Arguments} :
    (∃ c, (a.config.run F.machine v).1 = .ok c ∧ IsDone ((Generation.run mark (a.adjust c)).run F.machine v).1) ↔
      ∃ target, a.target.or (Target.ofPath? a.output) = some target ∧
        IsDone ((Generation.run mark (a.configOf target)).run F.machine v).1 := by
  constructor
  · rintro ⟨c, hc, hdone⟩
    obtain ⟨target, htarget, rfl, -⟩ := run_config_eq_ok_iff.1 hc
    rw [adjust_configOf] at hdone
    exact ⟨target, htarget, hdone⟩
  · rintro ⟨target, htarget, hdone⟩
    have hvalid : (a.configOf target).Valid F v.entries := by
      rcases hdone with h | h
      · exact Generation.valid_of_run_eq_ok h
      · exact Generation.valid_of_run_eq_ok h
    exact ⟨_, run_config_eq_ok_iff.2 ⟨target, htarget, rfl, hvalid.isSymbol, hvalid.isNamed, hvalid.apart⟩, hdone⟩

end Arguments

/-- A rerun changes nothing, if the first run did not use up its input as its temporary file. A check foretells the run,
and the exit code tells whether the output is up to date, unless the arguments only ask for a text. -/
theorem rerun_check_exit (F : Places) (v : Volume) (hv : v.IsReliable) (mark : String) (c : Config) :
    let first := (Generation.run mark c).run F.machine v
    let dry := ((Generation.run mark { c with check := true }).run F.machine v).1
    let real := ((Generation.run mark { c with check := false }).run F.machine v).1
    let temporary := Generation.temporaryPath mark c.output
    (first.1 = .ok .unchanged ∨ first.1 = .ok .written ∧ F.place temporary ≠ F.place c.input →
      ∀ mark' check, (Generation.run mark' { c with check }).run F.machine first.2 = (.ok .unchanged, first.2)) ∧
    (dry = .ok .stale ↔
      .change (.create temporary) ∈ (Generation.run mark { c with check := false }).requests F.machine v) ∧
    (dry = .ok .unchanged ↔ real = .ok .unchanged) ∧
    (dry ≠ .ok .stale → dry ≠ .ok .unchanged → ∃ e, dry = .error e ∧ real = .error e) ∧
    (first.1 = .ok .unchanged ↔ (c.validate.run F.machine v).1 = .ok c ∧ ∃ s d t bytes old,
      v.entries (F.place c.input) = some (.file s) ∧ Description.load s = .ok d ∧ d.build c.policy = .ok t ∧
      t.emit c.target c.namespaceName = .ok bytes ∧ v.entries (F.place c.output) = some (.file old) ∧
      Sha256.digest old = Sha256.digest bytes) ∧
    (∀ as, ((run mark as).run F.machine v).1.code = 0 ↔
      Asks .help as ∨ Asks .version as ∨ ∃ a target, Arguments.read as = .ok a ∧
        a.target.or (Target.ofPath? a.output) = some target ∧
        IsDone ((Generation.run mark (a.configOf target)).run F.machine v).1) ∧
    ∀ a : Arguments, a.input ≠ "" → a.output ≠ "" → Arguments.read a.words = .ok a := by
  intro first dry real temporary
  obtain ⟨hstale, hunchanged, herror⟩ := Generation.check_predicts_run F.machine mark c v
  refine ⟨fun h mark' check => Generation.run_again hv h mark' check, hstale, hunchanged, herror,
    Generation.run_eq_unchanged_iff_digest_eq hv, fun as => ?_, fun a => Arguments.read_words⟩
  rw [code_eq_zero_iff, Arguments.read_eq_help_iff, Arguments.read_eq_version_iff]
  simp only [Arguments.snd_run_config, exists_and_left, Arguments.isDone_run_iff]

/-- The input is the temporary file of the first run, which a rerun does not find any more. And a command line that runs
nothing ends well. -/
theorem rerun_of_spent_input :
    let F : Places := ⟨id, fun _ => true, id⟩
    let v : Volume := ⟨fun p => if p = "/isa.bin.7.tmp" then
      some (.file (Utf8.encode "\x7b\"registers\": [], \"instructions\": []\x7d")) else none, fun _ => none⟩
    let c : Config := { target := .bincode, input := "/isa.bin.7.tmp", output := "/isa.bin" }
    let first := (Generation.run "7" c).run F.machine v
    v.IsReliable ∧ first.1 = .ok .written ∧
      ((Generation.run "7" c).run F.machine first.2).1 = .error (.io .noEntry) ∧
      (run "7" ["--version"]).run F.machine v = ({ code := 0, stdout := version }, v) := by
  intro F v c first
  have hwritten : first.1 = .ok .written := by decide +kernel
  have hagain : ((Generation.run "7" c).run F.machine first.2).1 = .error (.io .noEntry) := by decide +kernel
  exact ⟨fun _ => rfl, hwritten, hagain, rfl⟩

/-- An output that is not there yet. -/
theorem rerun_check_exit_missing_output :
    let F : Places := ⟨id, fun _ => true, id⟩
    let v : Volume := ⟨fun p => if p = "/isa.json" then
      some (.file (Utf8.encode "\x7b\"registers\": [], \"instructions\": []\x7d")) else none, fun _ => none⟩
    let c : Config := { target := .bincode, input := "/isa.json", output := "/isa.bin" }
    let a : Arguments := ⟨"/isa.json", "/isa.bin", none, none, false, false⟩
    let first := (Generation.run "7" c).run F.machine v
    v.IsReliable ∧ first.1 = .ok .written ∧ F.place (Generation.temporaryPath "7" c.output) ≠ F.place c.input ∧
      (Generation.run "8" { c with check := true }).run F.machine first.2 = (.ok .unchanged, first.2) ∧
      ((Generation.run "7" { c with check := true }).run F.machine v).1 = .ok .stale ∧
      a.input ≠ "" ∧ a.output ≠ "" ∧ ((run "7" a.words).run F.machine v).1.code = 0 := by
  intro F v c a first
  have hv : v.IsReliable := fun _ => rfl
  obtain ⟨hagain, hstale, -, -, -, hexit, hread⟩ := rerun_check_exit F v hv "7" c
  have hwritten : first.1 = .ok .written := by decide +kernel
  have hplace : F.place (Generation.temporaryPath "7" c.output) ≠ F.place c.input := by decide +kernel
  have hbegun : .change (.create (Generation.temporaryPath "7" c.output)) ∈
      (Generation.run "7" { c with check := false }).requests F.machine v := by decide +kernel
  have hinput : a.input ≠ "" := by decide
  have houtput : a.output ≠ "" := by decide
  have htarget : a.target.or (Target.ofPath? a.output) = some .bincode := by decide +kernel
  exact ⟨hv, hwritten, hplace, hagain (.inr ⟨hwritten, hplace⟩) "8" true, hstale.2 hbegun, hinput, houtput,
    (hexit _).2 (.inr (.inr ⟨a, .bincode, hread a hinput houtput, htarget, .inl hwritten⟩))⟩

end CommandLine

end OpcodeTables
