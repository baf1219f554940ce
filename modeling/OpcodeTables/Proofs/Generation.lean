import OpcodeTables.Generation
import OpcodeTables.Proofs.Config
import OpcodeTables.Proofs.Path

/-!
# All or nothing

A run is a survey, which looks at files and changes nothing, and then what follows from it (`run_eq_survey_bind`). Only
a survey that finds an output out of date is followed by changes. A replacement that succeeds has changed one file
(`entries_run_replace_of_ok`), and one that fails at any step has changed nothing (`entries_run_replace_of_error`), if
its temporary file was not there before. So is it for a run (`written_or_untouched`).
-/

namespace OpcodeTables.Generation

open Volume

/-! ### The survey -/

/-- What a run finds out before it changes anything: the bytes to be written, if any. -/
def survey (c : Config) : Script (Except Fault (Option (List UInt8))) :=
  c.fault?.bind fun
  | some e => .done (.error (.config e))
  | none =>
    .ask (.read c.input) fun
    | .error e => .done (.error (.io e))
    | .ok s =>
      match c.toConversion.run s with
      | .error e => .done (.error (.conversion e))
      | .ok bytes =>
        (isUpToDate c.output bytes).map fun
        | .error e => .error (.io e)
        | .ok true => .ok none
        | .ok false => .ok (some bytes)

/-- What a run does after its survey. -/
def settle (mark : String) (c : Config) : Except Fault (Option (List UInt8)) → Script (Except Fault Outcome)
  | .error e => .done (.error e)
  | .ok none => .done (.ok .unchanged)
  | .ok (some bytes) =>
    if c.check then .done (.ok .stale)
    else
      (replace mark c.output bytes).map fun
      | .error e => .error (.io e)
      | .ok () => .ok .written

theorem run_eq_survey_bind (mark : String) (c : Config) : run mark c = (survey c).bind (settle mark c) := by
  rw [run, survey, Script.bind_assoc]
  congr 1
  funext fault
  cases fault with
  | some e => rfl
  | none =>
    refine congrArg (Script.ask (.read c.input)) (funext fun x => ?_)
    cases x with
    | error e => rfl
    | ok s =>
      dsimp only
      cases c.toConversion.run s with
      | error e => rfl
      | ok bytes =>
        dsimp only [update]
        rw [Script.map_bind]
        congr 1
        funext y
        rcases y with e | _ | _ <;> rfl

/-- How a run can end, and the state that it leaves. -/
inductive Course {σ : Type} (m : Machine σ) (mark : String) (c : Config) (s : σ) : Except Fault Outcome × σ → Prop where
  | failed {e : Fault} (hsurvey : ((survey c).run m s).1 = .error e) :
    Course m mark c s (.error e, ((survey c).run m s).2)
  | unchanged (hsurvey : ((survey c).run m s).1 = .ok none) :
    Course m mark c s (.ok .unchanged, ((survey c).run m s).2)
  | stale {bytes : List UInt8} (hsurvey : ((survey c).run m s).1 = .ok (some bytes)) (hcheck : c.check = true) :
    Course m mark c s (.ok .stale, ((survey c).run m s).2)
  | written {bytes : List UInt8} (hsurvey : ((survey c).run m s).1 = .ok (some bytes)) (hcheck : c.check = false)
    (hreplace : ((replace mark c.output bytes).run m ((survey c).run m s).2).1 = .ok ()) :
    Course m mark c s (.ok .written, ((replace mark c.output bytes).run m ((survey c).run m s).2).2)
  | broken {bytes : List UInt8} {e : Errno} (hsurvey : ((survey c).run m s).1 = .ok (some bytes))
    (hcheck : c.check = false)
    (hreplace : ((replace mark c.output bytes).run m ((survey c).run m s).2).1 = .error e) :
    Course m mark c s (.error (.io e), ((replace mark c.output bytes).run m ((survey c).run m s).2).2)

theorem course_run {σ : Type} (m : Machine σ) (mark : String) (c : Config) (s : σ) :
    Course m mark c s ((run mark c).run m s) := by
  rw [run_eq_survey_bind, Script.run_bind]
  rcases hsurvey : ((survey c).run m s).1 with e | _ | bytes
  · exact .failed hsurvey
  · exact .unchanged hsurvey
  · cases hcheck : c.check with
    | true =>
      rw [settle, if_pos hcheck]
      exact .stale hsurvey hcheck
    | false =>
      rw [settle, if_neg (by simp [hcheck]), Script.run_map]
      cases hreplace : ((replace mark c.output bytes).run m ((survey c).run m s).2).1 with
      | error e => exact .broken hsurvey hcheck hreplace
      | ok u => exact .written hsurvey hcheck hreplace

theorem only_isUpToDate (path : String) (bytes : List UInt8) : (isUpToDate path bytes).Only (· = .read path) := by
  refine And.intro rfl fun x => ?_
  dsimp only
  split <;> exact trivial

/-- What a survey can ask for. -/
def inquiries (c : Config) : List Request :=
  [.realPath c.input, .realPath c.output, .read c.input, .read c.output]

theorem only_survey (c : Config) : (survey c).Only (· ∈ inquiries c) := by
  refine (c.only_fault?.mono fun r hr => ?_).bind fun fault => ?_
  · rcases hr with rfl | rfl <;> simp [inquiries]
  · cases fault with
    | some e => exact trivial
    | none =>
      refine ⟨by simp [inquiries], fun x => ?_⟩
      cases x with
      | error e => exact trivial
      | ok s =>
        dsimp only
        cases c.toConversion.run s with
        | error e => exact trivial
        | ok bytes =>
          exact ((only_isUpToDate c.output bytes).mono fun r hr => by simp [hr, inquiries]).map _

theorem change_not_mem_requests_survey {σ : Type} (m : Machine σ) (c : Config) (s : σ) (d : Change) :
    .change d ∉ (survey c).requests m s := by
  intro h
  have hmem := (only_survey c).of_mem_requests h
  simp [inquiries] at hmem

/-! ### The survey of a volume -/

variable {F : Places} {v : Volume} {c : Config}

theorem entries_run_survey (F : Places) (v : Volume) (c : Config) :
    ((survey c).run F.machine v).2.entries = v.entries :=
  Places.entries_run_of_not_mem (change_not_mem_requests_survey F.machine c v)

theorem exists_of_run_isUpToDate {path : String} {bytes : List UInt8}
    (h : ((isUpToDate path bytes).run F.machine v).1 = .ok true) :
    ∃ old, v.entries (F.place path) = some (.file old) ∧ Sha256.digest old = Sha256.digest bytes := by
  simp only [isUpToDate, Script.run] at h
  split at h
  · rename_i old hold
    exact ⟨old, Places.entries_of_machine_read hold, by simpa [Script.run] using h⟩
  · cases h
  · cases h

/-- What a survey that did not fail has found. -/
theorem exists_of_run_survey {x : Option (List UInt8)} (h : ((survey c).run F.machine v).1 = .ok x) :
    c.Valid F v.entries ∧ ∃ s bytes, v.entries (F.place c.input) = some (.file s) ∧
      c.toConversion.run s = .ok bytes ∧ (x = some bytes ∨ x = none ∧
        ∃ old, v.entries (F.place c.output) = some (.file old) ∧ Sha256.digest old = Sha256.digest bytes) := by
  rw [survey, Script.run_bind, Config.snd_run_fault?] at h
  cases hvalid : (c.fault?.run F.machine v).1 with
  | some e =>
    rw [hvalid] at h
    cases h
  | none =>
    refine ⟨Config.run_fault?_eq_none_iff.1 hvalid, ?_⟩
    simp only [hvalid, Script.run] at h
    cases hs : (F.machine (.read c.input) v).1 with
    | error e =>
      simp only [hs] at h
      cases h
    | ok s =>
      simp only [hs, Places.snd_machine_read] at h
      cases hbytes : c.toConversion.run s with
      | error e =>
        simp only [hbytes] at h
        cases h
      | ok bytes =>
        simp only [hbytes, Script.run_map] at h
        refine ⟨s, bytes, Places.entries_of_machine_read hs, hbytes, ?_⟩
        split at h
        · cases h
        · rename_i hdate
          cases h
          exact .inr ⟨rfl, exists_of_run_isUpToDate (v := v.next) hdate⟩
        · cases h
          exact .inl rfl

theorem run_survey_eq_ok_none_iff (hv : v.IsReliable) :
    ((survey c).run F.machine v).1 = .ok none ↔
      c.Valid F v.entries ∧ ∃ s bytes old, v.entries (F.place c.input) = some (.file s) ∧
        c.toConversion.run s = .ok bytes ∧ v.entries (F.place c.output) = some (.file old) ∧
        Sha256.digest old = Sha256.digest bytes := by
  constructor
  · intro h
    obtain ⟨hvalid, s, bytes, hs, hbytes, hx | ⟨-, old, hold, hdigest⟩⟩ := exists_of_run_survey h
    · cases hx
    · exact ⟨hvalid, s, bytes, old, hs, hbytes, hold, hdigest⟩
  · rintro ⟨hvalid, s, bytes, old, hs, hbytes, hold, hdigest⟩
    have hnext : v.next.IsReliable := fun n => hv (n + 1)
    have hread := Places.machine_read_of_isReliable (v := v.next) hnext hold
    simp only [survey, Script.run_bind, Config.snd_run_fault?, Config.run_fault?_eq_none_iff.2 hvalid, Script.run,
      Places.machine_read_of_isReliable hv hs, hbytes, Script.run_map, isUpToDate, hread, hdigest, decide_true]

/-! ### The replacement -/

/-- The steps of a replacement, up to the one that changes the file. -/
def preparation (mark path : String) (bytes : List UInt8) : List Change :=
  let temporary := temporaryPath mark path
  [.create temporary, .write temporary bytes, .sync temporary]

variable {mark path : String} {bytes : List UInt8}

theorem replace_eq (mark path : String) (bytes : List UInt8) :
    replace mark path bytes =
      (Script.changes (preparation mark path bytes ++ [.rename (temporaryPath mark path) path])).bind fun
      | .ok () => .done (.ok ())
      | .error e => .ask (.change (.remove (temporaryPath mark path))) fun _ => .done (.error e) :=
  rfl

theorem entries_run_replace_of_ok (h : ((replace mark path bytes).run F.machine v).1 = .ok ()) :
    ((replace mark path bytes).run F.machine v).2.entries =
      Function.update (Function.update v.entries (F.place (temporaryPath mark path)) none) (F.place path)
        (some (.file bytes)) := by
  rw [replace_eq, Script.run_bind] at h ⊢
  split at h
  · rename_i hsteps
    refine (Places.entries_run_changes hsteps).trans ?_
    simp [preparation, Places.effect]
  · cases h

/-- A preparation changes the temporary file only. -/
theorem entries_run_preparation {q : String} (hq : q ≠ F.place (temporaryPath mark path)) :
    ((Script.changes (preparation mark path bytes)).run F.machine v).2.entries q = v.entries q := by
  refine Places.entries_run_of_forall _ fun c hc p hp => ?_
  obtain ⟨c', hmem, hc'⟩ := Script.exists_of_mem_requests_changes hc
  cases hc'
  simp only [preparation, List.mem_cons, List.not_mem_nil, or_false] at hmem
  rcases hmem with rfl | rfl | rfl <;> simp_all [Change.paths, Ne.symm]

theorem entries_run_replace_of_error {e : Errno}
    (unused : v.entries (F.place (temporaryPath mark path)) = none)
    (h : ((replace mark path bytes).run F.machine v).1 = .error e) :
    ((replace mark path bytes).run F.machine v).2.entries = v.entries := by
  rw [replace_eq, Script.run_bind] at h ⊢
  generalize hsteps : (Script.changes (preparation mark path bytes ++
    [.rename (temporaryPath mark path) path])).run F.machine v = steps at h ⊢
  split at h
  · cases h
  · rename_i x hx
    have hbegun : steps.2.entries = ((Script.changes (preparation mark path bytes)).run F.machine v).2.entries := by
      subst hsteps
      exact Places.entries_run_changes_of_error (by simp) hx
    have hfile : steps.2.entries (F.place (temporaryPath mark path)) ≠ some .directory := by
      intro hdirectory
      subst hsteps
      rw [Places.directory_of_run _ hdirectory] at unused
      cases unused
    -- only the temporary file was touched, and removing it leaves its place as empty as before
    refine (Places.entries_machine_remove hfile).trans (funext fun q => ?_)
    by_cases hq : q = F.place (temporaryPath mark path)
    · rw [hq, Function.update_self, unused]
    · rw [Function.update_of_ne hq, hbegun, entries_run_preparation hq]

/-! ### The run -/

theorem slash_not_mem_decimal (n : Nat) : '/' ∉ (Text.decimal n).toList :=
  fun h => absurd (Text.isDigit_of_mem_decimal h) (by decide)

/-- The temporary file is not the one that it replaces. -/
theorem place_temporaryPath_ne {n : String} (hname : Path.fileName? path = some n) (hmark : '/' ∉ mark.toList) :
    F.place (temporaryPath mark path) ≠ F.place path := by
  intro heq
  have hn := Path.isName_of_fileName? hname
  have hlength : (n ++ "." ++ mark ++ ".tmp").toList.length = n.toList.length + mark.toList.length + 5 := by
    have hdot : ".".toList.length = 1 := rfl
    have htmp : ".tmp".toList.length = 4 := rfl
    simp only [String.toList_append, List.length_append, hdot, htmp]
    omega
  have htemporary : Path.IsName (n ++ "." ++ mark ++ ".tmp") := by
    refine ⟨by simp [hn.slash_not_mem, hmark], ?_, ?_, ?_⟩ <;> intro h <;> simp [h] at hlength
  have hplace := F.fileName?_place (Path.fileName?_sibling path htemporary)
  -- places keep the names of paths, and these two names differ in length
  have hnames : some (n ++ "." ++ mark ++ ".tmp") = some n := by
    rw [← hplace, ← F.fileName?_place hname, ← heq, temporaryPath, hname, Option.getD_some]
  rw [Option.some.inj hnames] at hlength
  omega

theorem exists_of_run_eq_written (h : ((run mark c).run F.machine v).1 = .ok .written) :
    c.check = false ∧ ∃ bytes, ((survey c).run F.machine v).1 = .ok (some bytes) ∧
      ((run mark c).run F.machine v).2.entries =
        Function.update (Function.update v.entries (F.place (temporaryPath mark c.output)) none) (F.place c.output)
          (some (.file bytes)) := by
  have hcourse := course_run F.machine mark c v
  generalize (run mark c).run F.machine v = after at h hcourse ⊢
  cases hcourse with
  | written hsurvey hcheck hreplace =>
    refine ⟨hcheck, _, hsurvey, ?_⟩
    rw [entries_run_replace_of_ok hreplace, entries_run_survey]
  | _ => cases h

theorem entries_run_of_ne_written (unused : v.entries (F.place (temporaryPath mark c.output)) = none)
    (h : ((run mark c).run F.machine v).1 ≠ .ok .written) :
    ((run mark c).run F.machine v).2.entries = v.entries := by
  have hsame := entries_run_survey F v c
  have hcourse := course_run F.machine mark c v
  generalize (run mark c).run F.machine v = after at h hcourse ⊢
  cases hcourse with
  | failed | unchanged | stale => exact hsame
  | written => exact absurd rfl h
  | broken hsurvey hcheck hreplace =>
    rw [← hsame] at unused
    exact (entries_run_replace_of_error unused hreplace).trans hsame

/-- A run changes its output as a whole, or nothing; the input stays, and no temporary file does. -/
theorem written_or_untouched (F : Places) (v : Volume) (pid : Nat) (c : Config)
    (unused : v.entries (F.place (temporaryPath (Text.decimal pid) c.output)) = none) :
    let after := (run (Text.decimal pid) c).run F.machine v
    (after.1 ≠ .ok .written → after.2.entries = v.entries) ∧
    (after.1 = .ok .written → c.check = false ∧ ∃ s d t bytes,
      v.entries (F.place c.input) = some (.file s) ∧ Description.load s = .ok d ∧ d.build c.policy = .ok t ∧
      t.emit c.target c.namespaceName = .ok bytes ∧
      after.2.entries = Function.update v.entries (F.place c.output) (some (.file bytes))) ∧
    after.2.entries (F.place c.input) = v.entries (F.place c.input) ∧
    after.2.entries (F.place (temporaryPath (Text.decimal pid) c.output)) = none := by
  intro after
  by_cases h : after.1 = .ok .written
  · obtain ⟨hcheck, bytes, hsurvey, hafter⟩ := exists_of_run_eq_written h
    rw [← unused, Function.update_eq_self] at hafter
    obtain ⟨hvalid, s, bytes', hs, hbytes, hx | ⟨hx, -⟩⟩ := exists_of_run_survey hsurvey
    · cases hx
      obtain ⟨d, t, hd, ht, hemit⟩ := Conversion.run_eq_ok_iff.1 hbytes
      obtain ⟨n, hn⟩ := hvalid.isNamed
      refine ⟨fun hne => absurd h hne, fun _ => ⟨hcheck, s, d, t, bytes, hs, hd, ht, hemit, hafter⟩, ?_, ?_⟩
      · rw [hafter, Function.update_of_ne (hvalid.place_ne hs).symm]
      · rw [hafter, Function.update_of_ne (place_temporaryPath_ne hn (slash_not_mem_decimal pid)), unused]
    · cases hx
  · have hafter := entries_run_of_ne_written unused h
    exact ⟨fun _ => hafter, fun hw => absurd hw h, congrFun hafter _, (congrFun hafter _).trans unused⟩

/-- A disk that is full after five bytes, and one that is not. -/
theorem written_or_untouched_full_disk :
    let F : Places := ⟨id, fun _ => true, id⟩
    let entries : Entries := fun p =>
      if p = "/isa.json" then some (.file (Utf8.encode "\x7b\"registers\": [], \"instructions\": []\x7d")) else none
    let full : Volume := ⟨entries, fun n => if n = 3 then some ⟨.noSpace, 5⟩ else none⟩
    let free : Volume := ⟨entries, fun _ => none⟩
    let c : Config := { target := .bincode, input := "/isa.json", output := "/isa.bin" }
    entries (temporaryPath (Text.decimal 7) c.output) = none ∧
      ((run (Text.decimal 7) c).run F.machine full).1 = .error (.io .noSpace) ∧
      ((run (Text.decimal 7) c).run F.machine full).2.entries = entries ∧
      ((run (Text.decimal 7) c).run F.machine free).1 = .ok .written ∧
      ∃ bytes, ((run (Text.decimal 7) c).run F.machine free).2.entries =
        Function.update entries "/isa.bin" (some (.file bytes)) := by
  intro F entries full free c
  have unused : entries (temporaryPath (Text.decimal 7) c.output) = none := by decide +kernel
  have hfull : ((run (Text.decimal 7) c).run F.machine full).1 = .error (.io .noSpace) := by decide +kernel
  have hfree : ((run (Text.decimal 7) c).run F.machine free).1 = .ok .written := by decide +kernel
  refine ⟨unused, hfull, (written_or_untouched F full 7 c unused).1 (by rw [hfull]; nofun), hfree, ?_⟩
  obtain ⟨-, s, d, t, bytes, -, -, -, -, hafter⟩ := (written_or_untouched F free 7 c unused).2.1 hfree
  exact ⟨bytes, hafter⟩

end OpcodeTables.Generation
