import OpcodeTables.Proofs.CommandLine
import OpcodeTables.Proofs.FileSystem.Disk

/-!
# Runs on disks

A run names three paths only (`only_run`). Where each of them names an entry of a directory that is there, a run on a
disk without links does what it does over the volume of the disk (`run_disk`), and what holds of runs over volumes holds
on the disk: without a new output, all files are as they were (`untouched_disk`), and a rerun leaves the disk alone
(`rerun_disk`).
-/

namespace OpcodeTables.Generation

/-- A request of a run. -/
structure Concerns (mark : String) (c : Config) (r : Request) : Prop where
  paths : ∀ p ∈ r.paths, p ∈ [c.input, c.output, temporaryPath mark c.output]
  renamed : ∀ source target, r = .change (.rename source target) → source = temporaryPath mark c.output

theorem only_replace (mark : String) (c : Config) (bytes : List UInt8) :
    (replace mark c.output bytes).Only (Concerns mark c) := by
  refine (Script.only_changes fun d hd => ?_).bind fun x => ?_
  · simp only [List.mem_cons, List.not_mem_nil, or_false] at hd
    rcases hd with rfl | rfl | rfl | rfl
    all_goals exact ⟨by simp [Request.paths], by simp⟩
  · cases x with
    | error e => exact ⟨⟨by simp [Request.paths], by simp⟩, fun _ => trivial⟩
    | ok u => exact trivial

theorem only_run (mark : String) (c : Config) : (run mark c).Only (Concerns mark c) := by
  rw [run_eq_survey_bind]
  refine ((only_survey c).mono fun r hr => ?_).bind fun x => ?_
  · simp only [inquiries, List.mem_cons, List.not_mem_nil, or_false] at hr
    rcases hr with rfl | rfl | rfl | rfl
    all_goals exact ⟨by simp [Request.paths], by simp⟩
  · rcases x with e | _ | bytes
    · exact trivial
    · exact trivial
    · by_cases hcheck : c.check = true
      · rw [settle, if_pos hcheck]
        exact trivial
      · rw [settle, if_neg hcheck]
        exact (only_replace mark c bytes).map _

/-- A disk without links on which the paths of a run name entries, and on which no directory has the name of the
temporary file. -/
structure Suits (d : Disk) (mark : String) (c : Config) : Prop where
  isPlain : d.IsPlain
  input : d.IsPlaced c.input
  output : d.IsPlaced c.output
  temporary : d.IsPlaced (temporaryPath mark c.output)
  file : d.node? (Disk.location d.here (temporaryPath mark c.output)) ≠ some .directory

variable {d d' : Disk} {mark : String} {c : Config}

/-- Names alone suit a run in every current directory. -/
theorem suits_of_isName (hd : d.IsPlain)
    (hnames : ∀ p ∈ [c.input, c.output, temporaryPath mark c.output], Path.IsName p ∧ Disk.isTooLong p = false)
    (hfile : d.node? (Disk.location d.here (temporaryPath mark c.output)) ≠ some .directory) : Suits d mark c := by
  have hplaced : ∀ p ∈ [c.input, c.output, temporaryPath mark c.output], d.IsPlaced p :=
    fun p hp => d.isPlaced_of_isName (hnames p hp).1 (hnames p hp).2
  exact ⟨hd, hplaced _ (by simp), hplaced _ (by simp), hplaced _ (by simp), hfile⟩

theorem Suits.admits (h : Suits d mark c) {r : Request} (hr : Concerns mark c r) : d.Admits r where
  placed p hp := by
    have hmem := hr.paths p hp
    simp only [List.mem_cons, List.not_mem_nil, or_false] at hmem
    rcases hmem with rfl | rfl | rfl
    · exact h.input
    · exact h.output
    · exact h.temporary
  file source target heq := by
    rw [hr.renamed source target heq]
    exact h.file

theorem Suits.keep (h : Suits d mark c) (hkeeps : Disk.Keeps d d') (check : Bool) :
    Suits d' mark { c with check } where
  isPlain := hkeeps.isPlain
  input := hkeeps.isPlaced h.isPlain h.input
  output := hkeeps.isPlaced h.isPlain h.output
  temporary := hkeeps.isPlaced h.isPlain h.temporary
  file := by
    rw [hkeeps.here, Ne, hkeeps.directory]
    exact h.file

theorem run_disk (h : Suits d mark c) :
    (run mark c).run (Disk.places d.here).machine d.volume =
        (((run mark c).run Disk.machine d).1, ((run mark c).run Disk.machine d).2.volume) ∧
      Disk.Keeps d ((run mark c).run Disk.machine d).2 :=
  Disk.run_volume _ h.isPlain fun _ hr => h.admits ((only_run mark c).of_mem_requests hr)

theorem isReliable_volume (d : Disk) : d.volume.IsReliable :=
  fun _ => rfl

/-- A run that ends without a new output leaves all files as they were. -/
theorem untouched_disk (h : Suits d mark c)
    (unused : d.node? (Disk.location d.here (temporaryPath mark c.output)) = none)
    (hne : ((run mark c).run Disk.machine d).1 ≠ .ok .written) :
    ((run mark c).run Disk.machine d).2.volume = d.volume := by
  obtain ⟨hrun, -⟩ := run_disk h
  have hentry : d.volume.entries ((Disk.places d.here).place (temporaryPath mark c.output)) = none := by
    rw [Disk.entries_place h.isPlain, unused]
    rfl
  have hentries : ((run mark c).run (Disk.places d.here).machine d.volume).2.entries = d.volume.entries :=
    entries_run_of_ne_written hentry (by rwa [hrun])
  rw [hrun] at hentries
  exact (isReliable_volume d).eq_of_entries (isReliable_volume _) hentries

/-- After a run that has left the right output behind, a rerun leaves the disk as it is. -/
theorem rerun_disk (h : Suits d mark c)
    (hplace : Disk.location d.here (temporaryPath mark c.output) ≠ Disk.location d.here c.input)
    (hdone : ((run mark c).run Disk.machine d).1 = .ok .unchanged ∨ ((run mark c).run Disk.machine d).1 = .ok .written)
    (check : Bool) :
    let first := (run mark c).run Disk.machine d
    (run mark { c with check }).run Disk.machine first.2 = (.ok .unchanged, first.2) := by
  intro first
  obtain ⟨hrun, hkeeps⟩ := run_disk h
  have hne : (Disk.places d.here).place (temporaryPath mark c.output) ≠ (Disk.places d.here).place c.input :=
    fun heq => hplace (Disk.name_inj (Disk.isName_of_mem_location h.isPlain.names _)
      (Disk.isName_of_mem_location h.isPlain.names _) heq)
  have hfirst : ((run mark c).run (Disk.places d.here).machine d.volume).1 = .ok .unchanged ∨
      ((run mark c).run (Disk.places d.here).machine d.volume).1 = .ok .written ∧
        (Disk.places d.here).place (temporaryPath mark c.output) ≠ (Disk.places d.here).place c.input := by
    rw [hrun]
    exact hdone.imp_right fun hwritten => ⟨hwritten, hne⟩
  have hagain := run_again (isReliable_volume d) hfirst mark check
  have hsuits : Suits first.2 mark { c with check } := h.keep hkeeps check
  have hdisk := (run_disk hsuits).1
  rw [hrun] at hagain
  rw [hkeeps.here, hagain, Prod.mk.injEq] at hdisk
  have hcourse := course_run Disk.machine mark { c with check } first.2
  have hunchanged : ((run mark { c with check }).run Disk.machine first.2).1 = .ok .unchanged := hdisk.1.symm
  generalize (run mark { c with check }).run Disk.machine first.2 = after at hunchanged hcourse ⊢
  cases hcourse with
  | unchanged =>
    -- a survey only looks at the disk
    rw [Disk.snd_run_of_only ((only_survey _).mono fun r hr e heq => by simp [heq, inquiries] at hr)]
  | _ => cases hunchanged

/-- A run on a fresh disk with an input. -/
example :
    let d := Disk.fresh.set ["work", "run", "isa.json"]
      (.file (Utf8.encode "\x7b\"registers\": [], \"instructions\": []\x7d"))
    let c : Config := { target := .bincode, input := "isa.json", output := "isa.bin" }
    let first := (run "7" c).run Disk.machine d
    first.1 = .ok .written ∧ (run "7" { c with check := true }).run Disk.machine first.2 = (.ok .unchanged, first.2) := by
  intro d c first
  have hd : d.IsPlain := (Disk.keeps_set Disk.isPlain_fresh (by simp) (by decide +kernel) _).isPlain
  have hwritten : first.1 = .ok .written := by decide +kernel
  have hnames : ∀ p ∈ [c.input, c.output, temporaryPath "7" c.output],
      Path.IsName p ∧ Disk.isTooLong p = false := by
    decide +kernel
  have hsuits : Suits d "7" c := suits_of_isName hd hnames (by decide +kernel)
  exact ⟨hwritten, rerun_disk hsuits (by decide +kernel) (.inr hwritten) true⟩

end OpcodeTables.Generation
