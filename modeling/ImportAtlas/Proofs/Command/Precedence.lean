import ImportAtlas.Command.Run

/-!
# Which settings a report goes by

A setting may be given by a flag, by the project file, or be built in, and the
rule is that they count in this order. Whether a flag was given is not kept,
however: the project file fills every value that is still the built-in one. So
a width or format that is given, but happens to be the built-in one, counts as
not given. The interpreter has no built-in value and follows the rule.
-/

namespace ImportAtlas.Settings

variable {α : Type}

def preferred (flag project : Option α) (builtIn : α) : α :=
  flag.getD (project.getD builtIn)

/-- The flag asks for the built-in value and the project file for another. -/
def Hidden (flag project : Option α) (builtIn : α) : Prop :=
  flag = some builtIn ∧ ∃ value, project = some value ∧ value ≠ builtIn

theorem preferred_of_hidden {flag project : Option α} {builtIn : α}
    (h : Hidden flag project builtIn) : project ≠ some (preferred flag project builtIn) := by
  obtain ⟨rfl, value, rfl, hne⟩ := h
  simpa [preferred] using hne

section Filled

variable [DecidableEq α]

def filled (value : α) (project : Option α) (builtIn : α) : α :=
  if value = builtIn then project.getD value else value

theorem filled_filled (value : α) (project : Option α) (builtIn : α) :
    filled (filled value project builtIn) project builtIn = filled value project builtIn := by
  unfold filled
  by_cases hvalue : value = builtIn
  · cases project with
    | none => simp [hvalue]
    | some other => simp [hvalue]
  · simp [hvalue]

theorem filled_getD (flag project : Option α) (builtIn : α) :
    filled (flag.getD builtIn) project builtIn
      = preferred (flag.filter (· ≠ builtIn)) project builtIn := by
  unfold filled preferred
  cases flag with
  | none => simp
  | some value =>
    by_cases hvalue : value = builtIn
    · simp [hvalue, Option.filter]
    · simp [hvalue, Option.filter]

theorem filled_of_hidden {flag project : Option α} {builtIn : α}
    (h : Hidden flag project builtIn) :
    project = some (filled (flag.getD builtIn) project builtIn) := by
  obtain ⟨rfl, value, rfl, -⟩ := h
  simp [filled]

theorem filled_of_not_hidden {flag project : Option α} {builtIn : α}
    (h : ¬Hidden flag project builtIn) :
    filled (flag.getD builtIn) project builtIn = preferred flag project builtIn := by
  unfold filled preferred
  cases flag with
  | none => simp
  | some value =>
    by_cases hvalue : value = builtIn
    · subst hvalue
      cases project with
      | none => simp
      | some other =>
        have hother : other = value := by
          apply Decidable.byContradiction
          intro hne
          exact h ⟨rfl, other, rfl, hne⟩
        simp [hother]
    · simp [hvalue]

/-- The rule is kept unless the flag is hidden. -/
theorem filled_eq_preferred_iff (flag project : Option α) (builtIn : α) :
    filled (flag.getD builtIn) project builtIn = preferred flag project builtIn
      ↔ ¬Hidden flag project builtIn := by
  constructor
  · intro heq hhidden
    apply preferred_of_hidden hhidden
    rw [← heq]
    exact filled_of_hidden hhidden
  · exact filled_of_not_hidden

end Filled

theorem withProject_eq (settings : Settings) (project : ProjectSettings) :
    settings.withProject project = { settings with
      width := filled settings.width project.width defaultWidth
      format := filled settings.format project.format defaultFormat
      python := settings.python <|> project.python } := rfl

theorem withProject_withProject (settings : Settings) (project : ProjectSettings) :
    (settings.withProject project).withProject project = settings.withProject project := by
  have hpython : ((settings.python <|> project.python) <|> project.python)
      = (settings.python <|> project.python) := by
    cases settings.python <;> cases project.python <;> rfl
  simp only [withProject_eq, filled_filled, hpython]

end ImportAtlas.Settings

namespace ImportAtlas.Command

open Settings

def CommandLine.settings (line : CommandLine) (home : Path) : Settings :=
  { Settings.ofFlags (line.cwd.getD home) line.request.flags with
    json := line.json
    verbosity := line.verbosity }

/-- Filling the settings from the project file once is enough. -/
theorem runReport_withProject {context filled : Context} {request : ReportRequest}
    {project : ProjectSettings}
    (hfilled : filled = { context with settings := context.settings.withProject project })
    (hproject : ProjectSettings.find context.tree
      (context.resolve (request.root.getD context.settings.cwd)) = .ok project) :
    runReport context request = runReport filled request := by
  have hsettings : filled.settings.withProject project = context.settings.withProject project := by
    rw [hfilled]
    exact withProject_withProject context.settings project
  have hroot : filled.resolve (request.root.getD filled.settings.cwd)
      = context.resolve (request.root.getD context.settings.cwd) := by
    rw [hfilled]
    rfl
  have hcomplain : filled.complain = context.complain := by
    rw [hfilled]
    rfl
  have htree : filled.tree = context.tree := by rw [hfilled]
  have hpid : filled.pid = context.pid := by rw [hfilled]
  unfold runReport
  rw [hroot, htree, hpid, hcomplain]
  generalize context.resolve (request.root.getD context.settings.cwd) = root at hproject
  dsimp only
  rw [hproject]
  dsimp only
  rw [hsettings]

theorem run_report {tree : FileTree} {pid : Nat} {home : Path} {line : CommandLine}
    {request : ReportRequest} {project : ProjectSettings} {context : Context}
    (hline : line.request = .report request)
    (hcontext : context = { tree, pid, settings := (line.settings home).withProject project })
    (hproject : ProjectSettings.find tree
      (context.resolve (request.root.getD context.settings.cwd)) = .ok project) :
    run tree pid home line = runReport context request := by
  have hrun : run tree pid home line
      = runReport { tree, pid, settings := line.settings home } request := by
    unfold run
    rw [hline]
    unfold CommandLine.settings
    rw [hline]
  rw [hrun]
  apply runReport_withProject hcontext
  rw [hcontext] at hproject
  exact hproject

/--
A report goes by the width and the format that the flag gives, else by those of
the project file, else by the built-in ones, where a flag with the built-in value
counts as not given. So the flag prevails unless it asks for the built-in value
and the project file for another. The interpreter is that of the flag whenever
one is given.
-/
theorem report_preference (line : CommandLine) (home : Path) (project : ProjectSettings) :
    let flags := line.request.flags
    let settings := (line.settings home).withProject project
    (∀ tree pid request, line.request = .report request →
      ProjectSettings.find tree (Context.resolve { tree, pid, settings }
        (request.root.getD settings.cwd)) = .ok project →
      run tree pid home line = runReport { tree, pid, settings } request) ∧
    (settings.width = preferred (flags.width.filter (· ≠ defaultWidth)) project.width defaultWidth ∧
      (settings.width = preferred flags.width project.width defaultWidth
        ↔ ¬Hidden flags.width project.width defaultWidth)) ∧
    (settings.format
        = preferred (flags.format.filter (· ≠ defaultFormat)) project.format defaultFormat ∧
      (settings.format = preferred flags.format project.format defaultFormat
        ↔ ¬Hidden flags.format project.format defaultFormat)) ∧
    settings.python = (flags.python <|> project.python) := by
  intro flags settings
  have hwidth : settings.width
      = filled (flags.width.getD defaultWidth) project.width defaultWidth := rfl
  have hformat : settings.format
      = filled (flags.format.getD defaultFormat) project.format defaultFormat := rfl
  rw [hwidth, hformat]
  refine ⟨?_, ⟨?_, ?_⟩, ⟨?_, ?_⟩, rfl⟩
  · intro tree pid request hline hproject
    exact run_report hline rfl hproject
  · exact filled_getD flags.width project.width defaultWidth
  · exact filled_eq_preferred_iff flags.width project.width defaultWidth
  · exact filled_getD flags.format project.format defaultFormat
  · exact filled_eq_preferred_iff flags.format project.format defaultFormat

/-- A width and a format that are given give way to the project file, for they are the built-in
ones. -/
theorem given_builtIn_gives_way :
    ∃ line request project,
      CommandLine.read ["report", "--width", "70", "--format=2.7"] = .ok line ∧
      line.request = .report request ∧
      ProjectSettings.ofText? "\x7b\"width\": 90, \"format\": \"2.6\"\x7d" = some project ∧
      request.flags.width = some 70 ∧
      ((line.settings ⟨"."⟩).withProject project).width = 90 ∧
      request.flags.format = some "2.7" ∧
      ((line.settings ⟨"."⟩).withProject project).format = "2.6" := by
  have hproject : ProjectSettings.ofText? "\x7b\"width\": 90, \"format\": \"2.6\"\x7d"
      = some { width := some 90, format := some "2.6" } := by
    decide +kernel
  exact ⟨_, _, _, rfl, rfl, hproject, rfl, rfl, rfl, rfl⟩

end ImportAtlas.Command
