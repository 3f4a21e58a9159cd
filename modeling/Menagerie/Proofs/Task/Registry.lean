import Menagerie.Proofs.Behavior.Weighted
import Menagerie.Proofs.Task.Spec
import Menagerie.Task.Registry

/-!
# What reading promises of task specifications

The weights of a random group are checked as it is read, so that wherever it stands in a document
that was read, every draw picks one of its tasks (`parse_draws`).
-/

namespace Menagerie.TaskSpec

/-- Whether every draw picks an entry, for the tasks that draw on spawning. -/
def Draws : TaskSpec → Prop
  | random _ choices => ∀ x, ∃ i < choices.length, pickWeighted (choices.map Prod.fst) x = some i
  | _ => True

/-- What is checked of the weights of entries. -/
def DrawTime.Fits : (time : DrawTime) → time.Weight → Prop
  | .eachTick, _ => True
  | .onSpawn, w => FitWeight w

theorem DrawTime.fits_of_weightOf {time : DrawTime} {place : Location} {d : Option Document}
    {w : time.Weight} (h : time.weightOf place d = .ok w) : time.Fits w := by
  cases time with
  | eachTick => trivial
  | onSpawn =>
    cases d with
    | none =>
      cases h
      exact ⟨by decide, by decide⟩
    | some d =>
      dsimp only [weightOf] at h
      split at h
      · next w' hw =>
        cases h
        show FitWeight w
        simpa [FitWeight] using (Option.filter_eq_some_iff.mp hw).2
      · cases h

/-- The entries of a table, read one after the other. -/
abbrev EntriesDraw (time : DrawTime) (entries : List (time.Weight × TaskSpec)) : Prop :=
  ∀ entry ∈ entries, time.Fits entry.1 ∧ Every Draws entry.2

/-- A random group whose entries were read and whose sum was checked draws. -/
theorem draws_random {condition : Binding} {choices : List (Float × TaskSpec)}
    (hchoices : EntriesDraw .onSpawn choices)
    (hsum : ¬ (choices.map Prod.fst).foldl (· + ·) 0.0 ≤ 0.0) : Draws (random condition choices) := by
  intro x
  have hfit : ∀ w ∈ choices.map Prod.fst, FitWeight w := by
    rw [List.forall_mem_map]
    exact fun c hc => (hchoices c hc).1
  obtain ⟨i, hi, hpick⟩ := exists_pickWeighted hfit hsum x
  exact ⟨i, by simpa using hi, hpick⟩

mutual

theorem parse_draws {r : Registry} {place : Location} {t : TaskSpec} :
    ∀ {d : Document}, parse r place d = .ok t → Every Draws t
  | .object fields, h => by
    rw [parse] at h
    obtain ⟨kind, hkind, h⟩ := bind_eq_ok.mp h
    split at h
    · obtain ⟨condition, hcondition, h⟩ := bind_eq_ok.mp h
      obtain ⟨tasks, htasks, h⟩ := bind_eq_ok.mp h
      obtain ⟨_, h⟩ := then_eq_ok.mp h
      cases h
      exact .allOf trivial (parseTasks_draws htasks)
    · obtain ⟨condition, hcondition, h⟩ := bind_eq_ok.mp h
      obtain ⟨options, hoptions, h⟩ := bind_eq_ok.mp h
      obtain ⟨_, h⟩ := then_eq_ok.mp h
      cases h
      exact .oneOf trivial fun o ho => (parseEntries_draws hoptions o ho).2
    · obtain ⟨condition, hcondition, h⟩ := bind_eq_ok.mp h
      obtain ⟨choices, hchoices, h⟩ := bind_eq_ok.mp h
      obtain ⟨_, h⟩ := then_eq_ok.mp h
      split at h
      · cases h
      · next hsum =>
        cases h
        have hentries := parseEntries_draws hchoices
        exact .random (draws_random hentries hsum) fun c hc => (hentries c hc).2
    · dsimp only at h
      split at h
      · cases h
      · split at h
        · cases h
          exact .leaf trivial
        · cases h

theorem parseTasks_draws {r : Registry} {place : Location} {name : String} {tasks : List TaskSpec} :
    ∀ {fields : List (String × Document)}, parseTasks r place name fields = .ok tasks →
      ∀ t ∈ tasks, Every Draws t
  | (found, d) :: rest, h => by
    rw [parseTasks] at h
    split at h
    · exact parseTaskList_draws h
    · exact parseTasks_draws h

theorem parseTaskList_draws {r : Registry} {place : Location} {tasks : List TaskSpec} :
    ∀ {d : Document}, parseTaskList r place d = .ok tasks → ∀ t ∈ tasks, Every Draws t
  | .list _, h => parseEach_draws h

theorem parseEach_draws {r : Registry} {place : Location} {i : Nat} {tasks : List TaskSpec} :
    ∀ {items : List Document}, parseEach r place i items = .ok tasks → ∀ t ∈ tasks, Every Draws t
  | [], h => by
    cases h
    simp
  | d :: rest, h => by
    rw [parseEach] at h
    obtain ⟨t, ht, h⟩ := bind_eq_ok.mp h
    obtain ⟨others, hothers, h⟩ := bind_eq_ok.mp h
    cases h
    rw [List.forall_mem_cons]
    exact ⟨parse_draws ht, parseEach_draws hothers⟩

theorem parseEntries_draws {r : Registry} {place : Location} {time : DrawTime} {name : String}
    {entries : List (time.Weight × TaskSpec)} :
    ∀ {fields : List (String × Document)}, parseEntries r place time name fields = .ok entries →
      EntriesDraw time entries
  | (found, d) :: rest, h => by
    rw [parseEntries] at h
    split at h
    · exact parseEntryList_draws h
    · exact parseEntries_draws h

theorem parseEntryList_draws {r : Registry} {place : Location} {time : DrawTime}
    {entries : List (time.Weight × TaskSpec)} :
    ∀ {d : Document}, parseEntryList r place time d = .ok entries → EntriesDraw time entries
  | .list _, h => parseEachEntry_draws h

theorem parseEachEntry_draws {r : Registry} {place : Location} {time : DrawTime} {i : Nat}
    {entries : List (time.Weight × TaskSpec)} :
    ∀ {items : List Document}, parseEachEntry r place time i items = .ok entries →
      EntriesDraw time entries
  | [], h => by
    cases h
    simp
  | d :: rest, h => by
    rw [parseEachEntry] at h
    obtain ⟨entry, hentry, h⟩ := bind_eq_ok.mp h
    obtain ⟨others, hothers, h⟩ := bind_eq_ok.mp h
    cases h
    rw [EntriesDraw, List.forall_mem_cons]
    exact ⟨parseEntry_draws hentry, parseEachEntry_draws hothers⟩

theorem parseEntry_draws {r : Registry} {place : Location} {time : DrawTime}
    {entry : time.Weight × TaskSpec} :
    ∀ {d : Document}, parseEntry r place time d = .ok entry →
      time.Fits entry.1 ∧ Every Draws entry.2
  | .object fields, h => by
    rw [parseEntry] at h
    obtain ⟨task, htask, h⟩ := bind_eq_ok.mp h
    obtain ⟨w, hw, h⟩ := bind_eq_ok.mp h
    cases h
    exact ⟨DrawTime.fits_of_weightOf hw, parseEntryTask_draws htask⟩

theorem parseEntryTask_draws {r : Registry} {place : Location} {all : Fields Document}
    {t : TaskSpec} :
    ∀ {fields : List (String × Document)}, parseEntryTask r place all fields = .ok t → Every Draws t
  | (found, d) :: rest, h => by
    rw [parseEntryTask] at h
    split at h
    · exact parse_draws (then_eq_ok.mp h).2
    · exact parseEntryTask_draws h

end

end Menagerie.TaskSpec
