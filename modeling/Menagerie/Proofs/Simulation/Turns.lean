import Menagerie.Proofs.Simulation.Inward
import Menagerie.Proofs.SortedMap

/-!
# Leaves that have a turn in each tick

Of the behaviors in a bucket later ones have a turn only where those before them fail, but every bucket has
its turn. So a leaf that is alone in its bucket is run in each tick in which its agent lives and its activity
is active (`Simulation.Orderly.exists_run_of_alone`), whatever the other buckets do.
-/

namespace Menagerie

namespace Leads

variable {ρ σ ω : Type} {view : σ → ω} {before after : ρ → σ} {runs runs' : List ρ} {s s'' : σ}

/-- Between runs there is a state that those before lead to and those after start from. -/
theorem exists_between (h : Leads view before after s (runs ++ runs') s'') :
    ∃ s', Leads view before after s runs s' ∧ Leads view before after s' runs' s'' := by
  induction runs generalizing s with
  | nil => exact ⟨s, rfl, h⟩
  | cons run rest ih =>
    obtain ⟨s', hrest, hlater⟩ := ih h.2
    exact ⟨s', ⟨h.1, hrest⟩, hlater⟩

end Leads

/-! ## A brain -/

/-- Whether a leaf is all that there is in a bucket. -/
def Bucket.isLone (l : Leaf) (b : Bucket) : Bool :=
  match b.behaviors with
  | [⟨.leaf l', _⟩] => l' = l
  | _ => false

theorem Bucket.runs_of_isLone {b : Bucket} {l : Leaf} (h : b.isLone l) (env : ActEnv) (s : Stage) :
    b.runs env s = [⟨env, l, s⟩] := by
  unfold isLone at h
  split at h
  · next l' faults hbehaviors =>
    obtain rfl : l' = l := of_decide_eq_true h
    have hleaf : CountedBehavior.runs env ⟨.leaf l', faults⟩ s = [⟨env, l', s⟩] := by
      unfold CountedBehavior.runs
      rw [Tree.runs]
      rfl
    unfold runs
    rw [hbehaviors, raisedFirst, hleaf, raisedFirst]
    split
    · rfl
    · rfl
  · cases h

namespace Brain

variable {env : ActEnv} {b : Brain} {activity : Activity} {l : Leaf} {buckets : List Bucket}

/-- Whether a leaf is alone in a bucket of an activity. -/
def Alone (b : Brain) (activity : Activity) (l : Leaf) : Prop :=
  ∃ bucket ∈ b.buckets activity, bucket.isLone l

instance (b : Brain) (activity : Activity) (l : Leaf) : Decidable (b.Alone activity l) :=
  inferInstanceAs (Decidable (∃ bucket ∈ b.buckets activity, bucket.isLone l))

theorem exists_run_of_isLone (h : ∃ bucket ∈ buckets, bucket.isLone l) (s : Stage) :
    ∃ r ∈ runsInBuckets env buckets s, r.leaf = l := by
  induction buckets generalizing s with
  | nil =>
    obtain ⟨_, hnone, _⟩ := h
    cases hnone
  | cons first rest ih =>
    rw [runsInBuckets]
    rcases (List.exists_mem_cons_iff _ _ _).mp h with hlone | hlater
    · rw [Bucket.runs_of_isLone hlone]
      exact ⟨_, List.mem_append_left _ List.mem_cons_self, rfl⟩
    · obtain ⟨r, hr, hleaf⟩ := ih hlater (first.tick env s).2
      exact ⟨r, List.mem_append_right _ hr, hleaf⟩

/-- Ticks of other activities leave the buckets of an activity as they are until its turn comes. -/
theorem exists_run_of_active {labels : List Activity} (hactive : activity ∈ labels)
    {activities : SortedMap Activity (List Bucket)} (hbuckets : activities.get? activity = some buckets)
    (h : ∃ bucket ∈ buckets, bucket.isLone l) (s : Stage) :
    ∃ r ∈ runsInActivities env labels activities s, r.leaf = l := by
  induction labels generalizing activities s with
  | nil => cases hactive
  | cons label rest ih =>
    rw [runsInActivities]
    by_cases hlabel : activity = label
    · subst hlabel
      rw [hbuckets]
      obtain ⟨r, hr, hleaf⟩ := exists_run_of_isLone h s
      exact ⟨r, List.mem_append_left _ hr, hleaf⟩
    · have hlater := (List.mem_cons.mp hactive).resolve_left hlabel
      cases activities.get? label with
      | none => exact ih hlater hbuckets s
      | some buckets' =>
        dsimp only
        have hstill : (activities.insert label (tickBuckets env buckets' s).1).get? activity =
            some buckets := by
          rw [SortedMap.get?_insert, if_neg hlabel, hbuckets]
        obtain ⟨r, hr, hleaf⟩ := ih hlater hstill (tickBuckets env buckets' s).2
        exact ⟨r, List.mem_append_right _ hr, hleaf⟩

theorem exists_run_of_alone {s : Stage} {schedule : Schedule} (limit : Nat)
    (hschedule : s.world.schedule? b.agent = some schedule) (hactive : activity ∈ schedule.active)
    (h : b.Alone activity l) : ∃ r ∈ b.runs limit s, r.leaf = l := by
  unfold runs
  rw [hschedule]
  unfold Alone Brain.buckets at h
  cases hbuckets : b.activities.get? activity with
  | none =>
    rw [hbuckets] at h
    obtain ⟨bucket, hnone, _⟩ := h
    cases hnone
  | some found =>
    rw [hbuckets] at h
    exact exists_run_of_active hactive hbuckets h s

end Brain

/-! ## A tick -/

/-- Whether bodies have one schedule. -/
def Body.SameSchedule (b b' : Body) : Prop := b'.schedule = b.schedule

theorem Body.SameSchedule.refl (b : Body) : SameSchedule b b := rfl

theorem Body.SameSchedule.trans {b b' b'' : Body} (h : SameSchedule b b') (h' : SameSchedule b' b'') :
    SameSchedule b b'' :=
  Eq.trans h' h

namespace Simulation

variable {s : Simulation} {id : AgentId} {brain : Brain}

/-- The stage at which an agent has its turn, after those of agents before it. -/
def stageFor (s : Simulation) (id : AgentId) : Stage :=
  SortedMap.Entries.stateAt (thinkFor s.whenThinking.engine.chainLimit) id s.whenThinking.brains.entries
    ⟨s.whenThinking.world, s.whenThinking.random⟩

/-- What an agent runs comes after what agents before it run, each of which runs leaves of its own. -/
theorem exists_runsFrom_eq (limit : Nat) {entries : List (AgentId × Brain)}
    (hentries : ∀ entry ∈ entries, entry.2.agent = entry.1)
    (hbrain : SortedMap.Entries.get? id entries = some brain) (start : Stage) :
    let stage := SortedMap.Entries.stateAt (thinkFor limit) id entries start
    ∃ earlier later,
      runsFrom limit entries start =
        earlier ++ ((if stage.world.isAlive id then brain.runs limit stage else []) ++ later) ∧
      start.Reaches earlier stage ∧ ∀ r ∈ earlier, r.env.agent ≠ id := by
  induction entries generalizing start with
  | nil => cases hbrain
  | cons entry rest ih =>
    obtain ⟨first, firstBrain⟩ := entry
    rw [List.forall_mem_cons] at hentries
    rw [SortedMap.Entries.get?] at hbrain
    rw [runsFrom, SortedMap.Entries.stateAt]
    cases hcompare : compare id first with
    | lt =>
      rw [hcompare] at hbrain
      cases hbrain
    | eq =>
      rw [hcompare] at hbrain
      cases hbrain
      obtain rfl := Std.LawfulEqCmp.eq_of_compare hcompare
      exact ⟨[], _, rfl, rfl, List.forall_mem_nil _⟩
    | gt =>
      rw [hcompare] at hbrain
      have hne : first ≠ id := by
        rintro rfl
        have hself : compare first first = .eq := Std.ReflCmp.compare_self
        rw [hself] at hcompare
        cases hcompare
      obtain ⟨earlier, later, hruns, hreaches, hothers⟩ :=
        ih hentries.2 hbrain (thinkFor limit first firstBrain start).2
      refine ⟨_, later, ?_, (leads_thinkFor limit first firstBrain start).append hreaches, ?_⟩
      · rw [hruns, List.append_assoc]
      · refine List.forall_mem_append.mpr ⟨fun r hr => ?_, hothers⟩
        split at hr
        · rw [firstBrain.agent_of_mem_runs limit start r hr, hentries.1]
          exact hne
        · cases hr

/-- Neither time nor hits nor sensors have a say in what agents are up to. -/
theorem schedule?_whenThinking (s : Simulation) (id : AgentId) :
    s.whenThinking.world.schedule? id = s.world.schedule? id := by
  have hadvanced : s.world.Each Body.SameSchedule s.world.advance := s.world.each_advance fun _ _ => rfl
  have hhit : s.world.advance.Each Body.SameSchedule s.whenSensing.world := by
    refine .foldl Body.SameSchedule.refl Body.SameSchedule.trans _ (fun hit _ w => ?_) _
    exact w.each_damage Body.SameSchedule.refl hit.attacker hit.victim hit.damage fun _ _ => rfl
  have hsensed : s.whenSensing.world.Each Body.SameSchedule s.whenThinking.world :=
    s.each_sense Body.SameSchedule.refl Body.SameSchedule.trans fun _ _ => rfl
  have hall : s.world.Each Body.SameSchedule s.whenThinking.world :=
    hadvanced.trans Body.SameSchedule.trans <| hhit.trans Body.SameSchedule.trans hsensed
  exact optionRel_map (fun hsame => hsame) (hall id)

/-- The agents before an agent change neither whether it lives nor what it is up to. -/
theorem Orderly.exists_runs_eq (h : s.Orderly) (hbrain : s.brains.get? id = some brain) :
    (s.stageFor id).world.isAlive id = s.whenThinking.world.isAlive id ∧
      (s.stageFor id).world.schedule? id = s.world.schedule? id ∧
      ∃ earlier later, s.runs = earlier ++
        ((if (s.stageFor id).world.isAlive id then
          brain.runs s.whenThinking.engine.chainLimit (s.stageFor id) else []) ++ later) := by
  have hentries : ∀ entry ∈ s.whenThinking.brains.toList, entry.2.agent = entry.1 := fun entry hentry =>
    h.assigned entry.1 entry.2 (SortedMap.get?_eq_some_iff.mpr hentry)
  obtain ⟨earlier, later, hruns, hreaches, hothers⟩ := exists_runsFrom_eq
    s.whenThinking.engine.chainLimit hentries hbrain ⟨s.whenThinking.world, s.whenThinking.random⟩
  have hsame := (hreaches.rel World.Indexed
    (fun w w' => w'.isAlive id = w.isAlive id ∧ w'.schedule? id = w.schedule? id)
    (fun _ => ⟨rfl, rfl⟩) (fun h h' => ⟨h'.1.trans h.1, h'.2.trans h.2⟩)
    (fun r hr hindexed => by
      have htouched := r.touched hindexed
      refine ⟨hindexed.of_touched htouched, htouched.isAlive id, ?_⟩
      have hother := htouched.others id (hothers r hr).symm
      exact optionRel_map (fun halike => by rw [halike.rest]) hother)
    h.whenThinking.world.indexed).2
  exact ⟨hsame.1, hsame.2.trans (s.schedule?_whenThinking id), earlier, later, hruns⟩

/-- A leaf that is alone in its bucket is run in each tick in which its agent lives and its activity is
active. -/
theorem Orderly.exists_run_of_alone (h : s.Orderly) (hbrain : s.brains.get? id = some brain)
    (halive : s.whenThinking.world.isAlive id) {activity : Activity} {l : Leaf}
    (halone : brain.Alone activity l) {b : Body} (hb : s.world.body? id = some b)
    (hactive : activity ∈ b.schedule.active) : ∃ r ∈ s.runs, r.env.agent = id ∧ r.leaf = l := by
  obtain ⟨hlives, hschedule, earlier, later, hruns⟩ := h.exists_runs_eq hbrain
  have hagent : brain.agent = id := h.assigned id brain hbrain
  have hown : (s.stageFor id).world.schedule? brain.agent = some b.schedule := by
    rw [hagent, hschedule]
    exact congrArg (Option.map Body.schedule) hb
  obtain ⟨r, hr, hleaf⟩ :=
    Brain.exists_run_of_alone s.whenThinking.engine.chainLimit hown hactive halone
  refine ⟨r, ?_, (brain.agent_of_mem_runs _ _ r hr).trans hagent, hleaf⟩
  rw [hruns, if_pos (hlives.trans halive)]
  exact List.mem_append_right _ (List.mem_append_left _ hr)

end Simulation

end Menagerie
