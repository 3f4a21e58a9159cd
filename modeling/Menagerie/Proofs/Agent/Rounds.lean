import Menagerie.Proofs.Agent.Faults
import Menagerie.Proofs.SortedMap

/-!
# What a tick of a brain is meant to be

The meaning of a tick is given apart from the loops that carry it out. A turn of a bucket is told by the place
of the first behavior that succeeds, if one does (`BucketTurn.Fair`): those up to it are ticked, each in the
stage that the one before it left, and those behind it stay as they are. A tick of a brain is one turn for each
bucket of the activities that are active at its start (`Brain.rounds`), one after the other (`Brain.Plays`).
There is one way only for turns to go (`Brain.Plays.unique`), and a tick goes that way (`Brain.follows_tick`).
-/

namespace Menagerie

/-! ## One bucket -/

/-- What is left of a behavior that is ticked. Where it faults, it counts one fault more. -/
def CountedBehavior.after (env : ActEnv) (c : CountedBehavior) (s : Stage) : CountedBehavior :=
  let t := c.behavior.tick env s
  ⟨t.node, if t.outcome.toBool then c.faults else c.faults + 1⟩

namespace Bucket

/-- The stage in which the behavior at a place is ticked, where all before it are. -/
def stageAt (env : ActEnv) (behaviors : List CountedBehavior) (s : Stage) (place : Nat) : Stage :=
  (behaviors.take place).foldl (fun s c => (c.behavior.tick env s).state) s

/-- What the tick of the behavior at a place comes to, where all before it are ticked. -/
def outcomeAt? (env : ActEnv) (behaviors : List CountedBehavior) (s : Stage) (place : Nat) :
    Option (Except TaskFault Status) :=
  behaviors[place]?.map fun c => (c.behavior.tick env (stageAt env behaviors s place)).outcome

/-- Whether a place is that of the first behavior that succeeds; it is none where no behavior does. A behavior
that faults does not succeed. -/
structure First (env : ActEnv) (behaviors : List CountedBehavior) (s : Stage) (first? : Option Nat) : Prop where
  succeeds : ∀ place ∈ first?, outcomeAt? env behaviors s place = some (.ok .success)
  before : ∀ place, (∀ first ∈ first?, place < first) →
    outcomeAt? env behaviors s place ≠ some (.ok .success)

/-- How many behaviors are ticked, given the place of the first that succeeds. -/
def turnsTo (behaviors : List CountedBehavior) (first? : Option Nat) : Nat :=
  first?.elim behaviors.length (· + 1)

/-- The behaviors where as many as said are ticked. The others stay as they are. -/
def afterTurns (env : ActEnv) (behaviors : List CountedBehavior) (s : Stage) (turns : Nat) :
    List CountedBehavior :=
  behaviors.mapIdx fun place c => if place < turns then c.after env (stageAt env behaviors s place) else c

/-- How many behaviors fault where as many as said are ticked. -/
def faultsIn (env : ActEnv) (behaviors : List CountedBehavior) (s : Stage) (turns : Nat) : Nat :=
  (List.range turns).countP fun place => (outcomeAt? env behaviors s place).any fun outcome => !outcome.toBool

section

variable {env : ActEnv} {c : CountedBehavior} {rest behaviors : List CountedBehavior} {s : Stage}

theorem outcomeAt?_zero : outcomeAt? env (c :: rest) s 0 = some (c.behavior.tick env s).outcome := rfl

theorem stageAt_succ (place : Nat) :
    stageAt env (c :: rest) s (place + 1) = stageAt env rest (c.behavior.tick env s).state place := rfl

theorem afterTurns_zero : afterTurns env behaviors s 0 = behaviors := by
  unfold afterTurns
  simp only [Nat.not_lt_zero, if_false]
  exact List.ext_getElem (List.length_mapIdx) fun i _ _ => List.getElem_mapIdx

theorem afterTurns_succ (n : Nat) :
    afterTurns env (c :: rest) s (n + 1) =
      c.after env s :: afterTurns env rest (c.behavior.tick env s).state n := by
  unfold afterTurns
  rw [List.mapIdx_cons, if_pos (Nat.succ_pos n)]
  simp only [Nat.add_lt_add_iff_right, stageAt_succ]
  rfl

theorem faultsIn_succ (n : Nat) :
    faultsIn env (c :: rest) s (n + 1) =
      (c.raised env s).length + faultsIn env rest (c.behavior.tick env s).state n := by
  have hhead : (if (outcomeAt? env (c :: rest) s 0).any fun outcome => !outcome.toBool then 1 else 0) =
      (c.raised env s).length := by
    rw [outcomeAt?_zero]
    unfold CountedBehavior.raised
    cases (c.behavior.tick env s).outcome with
    | ok status => rfl
    | error fault => rfl
  unfold faultsIn
  rw [List.range_succ_eq_map, List.countP_cons, List.countP_map, hhead, Nat.add_comm]
  rfl

/-- Where a behavior does not succeed, the first to do so is the first of those behind it. -/
theorem First.cons {first? : Option Nat} (h : First env rest (c.behavior.tick env s).state first?)
    (hc : (c.behavior.tick env s).outcome ≠ .ok .success) : First env (c :: rest) s (first?.map (· + 1)) where
  succeeds place hplace := by
    obtain ⟨place, hfirst, rfl⟩ := Option.map_eq_some_iff.mp hplace
    exact h.succeeds place hfirst
  before place hplace := by
    cases place with
    | zero => simpa only [outcomeAt?_zero, ne_eq, Option.some.injEq] using hc
    | succ place =>
      refine h.before place fun first hfirst => ?_
      exact Nat.lt_of_succ_lt_succ (hplace _ (Option.mem_map_of_mem _ hfirst))

theorem First.unique {first? other? : Option Nat} (h : First env behaviors s first?)
    (hother : First env behaviors s other?) : first? = other? := by
  -- None of the two comes before the other.
  have hbound {p p' : Option Nat} (hp : First env behaviors s p) (hp' : First env behaviors s p') :
      ∀ place ∈ p, ∃ place' ∈ p', place' ≤ place := by
    intro place hplace
    by_contra hnone
    refine hp'.before place (fun first hfirst => Nat.lt_of_not_le fun hle => ?_) (hp.succeeds place hplace)
    exact hnone ⟨first, hfirst, hle⟩
  cases first? with
  | none =>
    cases other? with
    | none => rfl
    | some place =>
      obtain ⟨_, hmem, _⟩ := hbound hother h place rfl
      cases hmem
  | some place =>
    obtain ⟨place', hplace', hle⟩ := hbound h hother place rfl
    obtain ⟨place'', hplace'', hle'⟩ := hbound hother h place' hplace'
    cases hplace''
    rw [Nat.le_antisymm hle' hle]
    exact hplace'.symm

/-- Ticking the behaviors in order goes up to the first that succeeds, and no fault is passed on. -/
theorem exists_first (env : ActEnv) (behaviors : List CountedBehavior) (s : Stage) :
    ∃ first?, First env behaviors s first? ∧
      firstToApply (CountedBehavior.tick env) behaviors s =
        ⟨.ok (.ofBool first?.isSome), afterTurns env behaviors s (turnsTo behaviors first?),
          stageAt env behaviors s (turnsTo behaviors first?)⟩ ∧
      (raisedFirst (CountedBehavior.tick env) (CountedBehavior.raised env) behaviors s).length =
        faultsIn env behaviors s (turnsTo behaviors first?) := by
  induction behaviors generalizing s with
  | nil =>
    refine ⟨none, ⟨?_, ?_⟩, rfl, rfl⟩
    · rintro _ ⟨⟩
    · rintro _ _ ⟨⟩
  | cons c rest ih =>
    obtain ⟨first?, hfirst, hticked, hraised⟩ := ih (c.behavior.tick env s).state
    have hturns : turnsTo (c :: rest) (first?.map (· + 1)) = turnsTo rest first? + 1 := by
      cases first? with
      | none => rfl
      | some _ => rfl
    -- Where the first behavior does not succeed, the others have their turns.
    have hlater (hc : (c.behavior.tick env s).outcome ≠ .ok .success)
        (htick : c.tick env s = ⟨.ok .failure, c.after env s, (c.behavior.tick env s).state⟩) :
        ∃ first?, First env (c :: rest) s first? ∧
          firstToApply (CountedBehavior.tick env) (c :: rest) s =
            ⟨.ok (.ofBool first?.isSome), afterTurns env (c :: rest) s (turnsTo (c :: rest) first?),
              stageAt env (c :: rest) s (turnsTo (c :: rest) first?)⟩ ∧
          (raisedFirst (CountedBehavior.tick env) (CountedBehavior.raised env) (c :: rest) s).length =
            faultsIn env (c :: rest) s (turnsTo (c :: rest) first?) := by
      refine ⟨first?.map (· + 1), hfirst.cons hc, ?_, ?_⟩
      · rw [firstToApply, htick]
        dsimp only
        rw [hticked, hturns, afterTurns_succ, stageAt_succ, Option.isSome_map]
        rfl
      · rw [raisedFirst, htick]
        dsimp only
        rw [List.length_append, hraised, hturns, faultsIn_succ]
    rcases houtcome : (c.behavior.tick env s).outcome with fault | status
    · have hfaults : (c.behavior.tick env s).outcome ≠ .ok .success := by
        rw [houtcome]
        rintro ⟨⟩
      refine hlater hfaults ?_
      unfold CountedBehavior.tick CountedBehavior.after
      dsimp only
      rw [houtcome]
      rfl
    · have htick : c.tick env s = ⟨.ok status, c.after env s, (c.behavior.tick env s).state⟩ := by
        unfold CountedBehavior.tick CountedBehavior.after
        dsimp only
        rw [houtcome]
        rfl
      cases status with
      | failure =>
        have hfails : (c.behavior.tick env s).outcome ≠ .ok .success := by
          rw [houtcome]
          rintro ⟨⟩
        exact hlater hfails htick
      | success =>
        refine ⟨some 0, ⟨?_, ?_⟩, ?_, ?_⟩
        · rintro _ ⟨⟩
          rw [outcomeAt?_zero, houtcome]
        · exact fun place hplace => absurd (hplace 0 rfl) (Nat.not_lt_zero place)
        · have hafter : afterTurns env (c :: rest) s 1 = c.after env s :: rest := by
            rw [afterTurns_succ, afterTurns_zero]
          rw [firstToApply, htick]
          show _ = (⟨.ok .success, afterTurns env (c :: rest) s 1, _⟩ : Ticked Empty _ Stage)
          rw [hafter]
          rfl
        · rw [raisedFirst, htick]
          show (c.raised env s).length = faultsIn env (c :: rest) s 1
          rw [faultsIn_succ]
          rfl

end

end Bucket

/-! ## Turns -/

/-- A turn of a bucket: of which activity it is, how the turn finds it, and where in it the first behavior
stands that succeeds, if one does. -/
structure BucketTurn where
  label : Activity
  bucket : Bucket
  stage : Stage
  first? : Option Nat

namespace BucketTurn

/-- Whether the place that a turn tells is that of the first behavior that succeeds. -/
def Fair (env : ActEnv) (t : BucketTurn) : Prop := Bucket.First env t.bucket.behaviors t.stage t.first?

def succeeded (t : BucketTurn) : Bool := t.first?.isSome

/-- How many behaviors are ticked. -/
def size (t : BucketTurn) : Nat := Bucket.turnsTo t.bucket.behaviors t.first?

/-- The bucket that a turn leaves. -/
def after (env : ActEnv) (t : BucketTurn) : Bucket :=
  { t.bucket with behaviors := Bucket.afterTurns env t.bucket.behaviors t.stage t.size }

/-- The stage that a turn leaves. -/
def stageAfter (env : ActEnv) (t : BucketTurn) : Stage := Bucket.stageAt env t.bucket.behaviors t.stage t.size

/-- How many of the behaviors that are ticked fault. -/
def faulted (env : ActEnv) (t : BucketTurn) : Nat := Bucket.faultsIn env t.bucket.behaviors t.stage t.size

variable {env : ActEnv} {t : BucketTurn}

/-- A bucket that is ticked has its turn. -/
theorem exists_fair (env : ActEnv) (label : Activity) (b : Bucket) (s : Stage) :
    ∃ first?, (BucketTurn.mk label b s first?).Fair env := by
  obtain ⟨first?, hfirst, _⟩ := Bucket.exists_first env b.behaviors s
  exact ⟨first?, hfirst⟩

/-- What ticking a bucket comes to is told by its turn. -/
theorem Fair.ticked (h : t.Fair env) :
    t.bucket.ticked env t.stage = ⟨.ok (.ofBool t.succeeded), t.after env, t.stageAfter env⟩ := by
  obtain ⟨first?, hfirst, hticked, _⟩ := Bucket.exists_first env t.bucket.behaviors t.stage
  obtain rfl := h.unique hfirst
  unfold Bucket.ticked
  rw [hticked]
  rfl

theorem Fair.tick (h : t.Fair env) : t.bucket.tick env t.stage = (t.after env, t.stageAfter env) := by
  rw [Bucket.tick_eq, h.ticked]

theorem Fair.raised (h : t.Fair env) : (t.bucket.raised env t.stage).length = t.faulted env := by
  obtain ⟨first?, hfirst, _, hraised⟩ := Bucket.exists_first env t.bucket.behaviors t.stage
  obtain rfl := h.unique hfirst
  exact hraised

end BucketTurn

namespace Brain

/-- The priorities of the buckets of an activity, in order. -/
def prioritiesIn (activities : SortedMap Activity (List Bucket)) (label : Activity) : List UInt32 :=
  ((activities.get? label).getD []).map Bucket.priority

/-- The turns there are in a tick: one for each bucket of the given activities, in order. A bucket is told by the
place at which it stands. -/
def rounds (activities : SortedMap Activity (List Bucket)) (labels : List Activity) : List (Activity × Nat) :=
  labels.flatMap fun label => (List.range (prioritiesIn activities label).length).map (label, ·)

/-- The same turns, each bucket told by its priority. -/
def ranks (activities : SortedMap Activity (List Bucket)) (labels : List Activity) : List (Activity × UInt32) :=
  labels.flatMap fun label => (prioritiesIn activities label).map (label, ·)

/-- Whether buckets have their turns one after the other, each as the turns before it left things. -/
inductive Plays (env : ActEnv) : List (Activity × Nat) → SortedMap Activity (List Bucket) → Stage →
    List BucketTurn → SortedMap Activity (List Bucket) → Stage → Prop
  | done {activities : SortedMap Activity (List Bucket)} {s : Stage} : Plays env [] activities s [] activities s
  | turn {label : Activity} {position : Nat} {places : List (Activity × Nat)}
      {activities after : SortedMap Activity (List Bucket)} {buckets : List Bucket} {bucket : Bucket}
      {first? : Option Nat} {log : List BucketTurn} {s s' : Stage} {t : BucketTurn}
      (hturn : t = ⟨label, bucket, s, first?⟩)
      (hbuckets : activities.get? label = some buckets) (hbucket : buckets[position]? = some bucket)
      (hfair : t.Fair env)
      (hrest : Plays env places (activities.insert label (buckets.set position (t.after env))) (t.stageAfter env)
        log after s') :
      Plays env ((label, position) :: places) activities s (t :: log) after s'

section

variable {env : ActEnv} {places places' : List (Activity × Nat)} {s s' s'' : Stage} {log log' : List BucketTurn}
  {activities activities' activities'' : SortedMap Activity (List Bucket)}

theorem Plays.append (h : Plays env places activities s log activities' s')
    (h' : Plays env places' activities' s' log' activities'' s'') :
    Plays env (places ++ places') activities s (log ++ log') activities'' s'' := by
  induction h with
  | done => exact h'
  | turn hturn hbuckets hbucket hfair _ ih => exact .turn hturn hbuckets hbucket hfair (ih h')

/-- Every turn is that of a first behavior that succeeds, or of none that does. -/
theorem Plays.fair (h : Plays env places activities s log activities' s') : ∀ t ∈ log, t.Fair env := by
  induction h with
  | done => exact nofun
  | turn _ _ _ hfair _ ih => exact List.forall_mem_cons.mpr ⟨hfair, ih⟩

/-- Given where they start, turns go one way only. -/
theorem Plays.unique (h : Plays env places activities s log activities' s')
    (h' : Plays env places activities s log' activities'' s'') :
    log' = log ∧ activities'' = activities' ∧ s'' = s' := by
  induction h generalizing log' with
  | done =>
    cases h'
    exact ⟨rfl, rfl, rfl⟩
  | turn hturn hbuckets hbucket hfair _ ih =>
    cases h' with
    | turn hturn' hbuckets' hbucket' hfair' hrest' =>
      subst hturn hturn'
      obtain rfl := Option.some.inj (hbuckets.symm.trans hbuckets')
      obtain rfl := Option.some.inj (hbucket.symm.trans hbucket')
      obtain rfl := hfair.unique hfair'
      obtain ⟨rfl, rfl, rfl⟩ := ih hrest'
      exact ⟨rfl, rfl, rfl⟩

/-! ## The buckets of an activity -/

/-- What is known of the turns of buckets besides the order in which they go. -/
structure Accounts (env : ActEnv) (log : List BucketTurn) (order : List (Activity × UInt32)) (ran : Nat)
    (raised : List TaskFault) : Prop where
  order : log.map (fun t => (t.label, t.bucket.priority)) = order
  ran : log.countP BucketTurn.succeeded = ran
  raised : totalFaults (BucketTurn.faulted env) log = raised.length

/-- Ticking the buckets of an activity that are left gives each of them its turn. -/
theorem plays_tickBuckets (env : ActEnv) {label : Activity} (before buckets : List Bucket) (s : Stage)
    (hbuckets : activities.get? label = some (before ++ buckets)) :
    ∃ log, Plays env ((List.range' before.length buckets.length).map (label, ·)) activities s log
        (activities.insert label (before ++ (tickBuckets env buckets s).1)) (tickBuckets env buckets s).2 ∧
      Accounts env log (buckets.map fun bucket => (label, bucket.priority)) (ranInBuckets env buckets s)
        (raisedInBuckets env buckets s) := by
  induction buckets generalizing activities before s with
  | nil =>
    refine ⟨[], ?_, rfl, rfl, rfl⟩
    have hsame : activities.insert label (before ++ (tickBuckets env [] s).1) = activities :=
      SortedMap.insert_of_get?_eq_some hbuckets
    rw [hsame]
    exact .done
  | cons bucket rest ih =>
    obtain ⟨first?, hfair⟩ := BucketTurn.exists_fair env label bucket s
    set t : BucketTurn := ⟨label, bucket, s, first?⟩ with ht
    have htick : bucket.tick env s = (t.after env, t.stageAfter env) := hfair.tick
    have hticked : bucket.ticked env s = ⟨.ok (.ofBool t.succeeded), t.after env, t.stageAfter env⟩ :=
      hfair.ticked
    have hbucket : (before ++ bucket :: rest)[before.length]? = some bucket := by
      rw [List.getElem?_append_right (Nat.le_refl _), Nat.sub_self, List.getElem?_cons_zero]
    have hset : (before ++ bucket :: rest).set before.length (t.after env) = (before ++ [t.after env]) ++ rest := by
      rw [List.set_append_right _ _ (Nat.le_refl _), Nat.sub_self, List.set_cons_zero, List.append_assoc]
      rfl
    have hafter : (activities.insert label ((before ++ bucket :: rest).set before.length (t.after env))).get? label =
        some ((before ++ [t.after env]) ++ rest) := by
      rw [SortedMap.get?_insert, if_pos rfl, hset]
    obtain ⟨log, hplays, haccounts⟩ := ih (before ++ [t.after env]) (t.stageAfter env) hafter
    refine ⟨t :: log, ?plays, ?order, ?ran, ?raised⟩
    case plays =>
      have hall : tickBuckets env (bucket :: rest) s =
          (t.after env :: (tickBuckets env rest (t.stageAfter env)).1,
            (tickBuckets env rest (t.stageAfter env)).2) := by
        rw [tickBuckets, htick]
      rw [hall, List.length_cons, List.range'_succ, List.map_cons]
      refine .turn ht hbuckets hbucket hfair ?_
      rw [SortedMap.insert_insert, List.length_append, List.append_assoc] at hplays
      exact hplays
    case order => rw [List.map_cons, haccounts.order, List.map_cons]
    case ran =>
      rw [ranInBuckets, hticked, List.countP_cons, haccounts.ran]
      cases t.succeeded with
      | true => rfl
      | false => rfl
    case raised =>
      rw [raisedInBuckets, List.length_append, totalFaults_cons, haccounts.raised, htick]
      exact congrArg (· + _) hfair.raised.symm

theorem priorities_tickBuckets (buckets : List Bucket) (s : Stage) :
    (tickBuckets env buckets s).1.map Bucket.priority = buckets.map Bucket.priority := by
  induction buckets generalizing s with
  | nil => rfl
  | cons bucket rest ih =>
    rw [tickBuckets, List.map_cons, List.map_cons, ih]
    rfl

/-! ## Activities -/

/-- The buckets of an activity that are ticked keep their priorities. -/
theorem prioritiesIn_insert (env : ActEnv) {label : Activity} {buckets : List Bucket}
    (hbuckets : activities.get? label = some buckets) (s : Stage) :
    prioritiesIn (activities.insert label (tickBuckets env buckets s).1) = prioritiesIn activities := by
  funext other
  unfold prioritiesIn
  rw [SortedMap.get?_insert]
  split
  · next heq => rw [heq, hbuckets, Option.getD_some, Option.getD_some, priorities_tickBuckets]
  · rfl

/-- Ticking the buckets of activities in order gives each of them its turn, and nothing else. -/
theorem plays_tickActivities (env : ActEnv) (labels : List Activity)
    (activities : SortedMap Activity (List Bucket)) (s : Stage) :
    ∃ log, Plays env (rounds activities labels) activities s log (tickActivities env labels activities s).1
        (tickActivities env labels activities s).2 ∧
      Accounts env log (ranks activities labels) (ranInActivities env labels activities s)
        (raisedInActivities env labels activities s) ∧
      prioritiesIn (tickActivities env labels activities s).1 = prioritiesIn activities ∧
      ∀ label ∉ labels, (tickActivities env labels activities s).1.get? label = activities.get? label := by
  induction labels generalizing activities s with
  | nil => exact ⟨[], .done, ⟨rfl, rfl, rfl⟩, rfl, fun _ _ => rfl⟩
  | cons label rest ih =>
    rw [tickActivities, ranInActivities, raisedInActivities, rounds, ranks, List.flatMap_cons, List.flatMap_cons]
    cases hbuckets : activities.get? label with
    | none =>
      obtain ⟨log, hplays, haccounts, hpriorities, hothers⟩ := ih activities s
      have hnone : prioritiesIn activities label = [] := by
        unfold prioritiesIn
        rw [hbuckets]
        rfl
      rw [hnone]
      refine ⟨log, hplays, haccounts, hpriorities, ?_⟩
      exact fun other hother => hothers other (List.not_mem_of_not_mem_cons hother)
    | some buckets =>
      obtain ⟨first, hfirst, hhere⟩ := plays_tickBuckets env [] buckets s hbuckets
      obtain ⟨later, hlater, hthere, hpriorities, hothers⟩ :=
        ih (activities.insert label (tickBuckets env buckets s).1) (tickBuckets env buckets s).2
      have hkept := prioritiesIn_insert env hbuckets s
      have hlabel : prioritiesIn activities label = buckets.map Bucket.priority := by
        unfold prioritiesIn
        rw [hbuckets]
        rfl
      have hrounds : rounds (activities.insert label (tickBuckets env buckets s).1) rest =
          rest.flatMap fun label => (List.range (prioritiesIn activities label).length).map (label, ·) := by
        unfold rounds
        rw [hkept]
      have hranks : ranks (activities.insert label (tickBuckets env buckets s).1) rest =
          rest.flatMap fun label => (prioritiesIn activities label).map (label, ·) := by
        unfold ranks
        rw [hkept]
      rw [hrounds] at hlater
      refine ⟨first ++ later, ?_, ⟨?_, ?_, ?_⟩, hpriorities.trans hkept, ?_⟩
      · rw [hlabel, List.length_map, List.range_eq_range']
        exact hfirst.append hlater
      · rw [List.map_append, hhere.order, hthere.order, hranks, hlabel, List.map_map]
        rfl
      · rw [List.countP_append, hhere.ran, hthere.ran]
      · rw [totalFaults_append, hhere.raised, hthere.raised, ← List.length_append]
      · intro other hother
        rw [List.mem_cons, not_or] at hother
        rw [hothers other hother.2, SortedMap.get?_insert, if_neg hother.1]

end

/-! ## A brain -/

/-- The brains that there can be: those made of tasks, and what ticks leave of them. -/
inductive Arises : Brain → Prop
  | made (agent : AgentId) (table : VariableTable) (tasks : List CompiledTask) (memories : SortedSet MemoryKey)
      (sensors : SortedSet SensorKind) : Arises (ofTasks agent table tasks memories sensors)
  | ticked {b : Brain} (h : Arises b) (limit : Nat) (s : Stage) : Arises (b.tick limit s).1

theorem prioritiesIn_tick (limit : Nat) (b : Brain) (s : Stage) :
    prioritiesIn (b.tick limit s).1.activities = prioritiesIn b.activities := by
  unfold tick
  cases s.world.schedule? b.agent with
  | none => rfl
  | some schedule =>
    obtain ⟨_, _, _, hpriorities, _⟩ := plays_tickActivities ⟨b.agent, limit, b.table⟩ schedule.active b.activities s
    exact hpriorities

/-- The buckets of an activity ascend in priority. -/
theorem Arises.ascending {b : Brain} (h : b.Arises) (label : Activity) :
    (prioritiesIn b.activities label).Pairwise (· < ·) := by
  induction h with
  | ticked _ limit s ih => rwa [prioritiesIn_tick]
  | made agent table tasks memories sensors =>
    unfold prioritiesIn ofTasks
    dsimp only
    rw [SortedMap.get?_map]
    cases (tasks.foldl place .empty).get? label with
    | none => exact .nil
    | some ranks =>
      have hkeys : ((bucketsOf ranks).map Bucket.priority).Sublist ranks.keys := by
        unfold bucketsOf
        rw [List.map_map]
        exact List.filter_sublist.map Prod.fst
      have hranks : ranks.keys.Pairwise fun p p' => compare p p' = .lt := List.pairwise_map.mpr ranks.ascending
      exact (hranks.imp fun hlt => compareOfLessAndEq_eq_lt.mp hlt).sublist hkeys

/-- What is said of a tick of a brain whose activities that are active at the start are given. -/
structure Follows (limit : Nat) (b : Brain) (s : Stage) (labels : List Activity) (log : List BucketTurn) : Prop where
  /-- Each bucket of these activities has its turn, in order. -/
  plays : Plays ⟨b.agent, limit, b.table⟩ (rounds b.activities labels) b.activities s log
    (b.tick limit s).1.activities (b.tick limit s).2
  order : log.map (fun t => (t.label, t.bucket.priority)) = ranks b.activities labels
  ascending : b.Arises → ∀ label, (prioritiesIn b.activities label).Pairwise (· < ·)
  /-- No bucket faults, and each comes to a success where a behavior in it does. -/
  passes : ∀ t ∈ log, (t.bucket.ticked ⟨b.agent, limit, b.table⟩ t.stage).outcome = .ok (.ofBool t.succeeded)
  ran : b.ran limit s = log.countP BucketTurn.succeeded
  faults : (b.tick limit s).1.faults =
    b.faults + totalFaults (BucketTurn.faulted ⟨b.agent, limit, b.table⟩) log
  /-- Activities that are not active at the start stay as they are. -/
  others : ∀ label ∉ labels, (b.tick limit s).1.activities.get? label = b.activities.get? label
  rest : (b.tick limit s).1 = { b with activities := (b.tick limit s).1.activities }

/-- A tick of a brain is what it is meant to be: one turn for each bucket of the activities that are active at
its start, in their order, and it goes one way only. -/
theorem follows_tick (limit : Nat) (b : Brain) (s : Stage) :
    match s.world.schedule? b.agent with
    | none => b.tick limit s = (b, s) ∧ b.ran limit s = 0
    | some schedule => ∃! log, b.Follows limit s schedule.active log := by
  have hfaults := faults_tick limit b s
  cases hschedule : s.world.schedule? b.agent with
  | none =>
    unfold tick ran
    rw [hschedule]
    exact ⟨rfl, rfl⟩
  | some schedule =>
    obtain ⟨log, hplays, haccounts, _, hothers⟩ := plays_tickActivities ⟨b.agent, limit, b.table⟩ schedule.active
      b.activities s
    have htick : b.tick limit s =
        ({ b with activities := (tickActivities ⟨b.agent, limit, b.table⟩ schedule.active b.activities s).1 },
          (tickActivities ⟨b.agent, limit, b.table⟩ schedule.active b.activities s).2) := by
      unfold tick
      rw [hschedule]
    have hran : b.ran limit s = ranInActivities ⟨b.agent, limit, b.table⟩ schedule.active b.activities s := by
      unfold ran
      rw [hschedule]
    have hraised :
        b.raised limit s = raisedInActivities ⟨b.agent, limit, b.table⟩ schedule.active b.activities s := by
      unfold raised
      rw [hschedule]
    have hfollows : b.Follows limit s schedule.active log :=
      { plays := by rw [htick]; exact hplays
        order := haccounts.order
        ascending := Arises.ascending
        passes := fun t ht => congrArg Ticked.outcome (hplays.fair t ht).ticked
        ran := hran.trans haccounts.ran.symm
        faults := by rw [hfaults, haccounts.raised, hraised]
        others := by rw [htick]; exact hothers
        rest := by rw [htick] }
    exact ⟨log, hfollows, fun other hother => (hfollows.plays.unique hother.plays).1⟩

end Brain

end Menagerie
