import Menagerie.Agent.Brain

/-!
# Which faults are raised

A brain only counts the faults of its behaviors. `Brain.raised` lists the faults that a tick raises,
one after the other as the behaviors are ticked; the count goes up by as many as are listed
(`Brain.faults_tick`).
-/

namespace Menagerie

section FirstToApply

variable {ε ν σ φ : Type}

/-- How many faults there are in a list of nodes. -/
def totalFaults (faults : ν → Nat) (nodes : List ν) : Nat := nodes.foldr (fun u n => faults u + n) 0

@[simp] theorem totalFaults_cons (faults : ν → Nat) (n : ν) (rest : List ν) :
    totalFaults faults (n :: rest) = faults n + totalFaults faults rest := rfl

@[simp] theorem totalFaults_append (faults : ν → Nat) (l l' : List ν) :
    totalFaults faults (l ++ l') = totalFaults faults l + totalFaults faults l' := by
  induction l with
  | nil => exact (Nat.zero_add _).symm
  | cons n rest ih =>
    simp only [List.cons_append, totalFaults_cons, ih]
    omega

/-- What ticking nodes in order raises, up to the first that does not fail. -/
def raisedFirst (tick : ν → σ → Ticked ε ν σ) (raised : ν → σ → List φ) : List ν → σ → List φ
  | [], _ => []
  | n :: rest, s =>
    let t := tick n s
    match t.outcome with
    | .ok .failure => raised n s ++ raisedFirst tick raised rest t.state
    | _ => raised n s

theorem totalFaults_firstToApply {tick : ν → σ → Ticked ε ν σ} {raised : ν → σ → List φ}
    {faults : ν → Nat} (h : ∀ n s, faults (tick n s).node = faults n + (raised n s).length)
    (nodes : List ν) (s : σ) :
    totalFaults faults (firstToApply tick nodes s).node =
      totalFaults faults nodes + (raisedFirst tick raised nodes s).length := by
  induction nodes generalizing s with
  | nil => rfl
  | cons n rest ih =>
    have here := h n s
    have others := ih (tick n s).state
    have hstops : totalFaults faults ((tick n s).node :: rest) =
        totalFaults faults (n :: rest) + (raised n s).length := by
      simp only [totalFaults_cons]
      omega
    rw [firstToApply, raisedFirst]
    cases (tick n s).outcome with
    | error e => exact hstops
    | ok status =>
      cases status with
      | success => exact hstops
      | failure =>
        simp only [Ticked.inside, totalFaults_cons, List.length_append]
        omega

end FirstToApply

/-- The fault that a tick of a behavior raises, if it does. -/
def CountedBehavior.raised (env : ActEnv) (c : CountedBehavior) (s : Stage) : List TaskFault :=
  match (c.behavior.tick env s).outcome with
  | .ok _ => []
  | .error fault => [fault]

theorem CountedBehavior.faults_tick (env : ActEnv) (c : CountedBehavior) (s : Stage) :
    (c.tick env s).node.faults = c.faults + (c.raised env s).length := by
  unfold tick raised
  dsimp only
  cases (c.behavior.tick env s).outcome with
  | ok status => rfl
  | error fault => rfl

namespace Bucket

/-- The faults that a tick of a bucket raises. -/
def raised (env : ActEnv) (b : Bucket) (s : Stage) : List TaskFault :=
  raisedFirst (CountedBehavior.tick env) (CountedBehavior.raised env) b.behaviors s

theorem faults_tick (env : ActEnv) (b : Bucket) (s : Stage) :
    (b.tick env s).1.faults = b.faults + (b.raised env s).length :=
  totalFaults_firstToApply (CountedBehavior.faults_tick env) b.behaviors s

end Bucket

namespace Brain

/-- The faults that ticking buckets in order raises. -/
def raisedInBuckets (env : ActEnv) : List Bucket → Stage → List TaskFault
  | [], _ => []
  | b :: rest, s => b.raised env s ++ raisedInBuckets env rest (b.tick env s).2

/-- The faults that ticking the buckets of activities in order raises. -/
def raisedInActivities (env : ActEnv) :
    List Activity → SortedMap Activity (List Bucket) → Stage → List TaskFault
  | [], _, _ => []
  | label :: rest, activities, s =>
    match activities.get? label with
    | none => raisedInActivities env rest activities s
    | some buckets =>
      let (buckets', s') := tickBuckets env buckets s
      raisedInBuckets env buckets s ++
        raisedInActivities env rest (activities.insert label buckets') s'

/-- The faults that a tick of a brain raises. -/
def raised (limit : Nat) (b : Brain) (s : Stage) : List TaskFault :=
  match s.world.schedule? b.agent with
  | none => []
  | some schedule => raisedInActivities ⟨b.agent, limit, b.table⟩ schedule.active b.activities s

theorem faults_tickBuckets (env : ActEnv) (buckets : List Bucket) (s : Stage) :
    totalFaults Bucket.faults (tickBuckets env buckets s).1 =
      totalFaults Bucket.faults buckets + (raisedInBuckets env buckets s).length := by
  induction buckets generalizing s with
  | nil => rfl
  | cons b rest ih =>
    simp only [tickBuckets, raisedInBuckets, totalFaults_cons, ih, Bucket.faults_tick,
      List.length_append]
    omega

theorem faults_tickActivities (env : ActEnv) (labels : List Activity)
    (activities : SortedMap Activity (List Bucket)) (s : Stage) :
    totalFaults Bucket.faults (tickActivities env labels activities s).1.values.flatten =
      totalFaults Bucket.faults activities.values.flatten +
        (raisedInActivities env labels activities s).length := by
  induction labels generalizing activities s with
  | nil => rfl
  | cons label rest ih =>
    rw [tickActivities, raisedInActivities]
    cases hbuckets : activities.get? label with
    | none => exact ih activities s
    | some buckets =>
      have hticked := faults_tickBuckets env buckets s
      obtain ⟨before, after, hold, hnew⟩ :=
        SortedMap.exists_values_insert hbuckets (tickBuckets env buckets s).1
      simp only [ih, hold, hnew, List.flatten_append, List.flatten_cons, totalFaults_append,
        List.length_append]
      omega

/-- A tick adds to the count the faults that it raises. -/
theorem faults_tick (limit : Nat) (b : Brain) (s : Stage) :
    (b.tick limit s).1.faults = b.faults + (b.raised limit s).length := by
  unfold tick raised
  cases s.world.schedule? b.agent with
  | none => rfl
  | some schedule => exact faults_tickActivities _ _ _ _

end Brain

end Menagerie
