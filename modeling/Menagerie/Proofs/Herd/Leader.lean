import Mathlib.Data.Prod.Lex
import Menagerie.Herd.Leader
import Menagerie.Proofs.Selection

/-!
# The best leader

Candidates have ranks (`LeaderCandidate.rank`): first the level, from the highest down, then the distance,
then the number. The leader that a follower is given is an eligible candidate of the least rank, there is one
where any candidate is eligible (`bestLeader?_eq_some_iff`, `bestLeader?_eq_none_iff`), and the order in which
the candidates are looked at has no part in it.
-/

namespace Menagerie

namespace LeaderCandidate

variable {follower : AgentView} {profile : HerdProfile} {aboveLevel : Option UInt32}

/-- What makes a candidate one that `follower` may join. -/
structure Eligible (follower : AgentView) (profile : HerdProfile) (aboveLevel : Option UInt32)
    (c : LeaderCandidate) : Prop where
  other : c.view.id ≠ follower.id
  alive : 0.0 < c.view.health
  /-- An entry for its species, that admits lower levels or that it need not admit one for. -/
  tolerated : ∃ t ∈ profile.toleratedLeaders,
    t.species = c.view.species ∧ (t.allowLowerLevel = true ∨ follower.level ≤ c.view.level)
  leaderless : c.following = false
  hasRoom : c.herdSize < c.maxSize
  above : ∀ level, aboveLevel = some level → level < c.view.level

/-- Whether `a` is no worse a leader for `follower` than `b`: of a higher level; or of the same level and
nearer; or as near and with a number that is not higher. -/
def NoWorse (follower : AgentView) (a b : LeaderCandidate) : Prop :=
  b.view.level < a.view.level ∨
    a.view.level = b.view.level ∧
      (distanceKey follower.position a.view.position < distanceKey follower.position b.view.position ∨
        distanceKey follower.position a.view.position = distanceKey follower.position b.view.position ∧
          a.view.id.number ≤ b.view.id.number)

/-- Whether a candidate is eligible and no worse than all that are. -/
structure Best (follower : AgentView) (profile : HerdProfile) (aboveLevel : Option UInt32)
    (candidates : List LeaderCandidate) (c : LeaderCandidate) : Prop where
  mem : c ∈ candidates
  eligible : c.Eligible follower profile aboveLevel
  noWorse : ∀ other ∈ candidates, other.Eligible follower profile aboveLevel → c.NoWorse follower other

theorem matchLeader?_isSome_iff {candidate : AgentView} :
    (profile.matchLeader? follower candidate).isSome ↔ ∃ t ∈ profile.toleratedLeaders,
      t.species = candidate.species ∧ (t.allowLowerLevel = true ∨ follower.level ≤ candidate.level) := by
  unfold HerdProfile.matchLeader?
  rw [List.find?_isSome]
  simp only [Bool.and_eq_true, beq_iff_eq, Bool.or_eq_true, decide_eq_true_eq, ge_iff_le]

theorem qualifies_iff {c : LeaderCandidate} :
    c.qualifies follower profile aboveLevel = true ↔ c.Eligible follower profile aboveLevel := by
  unfold qualifies
  rw [Bool.and_eq_true, Bool.and_eq_true, Bool.and_eq_true, Bool.and_eq_true, Bool.and_eq_true, bne_iff_ne,
    matchLeader?_isSome_iff, Bool.not_eq_true', decide_eq_true_iff]
  constructor
  · rintro ⟨⟨⟨⟨⟨hother, halive⟩, htolerated⟩, hleaderless⟩, hroom⟩, habove⟩
    refine ⟨hother, of_decide_eq_true halive, htolerated, hleaderless, hroom, ?_⟩
    rintro level rfl
    exact of_decide_eq_true habove
  · rintro ⟨hother, halive, htolerated, hleaderless, hroom, habove⟩
    refine ⟨⟨⟨⟨⟨hother, decide_eq_true halive⟩, htolerated⟩, hleaderless⟩, hroom⟩, ?_⟩
    cases aboveLevel with
    | none => rfl
    | some level => exact decide_eq_true (habove level rfl)

/-! ## Ranks -/

/-- The place of a candidate among all: the less, the better. -/
def rank (follower : AgentView) (c : LeaderCandidate) : ℤ ×ₗ ℤ ×ₗ ℕ :=
  toLex (-c.view.level.toNat,
    toLex (distanceKey follower.position c.view.position, c.view.id.number.toNat))

theorem outranks_iff (a b : LeaderCandidate) :
    outranks follower a b = true ↔ a.rank follower < b.rank follower := by
  unfold outranks rank
  rw [Prod.Lex.toLex_lt_toLex, Prod.Lex.toLex_lt_toLex]
  dsimp only
  split
  · next hlevel =>
    have hne : (-a.view.level.toNat : ℤ) ≠ -b.view.level.toNat := by
      intro h
      exact hlevel (UInt32.toNat_inj.mp (by omega))
    rw [decide_eq_true_iff, gt_iff_lt, UInt32.lt_iff_toNat_lt]
    simp only [hne, false_and, or_false]
    omega
  · next hlevel =>
    rw [ne_eq, Decidable.not_not] at hlevel
    simp only [hlevel, lt_irrefl, true_and, false_or]
    split
    · next hdistance => simp only [hdistance, false_and, or_false, decide_eq_true_eq]
    · next hdistance =>
      rw [ne_eq, Decidable.not_not] at hdistance
      simp only [hdistance, lt_irrefl, true_and, false_or, decide_eq_true_eq, UInt32.lt_iff_toNat_lt]

theorem noWorse_iff {a b : LeaderCandidate} : a.NoWorse follower b ↔ a.rank follower ≤ b.rank follower := by
  unfold NoWorse rank
  rw [Prod.Lex.toLex_le_toLex, Prod.Lex.toLex_le_toLex, UInt32.lt_iff_toNat_lt, UInt32.le_iff_toNat_le,
    ← UInt32.toNat_inj]
  dsimp only
  omega

/-- Candidates that rank alike are of one agent. -/
theorem id_eq_of_rank {a b : LeaderCandidate} (h : a.rank follower = b.rank follower) :
    a.view.id = b.view.id := by
  have hnumber : a.view.id.number.toNat = b.view.id.number.toNat :=
    congrArg (fun r => (ofLex (ofLex r).2).2) h
  exact congrArg AgentId.mk (UInt32.toNat_inj.mp hnumber)

end LeaderCandidate

/-! ## The choice -/

open LeaderCandidate

variable {follower : AgentView} {profile : HerdProfile} {aboveLevel : Option UInt32}
  {candidates others : List LeaderCandidate} {leader : AgentId}

theorem mem_qualified_iff {c : LeaderCandidate} :
    c ∈ candidates.filter (qualifies follower profile aboveLevel) ↔
      c ∈ candidates ∧ c.Eligible follower profile aboveLevel := by
  rw [List.mem_filter, qualifies_iff]

theorem bestLeader?_eq_none_iff :
    bestLeader? follower profile candidates aboveLevel = none ↔
      ∀ c ∈ candidates, ¬ c.Eligible follower profile aboveLevel := by
  unfold bestLeader?
  rw [Option.map_eq_none_iff, firstLeast?_eq_none_iff, List.filter_eq_nil_iff]
  simp only [qualifies_iff]

theorem exists_best_of_bestLeader? (h : bestLeader? follower profile candidates aboveLevel = some leader) :
    ∃ c : LeaderCandidate, c.Best follower profile aboveLevel candidates ∧ c.view.id = leader := by
  obtain ⟨c, hc, hid⟩ := Option.map_eq_some_iff.mp h
  obtain ⟨hmem, heligible⟩ := mem_qualified_iff.mp (mem_of_firstLeast? hc)
  refine ⟨c, ⟨hmem, heligible, fun other hother hfit => ?_⟩, hid⟩
  rw [noWorse_iff]
  exact key_le_of_firstLeast? outranks_iff hc other (mem_qualified_iff.mpr ⟨hother, hfit⟩)

/-- The leader is the one agent that has a best candidate. -/
theorem bestLeader?_eq_some_iff :
    bestLeader? follower profile candidates aboveLevel = some leader ↔
      ∃ c : LeaderCandidate, c.Best follower profile aboveLevel candidates ∧ c.view.id = leader := by
  refine ⟨exists_best_of_bestLeader?, ?_⟩
  rintro ⟨c, hc, rfl⟩
  cases hbest : bestLeader? follower profile candidates aboveLevel with
  | none => exact absurd hc.eligible (bestLeader?_eq_none_iff.mp hbest c hc.mem)
  | some leader =>
    obtain ⟨c', hc', rfl⟩ := exists_best_of_bestLeader? hbest
    have hle : c'.rank follower ≤ c.rank follower := noWorse_iff.mp (hc'.noWorse c hc.mem hc.eligible)
    have hge : c.rank follower ≤ c'.rank follower := noWorse_iff.mp (hc.noWorse c' hc'.mem hc'.eligible)
    exact congrArg some (id_eq_of_rank (hle.antisymm hge))

/-- Candidates that are not eligible anyway may be left out. -/
theorem bestLeader?_filter {p : LeaderCandidate → Bool}
    (h : ∀ c ∈ candidates, c.Eligible follower profile aboveLevel → p c = true) :
    bestLeader? follower profile (candidates.filter p) aboveLevel =
      bestLeader? follower profile candidates aboveLevel := by
  have hfilter : (candidates.filter p).filter (qualifies follower profile aboveLevel) =
      candidates.filter (qualifies follower profile aboveLevel) := by
    rw [List.filter_filter]
    refine List.filter_congr fun c hc => ?_
    cases hqualifies : c.qualifies follower profile aboveLevel with
    | false => rfl
    | true => exact h c hc (qualifies_iff.mp hqualifies)
  unfold bestLeader?
  rw [hfilter]

/-- The choice depends on the candidates alone, not on their order or on how often one is listed. -/
theorem bestLeader?_congr (h : ∀ c, c ∈ candidates ↔ c ∈ others) :
    bestLeader? follower profile candidates aboveLevel = bestLeader? follower profile others aboveLevel := by
  have hbest (c : LeaderCandidate) : c.Best follower profile aboveLevel candidates ↔
      c.Best follower profile aboveLevel others := by
    constructor
    · exact fun hc => ⟨(h c).mp hc.mem, hc.eligible, fun o ho => hc.noWorse o ((h o).mpr ho)⟩
    · exact fun hc => ⟨(h c).mpr hc.mem, hc.eligible, fun o ho => hc.noWorse o ((h o).mp ho)⟩
  refine Option.ext fun leader => ?_
  rw [bestLeader?_eq_some_iff, bestLeader?_eq_some_iff]
  simp only [hbest]

/-- No leader is given exactly where no candidate is eligible, else the leader is the one agent that has a best
candidate; and it is the same in whatever order the candidates are looked at. -/
theorem bestLeader?_exact (follower : AgentView) (profile : HerdProfile) (aboveLevel : Option UInt32)
    (candidates : List LeaderCandidate) :
    (bestLeader? follower profile candidates aboveLevel = none ↔
      ∀ c ∈ candidates, ¬ c.Eligible follower profile aboveLevel) ∧
    (∀ leader, bestLeader? follower profile candidates aboveLevel = some leader ↔
      ∃ c : LeaderCandidate, c.Best follower profile aboveLevel candidates ∧ c.view.id = leader) ∧
    ∀ others, candidates.Perm others →
      bestLeader? follower profile others aboveLevel = bestLeader? follower profile candidates aboveLevel := by
  refine ⟨bestLeader?_eq_none_iff, fun leader => bestLeader?_eq_some_iff, ?_⟩
  intro others hperm
  exact bestLeader?_congr fun c => hperm.symm.mem_iff

/-- Wolves of one level: of the two nearest, one of them listed twice, the one with the lower number leads,
whichever is listed first. A follower, a wolf with a full herd and the chooser itself do not. -/
theorem bestLeader?_exact_wolves :
    let wolf (number level : UInt32) (x : Float) : AgentView :=
      { id := ⟨number⟩, species := "wolf", level, health := 20.0, maxHealth := 20.0, position := ⟨x, 0.0, 0.0⟩
        inWater := false, inLava := false }
    let free (view : AgentView) : LeaderCandidate := { view, following := false, herdSize := 0, maxSize := 6 }
    let me := wolf 1 2 0.0
    let profile : HerdProfile := { toleratedLeaders := [⟨"wolf", false⟩] }
    let candidates : List LeaderCandidate :=
      [free me, free (wolf 2 3 5.0), { free (wolf 3 9 1.0) with following := true },
        { free (wolf 4 9 1.0) with herdSize := 6 }, free (wolf 6 3 (-4.0)), free (wolf 5 3 4.0),
        free (wolf 6 3 (-4.0))]
    (∃ c : LeaderCandidate, c.Best me profile none candidates ∧ c.view.id = ⟨5⟩) ∧
      candidates.Perm candidates.reverse ∧ bestLeader? me profile candidates.reverse none = some ⟨5⟩ := by
  intro wolf free me profile candidates
  have hleader : bestLeader? me profile candidates none = some ⟨5⟩ := by decide +kernel
  have hperm : candidates.Perm candidates.reverse := candidates.reverse_perm.symm
  obtain ⟨_, hbest, hcongr⟩ := bestLeader?_exact me profile none candidates
  exact ⟨(hbest ⟨5⟩).mp hleader, hperm, (hcongr _ hperm).trans hleader⟩

end Menagerie
