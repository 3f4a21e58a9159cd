import Menagerie.Proofs.Agent.Turns
import Menagerie.Proofs.Number.Order
import Menagerie.Proofs.Outcome
import Menagerie.Proofs.Task.Pollination

/-!
# Staying at a flower

A leaf that pollinates keeps count of its looks at flowers (`FlowerStay`). It counts the last looks that were
all at one flower, with the agent near it: a look from afar and one at another flower start over
(`Stayed.le_elapsed_iff`). So a pollination is completed just when there have been as many such looks as are
required (`Stayed.finished_iff`). The leaf knows of no time that passes between its looks.
-/

namespace Menagerie

theorem Position.same_trans {p q r : Position} (h : p.same q) (h' : q.same r) : p.same r := by
  unfold same at h h' ⊢
  rw [Bool.and_eq_true, Bool.and_eq_true] at h h' ⊢
  exact ⟨⟨Number.beq_trans h.1.1 h'.1.1, Number.beq_trans h.1.2 h'.1.2⟩, Number.beq_trans h.2 h'.2⟩

namespace FlowerStay

/-- A look at a flower: where it is, and whether the agent is near it. -/
abbrev Look := Position × Bool

/-- Whether looks were all at one flower, with the agent near it. -/
def AtOneFlower (looks : List Look) : Prop :=
  (∀ look ∈ looks, look.2) ∧ looks.Pairwise fun look later => look.1.same later.1

/-- Whether the last so many looks were all at one flower, with the agent near it. -/
def Lasted (n : Nat) (looks : List Look) : Prop :=
  ∃ recent, recent <:+ looks ∧ recent.length = n ∧ AtOneFlower recent

variable {required : UInt64} {looks : List Look} {stay : FlowerStay} {look prior : Look} {n : Nat}

theorem lasted_zero (looks : List Look) : Lasted 0 looks :=
  ⟨[], List.nil_suffix, rfl, List.forall_mem_nil _, .nil⟩

theorem atOneFlower_concat_iff :
    AtOneFlower (looks ++ [look]) ↔ AtOneFlower looks ∧ look.2 ∧ ∀ prior ∈ looks, prior.1.same look.1 := by
  unfold AtOneFlower
  rw [List.forall_mem_append, List.forall_mem_singleton, List.pairwise_append]
  constructor
  · rintro ⟨⟨hnear, hlast⟩, hsame, _, hall⟩
    exact ⟨⟨hnear, hsame⟩, hlast, fun prior hprior => hall prior hprior look (.head _)⟩
  · rintro ⟨⟨hnear, hsame⟩, hlast, hall⟩
    refine ⟨⟨hnear, hlast⟩, hsame, List.pairwise_singleton _ _, fun prior hprior later hlater => ?_⟩
    rw [List.mem_singleton.mp hlater]
    exact hall prior hprior

/-- Looks that lasted end with the last look. -/
theorem lasted_succ_iff : Lasted (n + 1) (looks ++ [look]) ↔
    ∃ before, before <:+ looks ∧ before.length = n ∧ AtOneFlower (before ++ [look]) := by
  constructor
  · rintro ⟨recent, hsuffix, hlength, hflower⟩
    obtain rfl | ⟨before, rfl, hbefore⟩ := List.suffix_concat_iff.mp hsuffix
    · cases hlength
    · rw [List.length_append, List.length_singleton, Nat.add_right_cancel_iff] at hlength
      exact ⟨before, hbefore, hlength, hflower⟩
  · rintro ⟨before, hbefore, hlength, hflower⟩
    refine ⟨before ++ [look], List.suffix_concat_iff.mpr (.inr ⟨before, rfl, hbefore⟩), ?_, hflower⟩
    rw [List.length_append, hlength, List.length_singleton]

theorem lasted_one_iff : Lasted 1 (looks ++ [look]) ↔ look.2 := by
  rw [lasted_succ_iff]
  constructor
  · rintro ⟨before, _, _, hflower⟩
    exact (atOneFlower_concat_iff.mp hflower).2.1
  · intro hnear
    refine ⟨[], List.nil_suffix, rfl, List.forall_mem_singleton.mpr hnear, List.pairwise_singleton _ _⟩

/-- Without the last look one look fewer lasted. -/
theorem Lasted.of_concat (h : Lasted (n + 1) (looks ++ [look])) : Lasted n looks := by
  obtain ⟨before, hbefore, hlength, hflower⟩ := lasted_succ_iff.mp h
  exact ⟨before, hbefore, hlength, (atOneFlower_concat_iff.mp hflower).1⟩

/-- One look more lasts if it is from near, and at the same flower as the last one. -/
theorem lasted_concat_iff : Lasted (n + 2) (looks ++ [prior] ++ [look]) ↔
    look.2 ∧ prior.1.same look.1 ∧ Lasted (n + 1) (looks ++ [prior]) := by
  constructor
  · intro h
    obtain ⟨before, hbefore, hlength, hflower⟩ := lasted_succ_iff.mp h
    obtain ⟨_, hnear, hall⟩ := atOneFlower_concat_iff.mp hflower
    obtain rfl | ⟨_, rfl, _⟩ := List.suffix_concat_iff.mp hbefore
    · cases hlength
    · exact ⟨hnear, hall prior List.mem_concat_self, h.of_concat⟩
  · rintro ⟨hnear, hsame, h⟩
    obtain ⟨before, hbefore, hlength, hflower⟩ := lasted_succ_iff.mp h
    have hall : ∀ earlier ∈ before ++ [prior], earlier.1.same look.1 := by
      rw [List.forall_mem_append, List.forall_mem_singleton]
      exact ⟨fun earlier hearlier =>
        Position.same_trans ((atOneFlower_concat_iff.mp hflower).2.2 earlier hearlier) hsame, hsame⟩
    refine lasted_succ_iff.mpr ⟨before ++ [prior], List.suffix_concat_iff.mpr (.inr ⟨before, rfl, hbefore⟩),
      ?_, atOneFlower_concat_iff.mpr ⟨hflower, hnear, hall⟩⟩
    rw [List.length_append, hlength, List.length_singleton]

/-! ## What a stay counts -/

/-- How many looks a stay has counted after one more. -/
def counted (stay : FlowerStay) (look : Look) : Nat :=
  if look.2 then (if stay.flower.any (·.same look.1) then stay.elapsed.toNat else 0) + 1 else 0

/-- Whether a stay has counted the last looks that were all at one flower with the agent near it, and no more
than the required number is to be counted. -/
structure Counts (required : UInt64) (looks : List Look) (stay : FlowerStay) : Prop where
  le_elapsed_iff : ∀ n, n ≤ stay.elapsed.toNat ↔ Lasted n looks
  flower : stay = {} ∨ ∃ earlier prior, looks = earlier ++ [prior] ∧ stay.flower = some prior.1
  bound : stay.elapsed.toNat ≤ required.toNat - 1

theorem counts_empty (required : UInt64) : Counts required [] {} := by
  refine ⟨fun n => ?_, .inl rfl, Nat.zero_le _⟩
  constructor
  · intro hn
    rw [Nat.le_zero.mp hn]
    exact lasted_zero []
  · rintro ⟨recent, hsuffix, rfl, _⟩
    rw [List.suffix_nil.mp hsuffix]
    exact Nat.zero_le _

/-- One more look is counted just as far as the last looks lasted. -/
theorem Counts.le_counted_iff (h : Counts required looks stay) (look : Look) (n : Nat) :
    n ≤ stay.counted look ↔ Lasted n (looks ++ [look]) := by
  unfold counted
  match n with
  | 0 => exact iff_of_true (Nat.zero_le _) (lasted_zero _)
  | 1 =>
    rw [lasted_one_iff]
    split
    · next hnear => exact iff_of_true (Nat.le_add_left 1 _) hnear
    · next hfar => exact iff_of_false (by decide) hfar
  | n + 2 =>
    by_cases hnear : look.2
    · rw [if_pos hnear, ← Nat.add_assoc n 1 1, Nat.add_le_add_iff_right]
      obtain rfl | ⟨earlier, prior, rfl, hflower⟩ := h.flower
      · refine iff_of_false (Nat.not_succ_le_zero _) fun hlasted => ?_
        exact Nat.not_succ_le_zero _ ((h.le_elapsed_iff _).mpr hlasted.of_concat)
      · rw [hflower, lasted_concat_iff, ← h.le_elapsed_iff]
        show n + 1 ≤ (if prior.1.same look.1 then stay.elapsed.toNat else 0) ↔ _
        split
        · next hsame => exact ⟨fun hn => ⟨hnear, hsame, hn⟩, fun hn => hn.2.2⟩
        · next hother => exact iff_of_false (Nat.not_succ_le_zero _) fun hn => hother hn.2.1
    · rw [if_neg hnear]
      refine iff_of_false (Nat.not_succ_le_zero _) fun hlasted => hnear ?_
      obtain ⟨before, _, _, hflower⟩ := lasted_succ_iff.mp hlasted
      exact (atOneFlower_concat_iff.mp hflower).2.1

/-- What a look comes to by what has been counted then. -/
theorem Counts.visit_eq (h : Counts required looks stay) (look : Look) :
    ∃ arrived, stay.visit required look.2 look.1 =
      if look.2 then
        if stay.counted look < required.toNat then
          (⟨UInt64.ofNat (stay.counted look), some look.1⟩, arrived, .staying)
        else ({}, arrived, .finished)
      else ({}, arrived, .away) := by
  obtain ⟨flower, near⟩ := look
  cases near with
  | false => exact ⟨false, rfl⟩
  | true =>
    let known := stay.flower.any fun known => known.same flower
    have hcounted : stay.counted (flower, true) = (if known then stay.elapsed.toNat else 0) + 1 := rfl
    have helapsed : (if !known then 0 else stay.elapsed) + 1 = UInt64.ofNat (stay.counted (flower, true)) := by
      rw [hcounted, UInt64.ofNat_add]
      cases known with
      | true => exact congrArg (· + 1) UInt64.ofNat_toNat.symm
      | false => rfl
    have hlt : UInt64.ofNat (stay.counted (flower, true)) < required ↔
        stay.counted (flower, true) < required.toNat := by
      have hbound := h.bound
      have hrequired := required.toNat_lt
      have hsmall : stay.counted (flower, true) < UInt64.size := by
        rw [hcounted]
        show _ < 2 ^ 64
        split <;> omega
      rw [UInt64.lt_iff_toNat_lt, UInt64.toNat_ofNat_of_lt' hsmall]
    refine ⟨!known, ?_⟩
    unfold visit
    show (if (if !known then 0 else stay.elapsed) + 1 < required then
      (⟨(if !known then 0 else stay.elapsed) + 1, some flower⟩, !known, .staying)
      else (({} : FlowerStay), !known, Visit.finished)) = _
    rw [helapsed, if_pos rfl]
    simp only [hlt]

theorem Counts.finished_iff (h : Counts required looks stay) (look : Look) :
    (stay.visit required look.2 look.1).2.2 = .finished ↔
      Lasted (max 1 required.toNat) (looks ++ [look]) := by
  rw [← h.le_counted_iff]
  obtain ⟨arrived, hvisit⟩ := h.visit_eq look
  rw [hvisit]
  by_cases hnear : look.2
  · have hpositive : 1 ≤ stay.counted look := (h.le_counted_iff look 1).mpr (lasted_one_iff.mpr hnear)
    rw [if_pos hnear]
    split
    · next hfew => exact iff_of_false nofun (by omega)
    · next henough => exact iff_of_true rfl (by omega)
  · have hnone : stay.counted look = 0 := if_neg hnear
    rw [if_neg hnear]
    exact iff_of_false nofun (by omega)

/-- A look that completes nothing is counted with those before. -/
theorem Counts.next (h : Counts required looks stay)
    (hunfinished : (stay.visit required look.2 look.1).2.2 ≠ .finished) :
    Counts required (looks ++ [look]) (stay.visit required look.2 look.1).1 := by
  have hcounted := h.le_counted_iff look
  obtain ⟨arrived, hvisit⟩ := h.visit_eq look
  rw [hvisit] at hunfinished ⊢
  by_cases hnear : look.2
  · rw [if_pos hnear] at hunfinished ⊢
    by_cases hfew : stay.counted look < required.toNat
    · have hsmall : stay.counted look < UInt64.size := Nat.lt_trans hfew required.toNat_lt
      have helapsed : (UInt64.ofNat (stay.counted look)).toNat = stay.counted look :=
        UInt64.toNat_ofNat_of_lt' hsmall
      rw [if_pos hfew]
      refine ⟨fun n => ?_, .inr ⟨looks, look, rfl, rfl⟩, ?_⟩
      · rw [helapsed]
        exact hcounted n
      · rw [helapsed]
        omega
    · rw [if_neg hfew] at hunfinished
      exact absurd rfl hunfinished
  · have hnone : stay.counted look = 0 := if_neg hnear
    rw [if_neg hnear]
    rw [hnone] at hcounted
    exact ⟨hcounted, .inl rfl, Nat.zero_le _⟩

end FlowerStay

/-! ## Runs at a flower -/

/-- A leaf after a look at a flower, if there was one. Leaves that do not pollinate keep no count. -/
def Leaf.looked : Leaf → Option FlowerStay.Look → Leaf
  | .pollinateFlower required cooldown stay, some look =>
    .pollinateFlower required cooldown (stay.visit required look.2 look.1).1
  | l, _ => l

namespace LeafRun

variable {r : LeafRun} {required cooldown : UInt64} {stay : FlowerStay} {look : FlowerStay.Look} {id : AgentId}

/-- The look at a flower in a run of a leaf that pollinates. There is none where the requirements do not hold,
or no flower is remembered. -/
def look? (r : LeafRun) : Option FlowerStay.Look :=
  match r.leaf with
  | .pollinateFlower .. =>
    if (r.stage.world.memory? r.env.agent).any fun memory =>
        memory.satisfiesAll r.leaf.needs.requirements then
      (Task.lookAtFlower.runOn r.env r.stage).1.toOption
    else none
  | _ => none

theorem look?_eq (hleaf : r.leaf = .pollinateFlower required cooldown stay) :
    r.look? =
      if (r.stage.world.memory? r.env.agent).any fun memory =>
          memory.satisfiesAll r.leaf.needs.requirements then
        (Task.lookAtFlower.runOn r.env r.stage).1.toOption
      else none := by
  unfold look?
  rw [hleaf]

theorem look?_eq_some_iff (hleaf : r.leaf = .pollinateFlower required cooldown stay) :
    r.look? = some look ↔
      ((r.stage.world.memory? r.env.agent).any fun memory =>
        memory.satisfiesAll r.leaf.needs.requirements) ∧
      (Task.lookAtFlower.runOn r.env r.stage).1 = .ok look := by
  rw [look?_eq hleaf]
  split
  · next hsatisfied =>
    exact ⟨fun h => ⟨hsatisfied, eq_ok_of_toOption h⟩, fun h => by rw [h.2]; rfl⟩
  · next hunsatisfied => exact iff_of_false nofun fun h => hunsatisfied h.1

/-- A pollination is completed by the look that finishes the stay. -/
theorem pollinates_iff_finished (hleaf : r.leaf = .pollinateFlower required cooldown stay)
    (hlook : r.look? = some look) :
    r.Pollinates r.env.agent ↔ (stay.visit required look.2 look.1).2.2 = .finished := by
  obtain ⟨hsatisfied, hok⟩ := (look?_eq_some_iff hleaf).mp hlook
  have hvisit : r.visit? = some (stay.visit required look.2 look.1).2.2 := by
    unfold visit?
    rw [hleaf]
    dsimp only
    rw [hok]
  unfold Pollinates
  rw [hvisit]
  exact ⟨fun h => Option.some.inj h.2.2, fun h => ⟨rfl, hsatisfied, congrArg some h⟩⟩

theorem Pollinates.exists_look? (h : r.Pollinates id) : ∃ look, r.look? = some look := by
  obtain ⟨rfl, hsatisfied, hvisit⟩ := h
  obtain ⟨required, cooldown, stay, flower, near, hleaf, hok, _⟩ := exists_of_visit? hvisit
  exact ⟨(flower, near), (look?_eq_some_iff hleaf).mpr ⟨hsatisfied, hok⟩⟩

/-- What a run leaves of its leaf is what the look of the run does, if there is one. -/
theorem left_eq (r : LeafRun) : r.left = r.leaf.looked r.look? := by
  unfold left
  rw [Leaf.run_eq]
  cases hleaf : r.leaf with
  | pollinateFlower required cooldown stay =>
    rw [look?_eq hleaf, hleaf]
    split
    · unfold Leaf.turn Task.pollinateFlower
      obtain ⟨outcome, s', hrun⟩ : ∃ outcome s', Task.lookAtFlower.runOn r.env r.stage = (outcome, s') :=
        ⟨_, _, rfl⟩
      rw [hrun]
      cases outcome with
      | ok look => rfl
      | error fault => rfl
    · rfl
  | _ =>
    split
    · rfl
    · rfl

end LeafRun

end Menagerie
