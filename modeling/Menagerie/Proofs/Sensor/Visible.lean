import Mathlib.Data.Prod.Lex
import Menagerie.Proofs.Memory.Change
import Menagerie.Proofs.Sensor.Sense
import Menagerie.Proofs.SortedMap
import Menagerie.Proofs.Task.Act

/-!
# Who is in sight

An agent lists those that it sees (`World.InSight`): all others that live within range, each of them once
(`World.mem_visibleFrom`, `World.nodup_visibleFrom`), the nearest first (`World.pairwise_visibleFrom`). What
the sensor writes is this list, whatever it wrote before (`Sensor.sense_nearestVisible`).
-/

namespace Menagerie

namespace World

variable {w : World} {me : AgentView} {id other : AgentId} {range : Float}

/-! ## The living -/

theorem mem_living (hindexed : w.Indexed) {view : AgentView} :
    view ∈ w.living ↔ w.view? view.id = some view ∧ view.isAlive := by
  unfold living
  rw [List.mem_filter, List.mem_map]
  refine and_congr_left' ?_
  constructor
  · rintro ⟨b, hb, rfl⟩
    obtain ⟨⟨id, _⟩, hentry, rfl⟩ := List.mem_map.mp hb
    have hbody : w.body? id = some _ := SortedMap.get?_eq_some_iff.mpr hentry
    rw [hindexed id _ hbody]
    exact congrArg (Option.map Body.view) hbody
  · intro hview
    obtain ⟨b, hb, hb'⟩ := Option.map_eq_some_iff.mp hview
    exact ⟨b, List.mem_map_of_mem (SortedMap.get?_eq_some_iff.mp hb), hb'⟩

/-- The living go by different numbers. -/
theorem nodup_living (hindexed : w.Indexed) : (w.living.map AgentView.id).Nodup := by
  have hids : w.bodies.values.map (fun b => b.view.id) = w.bodies.keys := by
    unfold SortedMap.values SortedMap.keys
    rw [List.map_map]
    exact List.map_congr_left fun entry hentry =>
      hindexed entry.1 entry.2 (SortedMap.get?_eq_some_iff.mpr hentry)
  have hnodup : ((w.bodies.values.map Body.view).map AgentView.id).Nodup := by
    rw [List.map_map]
    exact hids ▸ w.bodies.nodup_keys
  exact hnodup.sublist (List.filter_sublist.map AgentView.id)

/-! ## Sightings -/

/-- Whether one sees another agent that lives within range. -/
def InSight (w : World) (me : AgentView) (range : Float) (other : AgentId) : Prop :=
  ∃ view, w.view? other = some view ∧ 0.0 < view.health ∧ me.distanceTo view ≤ range

/-- Whether an agent is nearer to one than another, or is as near and has the lower number. -/
def Nearer (w : World) (me : AgentView) (a b : AgentId) : Prop :=
  ∃ view view', w.view? a = some view ∧ w.view? b = some view' ∧
    (Number.orderKey (me.distanceTo view) < Number.orderKey (me.distanceTo view') ∨
      Number.orderKey (me.distanceTo view) = Number.orderKey (me.distanceTo view') ∧ a.number < b.number)

/-- The living within range, and how far away they are. -/
def sightings (w : World) (me : AgentView) (id : AgentId) (range : Float) : List (Float × AgentId) :=
  ((w.living.filter fun other => other.id ≠ id).map fun other => (me.distanceTo other, other.id)).filter
    fun other => other.1 ≤ range

/-- The place of a sighting among all. -/
def sightingRank (sighting : Float × AgentId) : ℤ ×ₗ ℕ :=
  toLex (Number.orderKey sighting.1, sighting.2.number.toNat)

theorem visibleFrom_eq (w : World) (me : AgentView) (id : AgentId) (range : Float) :
    w.visibleFrom me id range =
      ((w.sightings me id range).mergeSort fun a b => sightingRank a ≤ sightingRank b).map Prod.snd := by
  have hbefore : ∀ a b : Float × AgentId, (if Number.orderKey a.1 = Number.orderKey b.1 then
      decide (a.2.number ≤ b.2.number) else decide (Number.orderKey a.1 < Number.orderKey b.1)) =
      decide (sightingRank a ≤ sightingRank b) := by
    intro a b
    unfold sightingRank
    split
    · next heq =>
      simp only [Prod.Lex.toLex_le_toLex, heq, lt_irrefl, true_and, false_or, UInt32.le_iff_toNat_le]
    · next hne => simp only [Prod.Lex.toLex_le_toLex, hne, false_and, or_false]
  unfold visibleFrom sightings
  dsimp only
  simp only [hbefore]

theorem mem_sightings (hindexed : w.Indexed) {sighting : Float × AgentId} :
    sighting ∈ w.sightings me id range ↔ sighting.2 ≠ id ∧ ∃ view, w.view? sighting.2 = some view ∧
      0.0 < view.health ∧ sighting.1 = me.distanceTo view ∧ me.distanceTo view ≤ range := by
  unfold sightings
  rw [List.mem_filter, List.mem_map]
  constructor
  · rintro ⟨⟨view, hview, rfl⟩, hrange⟩
    obtain ⟨hliving, hne⟩ := List.mem_filter.mp hview
    obtain ⟨hview, halive⟩ := (mem_living hindexed).mp hliving
    exact ⟨of_decide_eq_true hne, view, hview, of_decide_eq_true halive, rfl, of_decide_eq_true hrange⟩
  · rintro ⟨hne, view, hview, halive, hdistance, hrange⟩
    have hid : view.id = sighting.2 := by
      obtain ⟨b, hb, rfl⟩ := Option.map_eq_some_iff.mp hview
      exact hindexed _ b hb
    have hliving : view ∈ w.living := by
      refine (mem_living hindexed).mpr ⟨?_, decide_eq_true halive⟩
      rw [hid]
      exact hview
    refine ⟨⟨view, List.mem_filter.mpr ⟨hliving, decide_eq_true (hid ▸ hne)⟩, ?_⟩, ?_⟩
    · rw [hid, ← hdistance]
    · rw [hdistance]
      exact decide_eq_true hrange

theorem nodup_sightings (hindexed : w.Indexed) : ((w.sightings me id range).map Prod.snd).Nodup := by
  have hothers : ((w.living.filter fun other => other.id ≠ id).map AgentView.id).Nodup :=
    (nodup_living hindexed).sublist (List.filter_sublist.map AgentView.id)
  have hlisted : (((w.living.filter fun other => other.id ≠ id).map fun other =>
      (me.distanceTo other, other.id)).map Prod.snd).Nodup := by
    rw [List.map_map]
    exact hothers
  exact hlisted.sublist (List.filter_sublist.map Prod.snd)

/-! ## The list -/

theorem mem_visibleFrom (hindexed : w.Indexed) :
    other ∈ w.visibleFrom me id range ↔ other ≠ id ∧ w.InSight me range other := by
  rw [visibleFrom_eq, List.mem_map]
  constructor
  · rintro ⟨sighting, hsighting, rfl⟩
    obtain ⟨hne, view, hview, halive, _, hrange⟩ :=
      (mem_sightings hindexed).mp ((List.mergeSort_perm _ _).mem_iff.mp hsighting)
    exact ⟨hne, view, hview, halive, hrange⟩
  · rintro ⟨hne, view, hview, halive, hrange⟩
    refine ⟨(me.distanceTo view, other), (List.mergeSort_perm _ _).mem_iff.mpr ?_, rfl⟩
    exact (mem_sightings hindexed).mpr ⟨hne, view, hview, halive, rfl, hrange⟩

theorem nodup_visibleFrom (hindexed : w.Indexed) : (w.visibleFrom me id range).Nodup := by
  rw [visibleFrom_eq]
  exact ((List.mergeSort_perm _ _).map Prod.snd).nodup_iff.mpr (nodup_sightings hindexed)

theorem pairwise_visibleFrom (hindexed : w.Indexed) : (w.visibleFrom me id range).Pairwise (w.Nearer me) := by
  have hnodup : ((w.sightings me id range).mergeSort fun a b =>
      sightingRank a ≤ sightingRank b).Pairwise fun a b => a.2 ≠ b.2 :=
    List.pairwise_map.mp (visibleFrom_eq w me id range ▸ nodup_visibleFrom hindexed)
  have hsorted : ((w.sightings me id range).mergeSort fun a b =>
      sightingRank a ≤ sightingRank b).Pairwise fun a b => decide (sightingRank a ≤ sightingRank b) := by
    refine List.pairwise_mergeSort ?_ ?_ _
    · exact fun a b c hab hbc => decide_eq_true ((of_decide_eq_true hab).trans (of_decide_eq_true hbc))
    · intro a b
      rw [Bool.or_eq_true, decide_eq_true_iff, decide_eq_true_iff]
      exact le_total _ _
  rw [visibleFrom_eq, List.pairwise_map]
  refine (hsorted.and hnodup).imp_of_mem fun {a b} ha hb hab => ?_
  obtain ⟨_, view, hview, _, hdistance, _⟩ :=
    (mem_sightings hindexed).mp ((List.mergeSort_perm _ _).mem_iff.mp ha)
  obtain ⟨_, view', hview', _, hdistance', _⟩ :=
    (mem_sightings hindexed).mp ((List.mergeSort_perm _ _).mem_iff.mp hb)
  refine ⟨view, view', hview, hview', ?_⟩
  have hrank : sightingRank a ≤ sightingRank b := of_decide_eq_true hab.1
  have hnumber : a.2.number.toNat ≠ b.2.number.toNat := fun heq =>
    hab.2 (congrArg AgentId.mk (UInt32.toNat_inj.mp heq))
  unfold sightingRank at hrank
  rw [Prod.Lex.toLex_le_toLex] at hrank
  rw [← hdistance, ← hdistance', UInt32.lt_iff_toNat_lt]
  exact hrank.imp_right fun hle => ⟨hle.1, lt_of_le_of_ne hle.2 hnumber⟩

end World

namespace Sensor

variable {settings : SensorSettings} {w : World} {id : AgentId} {b : Body}

/-- The sensor writes the list of those in sight, and nothing else. -/
theorem sense_nearestVisible (settings : SensorSettings) (hb : w.body? id = some b)
    (hkey : b.memory.isRegistered .nearestVisibleAgents) :
    (ofKind settings .nearestVisible).sense id w =
      (.ok (), w.mapMemory id fun m => m.put .nearestVisibleAgents
        (some (.agents (w.visibleFrom b.view id settings.visibleRange), none))) := by
  have hperceived : (ofKind settings .nearestVisible).perceive id w =
      [.store .nearestVisibleAgents (.agents (w.visibleFrom b.view id settings.visibleRange))] := by
    show nearestVisible settings.visibleRange id w = _
    unfold nearestVisible World.view?
    rw [hb]
    rfl
  unfold sense
  rw [hperceived, World.updateMemories, World.updateMemory_store hb rfl hkey]
  rfl

end Sensor

end Menagerie
