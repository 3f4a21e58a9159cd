import Menagerie.Proofs.World.Deeds
import Menagerie.Sensor.Sense

/-!
# What sensors do

A sensor that is about the memories of its kind alone is quiet (`quiet_sense`). The built-in sensors
are, and the values that they write are of the kinds of their keys, so that they never fail for an
agent that has these memories registered (`sense_ofKind_eq_ok`).
-/

namespace Menagerie

/-- Whether a value to store is of the kind of its key. -/
def MemoryUpdate.Fits : MemoryUpdate → Prop
  | .store key value | .storeFor key value _ => value.kind = key.kind
  | .clear _ => True

theorem MemoryUpdate.fits_track {key : MemoryKey} {value : Option MemoryValue}
    (h : ∀ v, value = some v → v.kind = key.kind) : (track key value).Fits := by
  cases value with
  | none => trivial
  | some v => exact h v rfl

@[simp] theorem MemoryUpdate.key_track (key : MemoryKey) (value : Option MemoryValue) :
    (track key value).key = key := by
  cases value <;> rfl

theorem Blackboard.quiet_update {m m' : Blackboard} {u : MemoryUpdate} (h : m.update u = .ok m')
    (hkey : u.key ≠ .herdLeader) : m.Quiet m' := by
  have hstore : ∀ {key value expiresAt}, key ≠ .herdLeader →
      m.store key value expiresAt = .ok m' → m.Quiet m' := by
    intro key value expiresAt hne h
    obtain ⟨hkind, _, rfl⟩ := store_eq_ok_iff.mp h
    refine quiet_put ?_ fun heq => absurd heq hne
    rintro _ _ ⟨⟩
    exact hkind
  cases u with
  | store key value => exact hstore hkey h
  | storeFor key value ticks => exact hstore hkey h
  | clear key =>
    cases h
    exact m.quiet_erase key

theorem Blackboard.update_eq_ok {m : Blackboard} {u : MemoryUpdate} (hfits : u.Fits)
    (hkey : m.isRegistered u.key) : ∃ m', m.update u = .ok m' := by
  cases u with
  | store key value => exact ⟨_, store_eq_ok_iff.mpr ⟨hfits, hkey, rfl⟩⟩
  | storeFor key value ticks => exact ⟨_, store_eq_ok_iff.mpr ⟨hfits, hkey, rfl⟩⟩
  | clear key => exact ⟨_, rfl⟩

namespace World

theorem quiet_updateMemory {w w' : World} {id : AgentId} {u : MemoryUpdate}
    (h : w.updateMemory id u = .ok w') (hkey : u.key ≠ .herdLeader) : w.Quiet w' := by
  unfold updateMemory memory? at h
  cases hb : w.body? id with
  | none =>
    simp only [hb, Option.map_none] at h
    cases h
    exact .refl w
  | some b =>
    simp only [hb, Option.map_some] at h
    cases hm : b.memory.update u with
    | error e => simp [hm, Except.map] at h
    | ok m =>
      simp only [hm, Except.map] at h
      cases h
      refine quiet_updateBody fun b' hb' => ?_
      rw [hb] at hb'
      cases hb'
      exact ⟨rfl, Blackboard.quiet_update hm hkey⟩

theorem quiet_updateMemories {w : World} {id : AgentId} {us : List MemoryUpdate}
    (h : ∀ u ∈ us, u.key ≠ .herdLeader) : w.Quiet (w.updateMemories id us).2 := by
  induction us generalizing w with
  | nil => exact .refl w
  | cons u rest ih =>
    rw [List.forall_mem_cons] at h
    rw [updateMemories]
    cases hu : w.updateMemory id u with
    | error e => exact .refl w
    | ok w' => exact (quiet_updateMemory hu h.1).trans (ih h.2)

theorem updateMemory_eq_ok {w : World} {id : AgentId} {u : MemoryUpdate} (hfits : u.Fits)
    (hkey : ∀ b, w.body? id = some b → b.memory.isRegistered u.key) :
    ∃ w', w.updateMemory id u = .ok w' := by
  unfold updateMemory memory?
  cases hb : w.body? id with
  | none => exact ⟨w, rfl⟩
  | some b =>
    obtain ⟨m, hm⟩ := Blackboard.update_eq_ok hfits (hkey b hb)
    simp only [Option.map_some, hm]
    exact ⟨_, rfl⟩

/-- An update that does not fail is a change of the agent's memory. -/
theorem updateMemory_eq_mapMemory {w : World} {id : AgentId} {u : MemoryUpdate} {b : Body}
    {f : Blackboard → Blackboard} (hb : w.body? id = some b) (hf : b.memory.update u = .ok (f b.memory)) :
    w.updateMemory id u = .ok (w.mapMemory id f) := by
  unfold updateMemory memory?
  rw [hb]
  simp only [Option.map_some, hf, Except.map]
  refine congrArg Except.ok (updateBody_congr fun b' hb' => ?_)
  rw [hb] at hb'
  cases hb'
  rfl

theorem updateMemory_store {w : World} {id : AgentId} {b : Body} {key : MemoryKey} {value : MemoryValue}
    (hb : w.body? id = some b) (hkind : value.kind = key.kind) (hkey : b.memory.isRegistered key) :
    w.updateMemory id (.store key value) = .ok (w.mapMemory id fun m => m.put key (some (value, none))) :=
  updateMemory_eq_mapMemory hb (Blackboard.store_eq_ok_iff.mpr ⟨hkind, hkey, rfl⟩)

/-- Updates that fit their keys are all made where the keys are registered. -/
theorem updateMemories_eq_ok {w : World} {id : AgentId} {us : List MemoryUpdate}
    (hfits : ∀ u ∈ us, u.Fits ∧ u.key ≠ .herdLeader)
    (hkeys : ∀ b, w.body? id = some b → ∀ u ∈ us, b.memory.isRegistered u.key) :
    (w.updateMemories id us).1 = .ok () := by
  induction us generalizing w with
  | nil => rfl
  | cons u rest ih =>
    rw [List.forall_mem_cons] at hfits
    obtain ⟨w', hw'⟩ := updateMemory_eq_ok hfits.1.1 fun b hb => hkeys b hb u List.mem_cons_self
    rw [updateMemories, hw']
    refine ih hfits.2 ?_
    intro b' hb' u' hu'
    obtain ⟨b, hb, hquiet⟩ := (quiet_updateMemory hw' hfits.1.2).exists_of_right hb'
    rw [hquiet.memory.registered]
    exact hkeys b hb u' (List.mem_cons_of_mem _ hu')

end World

namespace SensorKind

/-- No sensor is about leaders. -/
theorem ne_herdLeader {kind : SensorKind} {key : MemoryKey} (h : key ∈ kind.memories) :
    key ≠ .herdLeader := by
  rintro rfl
  cases kind <;> simp [memories] at h

end SensorKind

namespace Sensor

/-- Whether a sensor is about the memories of a kind alone. -/
def Honest (sensor : Sensor) (kind : SensorKind) : Prop :=
  ∀ id w, ∀ u ∈ sensor.perceive id w, u.key ∈ kind.memories

theorem quiet_sense {sensor : Sensor} {kind : SensorKind} (h : sensor.Honest kind) (id : AgentId)
    (w : World) : w.Quiet (sensor.sense id w).2 :=
  World.quiet_updateMemories fun u hu => SensorKind.ne_herdLeader (h id w u hu)

theorem forall_mem_track {kind : SensorKind} {key : MemoryKey} {value : Option MemoryValue}
    (hkey : key ∈ kind.memories) (hvalue : ∀ v, value = some v → v.kind = key.kind) :
    ∀ u ∈ [MemoryUpdate.track key value], u.key ∈ kind.memories ∧ u.Fits := by
  rw [List.forall_mem_singleton, MemoryUpdate.key_track]
  exact ⟨hkey, MemoryUpdate.fits_track hvalue⟩

/-- What a built-in sensor perceives is about its memories and fits them. -/
theorem perceive_ofKind (settings : SensorSettings) (kind : SensorKind) (id : AgentId) (w : World) :
    ∀ u ∈ (ofKind settings kind).perceive id w, u.key ∈ kind.memories ∧ u.Fits := by
  cases kind with
  | nearestVisible =>
    show ∀ u ∈ nearestVisible settings.visibleRange id w, _
    unfold nearestVisible
    split
    · simp
    · simp [SensorKind.memories, MemoryUpdate.key, MemoryUpdate.Fits, MemoryValue.kind,
        MemoryKey.kind]
  | hurtBy =>
    show ∀ u ∈ hurtBy settings.hurtMemoryTicks id w, _
    unfold hurtBy
    split
    · simp
    · dsimp only
      split
      · simp
      · simp [SensorKind.memories, MemoryUpdate.key, MemoryUpdate.Fits, MemoryValue.kind,
          MemoryKey.kind]
  | drowsy =>
    refine forall_mem_track (by decide) ?_
    intro v hv
    split at hv
    · cases hv
      rfl
    · cases hv
  | nearbyFlower =>
    show ∀ u ∈ nearbyFlower settings.flowerRange id w, _
    unfold nearbyFlower
    split
    · simp
    · refine forall_mem_track (by decide) ?_
      rintro v hv
      obtain ⟨p, _, rfl⟩ := Option.map_eq_some_iff.mp hv
      rfl
  | wantedItem =>
    show ∀ u ∈ wantedItem settings.itemRange id w, _
    unfold wantedItem
    split
    · simp
    · dsimp only
      split
      · simp
      · refine forall_mem_track (by decide) ?_
        rintro v hv
        obtain ⟨item, _, rfl⟩ := Option.map_eq_some_iff.mp hv
        rfl

theorem honest_ofKind (settings : SensorSettings) (kind : SensorKind) :
    (ofKind settings kind).Honest kind := fun id w u hu =>
  (perceive_ofKind settings kind id w u hu).1

/-- A built-in sensor never fails for an agent that has its memories registered. -/
theorem sense_ofKind_eq_ok (settings : SensorSettings) {kind : SensorKind} {id : AgentId}
    {w : World} (h : ∀ b, w.body? id = some b → ∀ key ∈ kind.memories, b.memory.isRegistered key) :
    ((ofKind settings kind).sense id w).1 = .ok () := by
  have hperceived := perceive_ofKind settings kind id w
  refine World.updateMemories_eq_ok ?_ ?_
  · intro u hu
    obtain ⟨hkey, hfits⟩ := hperceived u hu
    exact ⟨hfits, SensorKind.ne_herdLeader hkey⟩
  · intro b hb u hu
    exact h b hb u.key (hperceived u hu).1

end Sensor

end Menagerie
