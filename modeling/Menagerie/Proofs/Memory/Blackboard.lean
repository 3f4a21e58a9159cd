import Menagerie.Memory.Blackboard

/-!
# What operations on a memory keep

No operation but registration changes which keys are registered, and each of them keeps the values of
the kinds of their keys (`Blackboard.Kept`). An operation that is not about the leader also names no
leader that was not named before (`Blackboard.Quiet`).
-/

namespace Menagerie.Blackboard

/-- Whether every value that is kept has the kind of its key. -/
def WellKinded (b : Blackboard) : Prop :=
  ∀ key value expiresAt, b.slots.get? key = some (some (value, expiresAt)) → value.kind = key.kind

/-- Whether an agent is kept as the leader, be it that it has run out. -/
def Names (b : Blackboard) (leader : AgentId) : Prop :=
  ∃ expiresAt, b.slots.get? .herdLeader = some (some (.agent leader, expiresAt))

theorem isSome_get? (b : Blackboard) (key : MemoryKey) :
    (b.get? key).isSome = b.hasValue key := by
  unfold get? hasValue
  cases b.state key <;> rfl

theorem hasValue_of_get? {b : Blackboard} {key : MemoryKey} {value : MemoryValue}
    (h : b.get? key = some value) : b.hasValue key := by
  rw [← isSome_get?, h]
  rfl

theorem isRegistered_of_hasValue {b : Blackboard} {key : MemoryKey} (h : b.hasValue key) :
    b.isRegistered key := by
  rw [isRegistered_iff]
  intro hstate
  unfold hasValue at h
  rw [hstate] at h
  cases h

theorem satisfies_registered_iff {b : Blackboard} {key : MemoryKey} :
    b.satisfies (.registered key) = true ↔ b.isRegistered key := by
  rw [isRegistered_iff]
  show (!(b.state key).isAbsent) = true ↔ _
  cases b.state key with
  | absent => exact ⟨nofun, fun h => absurd rfl h⟩
  | registered | present _ _ => exact ⟨fun _ => nofun, fun _ => rfl⟩

/-- What is remembered is kept. -/
theorem exists_get?_of_get? {b : Blackboard} {key : MemoryKey} {value : MemoryValue}
    (h : b.get? key = some value) :
    ∃ expiresAt, b.slots.get? key = some (some (value, expiresAt)) := by
  unfold get? state at h
  cases hslot : b.slots.get? key with
  | none => simp [hslot] at h
  | some slot =>
    cases slot with
    | none => simp [hslot] at h
    | some kept =>
      obtain ⟨value', expiresAt⟩ := kept
      simp only [hslot] at h
      split at h
      · next heq =>
        split at heq
        · cases heq
        · cases heq
          cases h
          exact ⟨_, rfl⟩
      · cases h

theorem WellKinded.kind {b : Blackboard} (h : b.WellKinded) {key : MemoryKey} {value : MemoryValue}
    (hvalue : b.get? key = some value) : value.kind = key.kind := by
  obtain ⟨expiresAt, hslot⟩ := exists_get?_of_get? hvalue
  exact h key value expiresAt hslot

/-- What is the same of a memory after an operation. -/
structure Kept (b b' : Blackboard) : Prop where
  registered : ∀ key, b'.isRegistered key = b.isRegistered key
  kinds : b.WellKinded → b'.WellKinded

/-- What is the same after an operation that is not about the leader. -/
structure Quiet (b b' : Blackboard) : Prop extends Kept b b' where
  leader : ∀ id, b'.Names id → b.Names id

theorem Kept.refl (b : Blackboard) : Kept b b := ⟨fun _ => rfl, id⟩

theorem Kept.trans {b b' b'' : Blackboard} (h : Kept b b') (h' : Kept b' b'') : Kept b b'' :=
  ⟨fun key => (h'.registered key).trans (h.registered key), fun hk => h'.kinds (h.kinds hk)⟩

theorem Quiet.refl (b : Blackboard) : Quiet b b := ⟨.refl b, fun _ => id⟩

theorem Quiet.trans {b b' b'' : Blackboard} (h : Quiet b b') (h' : Quiet b' b'') : Quiet b b'' :=
  ⟨h.toKept.trans h'.toKept, fun id hid => h.leader id (h'.leader id hid)⟩

/-! ## Storing and clearing -/

/-- The memory with what is kept under a key replaced; nothing happens to a key that is not
registered. -/
def put (b : Blackboard) (key : MemoryKey) (slot : MemorySlot) : Blackboard :=
  { b with slots := b.slots.modify key fun _ => slot }

theorem get?_put {b : Blackboard} {key other : MemoryKey} {slot : MemorySlot}
    {value : MemoryValue} {expiresAt : Option Tick}
    (h : (b.put key slot).slots.get? other = some (some (value, expiresAt))) :
    other = key ∧ slot = some (value, expiresAt) ∨
      b.slots.get? other = some (some (value, expiresAt)) := by
  unfold put at h
  rw [SortedMap.get?_modify] at h
  split at h
  · next heq =>
    obtain ⟨_, _, hslot⟩ := Option.map_eq_some_iff.mp h
    exact .inl ⟨heq, hslot⟩
  · exact .inr h

theorem kept_put {b : Blackboard} {key : MemoryKey} {slot : MemorySlot}
    (hkind : ∀ value expiresAt, slot = some (value, expiresAt) → value.kind = key.kind) :
    Kept b (b.put key slot) := by
  refine ⟨fun other => SortedMap.contains_modify b.slots key other _, ?_⟩
  intro hb other value expiresAt hvalue
  obtain ⟨rfl, hslot⟩ | hvalue := get?_put hvalue
  · exact hkind value expiresAt hslot
  · exact hb other value expiresAt hvalue

/-- Storing a value under another key than the leader's, or clearing any key, is quiet. -/
theorem quiet_put {b : Blackboard} {key : MemoryKey} {slot : MemorySlot}
    (hkind : ∀ value expiresAt, slot = some (value, expiresAt) → value.kind = key.kind)
    (hkey : key = .herdLeader → slot = none) : Quiet b (b.put key slot) := by
  refine ⟨kept_put hkind, ?_⟩
  rintro id ⟨expiresAt, hnamed⟩
  obtain ⟨rfl, hslot⟩ | hnamed := get?_put hnamed
  · rw [hkey rfl] at hslot
    cases hslot
  · exact ⟨expiresAt, hnamed⟩

theorem quiet_erase (b : Blackboard) (key : MemoryKey) : Quiet b (b.erase key) :=
  quiet_put (by simp) fun _ => rfl

/-- A value is stored exactly if it fits its key and the key is registered. -/
theorem store_eq_ok_iff {b b' : Blackboard} {key : MemoryKey} {value : MemoryValue}
    {expiresAt : Option Tick} :
    b.store key value expiresAt = .ok b' ↔
      value.kind = key.kind ∧ b.isRegistered key ∧ b' = b.put key (some (value, expiresAt)) := by
  unfold store
  by_cases hkind : value.kind = key.kind
  · by_cases hkey : b.isRegistered key
    · simp [hkind, hkey, put, eq_comm]
    · simp [hkind, hkey]
  · simp [hkind]

/-! ## Time -/

theorem get?_advance (b : Blackboard) (now : Tick) (key : MemoryKey) :
    (b.advance now).2.slots.get? key =
      (b.slots.get? key).map fun slot => if slot.isExpired now then none else slot :=
  SortedMap.get?_map b.slots _ key

/-- What is kept after an advance was kept before it. -/
theorem get?_of_advance {b : Blackboard} {now : Tick} {key : MemoryKey}
    {kept : MemoryValue × Option Tick} (h : (b.advance now).2.slots.get? key = some (some kept)) :
    b.slots.get? key = some (some kept) := by
  rw [get?_advance] at h
  obtain ⟨slot, hslot, heq⟩ := Option.map_eq_some_iff.mp h
  split at heq
  · cases heq
  · rw [hslot, heq]

theorem quiet_advance (b : Blackboard) (now : Tick) : Quiet b (b.advance now).2 := by
  refine ⟨⟨?_, ?_⟩, ?_⟩
  · intro key
    unfold isRegistered SortedMap.contains
    rw [get?_advance, Option.isSome_map]
  · intro hb key value expiresAt h
    exact hb key value expiresAt (get?_of_advance h)
  · rintro id ⟨expiresAt, h⟩
    exact ⟨expiresAt, get?_of_advance h⟩

/-! ## Registration -/

theorem isRegistered_register (b : Blackboard) (key other : MemoryKey) :
    (b.register key).isRegistered other ↔ other = key ∨ b.isRegistered other := by
  unfold register
  split
  · next h =>
    constructor
    · exact .inr
    · rintro (rfl | hother)
      · exact h
      · exact hother
  · exact SortedMap.contains_insert b.slots key other none

theorem isRegistered_registerAll (b : Blackboard) (keys : List MemoryKey) (other : MemoryKey) :
    (b.registerAll keys).isRegistered other ↔ other ∈ keys ∨ b.isRegistered other := by
  unfold registerAll
  induction keys generalizing b with
  | nil => simp
  | cons key rest ih =>
    rw [List.foldl_cons, ih, isRegistered_register, List.mem_cons, or_assoc, or_left_comm]

/-- Whether nothing at all is kept. -/
def Blank (b : Blackboard) : Prop := ∀ key slot, b.slots.get? key = some slot → slot = none

theorem blank_empty : empty.Blank := by
  intro key slot h
  cases h

theorem Blank.registerAll {b : Blackboard} (h : b.Blank) (keys : List MemoryKey) :
    (b.registerAll keys).Blank := by
  unfold Blackboard.registerAll
  induction keys generalizing b with
  | nil => exact h
  | cons key rest ih =>
    refine ih ?_
    unfold register
    split
    · exact h
    · intro other slot hslot
      rw [SortedMap.get?_insert] at hslot
      split at hslot
      · exact (Option.some.inj hslot).symm
      · exact h other slot hslot

theorem Blank.advance {b : Blackboard} (h : b.Blank) (now : Tick) : (b.advance now).2.Blank := by
  intro key slot hslot
  rw [get?_advance] at hslot
  obtain ⟨slot', hslot', rfl⟩ := Option.map_eq_some_iff.mp hslot
  cases h key slot' hslot'
  rfl

theorem Blank.get?_eq_none {b : Blackboard} (h : b.Blank) (key : MemoryKey) : b.get? key = none := by
  refine Option.eq_none_iff_forall_ne_some.mpr fun value hvalue => ?_
  obtain ⟨expiresAt, hslot⟩ := exists_get?_of_get? hvalue
  cases h key _ hslot

theorem Blank.wellKinded {b : Blackboard} (h : b.Blank) : b.WellKinded := by
  intro key value expiresAt hvalue
  cases h key _ hvalue

theorem Blank.names {b : Blackboard} (h : b.Blank) (id : AgentId) : ¬ b.Names id := by
  rintro ⟨expiresAt, hvalue⟩
  cases h _ _ hvalue

end Menagerie.Blackboard
