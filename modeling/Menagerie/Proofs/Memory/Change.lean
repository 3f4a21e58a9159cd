import Menagerie.Proofs.Memory.Blackboard

/-!
# How a memory changes

Three relations say how far two memories of an agent are the same. Memories that are `Alike` cannot be
told apart. A memory that is `Touched` keeps under each key what it kept before, or what it was allowed
to put there. A memory that `Lapses` has grown older, and some of its keys are as time has left them: a
value that has run out since is gone, and nothing else is different.
-/

namespace Menagerie

namespace MemoryState

/-- What time makes of a state. -/
def lapsed (now : Tick) : MemoryState → MemoryState
  | .present value (some runsOut) =>
    if runsOut ≤ now then .registered else .present value (some runsOut)
  | state => state

theorem lapsed_lapsed {now later : Tick} (h : now ≤ later) (state : MemoryState) :
    (state.lapsed now).lapsed later = state.lapsed later := by
  match state with
  | .absent | .registered | .present _ none => rfl
  | .present value (some runsOut) =>
    by_cases hnow : runsOut ≤ now
    · simp only [lapsed, if_pos hnow, if_pos (Tick.le_trans hnow h)]
    · simp only [lapsed, if_neg hnow]

/-- What is still there was there before. -/
theorem eq_present_of_lapsed {now : Tick} {state : MemoryState} {value : MemoryValue} {expiresAt : Option Tick}
    (h : state.lapsed now = .present value expiresAt) : state = .present value expiresAt := by
  match state with
  | .absent | .registered | .present _ none => exact h
  | .present _ (some runsOut) =>
    unfold lapsed at h
    dsimp only at h
    split at h
    · cases h
    · exact h

end MemoryState

namespace Blackboard

variable {m m' m'' : Blackboard} {key : MemoryKey}

theorem state_congr (hnow : m'.now = m.now) (hslot : m'.slots.get? key = m.slots.get? key) :
    m'.state key = m.state key := by
  unfold state
  rw [hnow, hslot]

/-- A state is as time has left it. -/
theorem lapsed_state (m : Blackboard) (key : MemoryKey) :
    (m.state key).lapsed m.now = m.state key := by
  unfold state
  match m.slots.get? key with
  | none | some none | some (some (_, none)) => rfl
  | some (some (value, some runsOut)) =>
    by_cases hnow : runsOut ≤ m.now
    · simp [MemorySlot.isExpired, MemoryState.lapsed, hnow]
    · simp [MemorySlot.isExpired, MemoryState.lapsed, hnow]

/-- What is kept for a time is as time has left it. -/
theorem state_of_slot {value : MemoryValue} {runsOut : Tick}
    (h : m.slots.get? key = some (some (value, some runsOut))) :
    m.state key = (MemoryState.present value (some runsOut)).lapsed m.now := by
  unfold state
  rw [h]
  by_cases hnow : runsOut ≤ m.now
  · simp [MemorySlot.isExpired, MemoryState.lapsed, hnow]
  · simp [MemorySlot.isExpired, MemoryState.lapsed, hnow]

/-- What becomes of a state as the time advances. -/
theorem state_advance {now : Tick} (h : m.now ≤ now) (key : MemoryKey) :
    (m.advance now).2.state key = (m.state key).lapsed now := by
  have htime : (m.advance now).2.now = now := rfl
  unfold state
  rw [get?_advance, htime]
  match m.slots.get? key with
  | none | some none | some (some (_, none)) => rfl
  | some (some (value, some runsOut)) =>
    by_cases hnow : runsOut ≤ now
    · by_cases hbefore : runsOut ≤ m.now
      · simp [MemorySlot.isExpired, MemoryState.lapsed, hnow, hbefore]
      · simp [MemorySlot.isExpired, MemoryState.lapsed, hnow, hbefore]
    · have hbefore : ¬ runsOut ≤ m.now := fun hle => hnow (Tick.le_trans hle h)
      simp [MemorySlot.isExpired, MemoryState.lapsed, hnow, hbefore]

/-! ## Memories that are alike -/

/-- Whether two memories cannot be told apart. -/
structure Alike (m m' : Blackboard) : Prop where
  now : m'.now = m.now
  state : ∀ key, m'.state key = m.state key

theorem Alike.refl (m : Blackboard) : Alike m m := ⟨rfl, fun _ => rfl⟩

theorem Alike.trans (h : Alike m m') (h' : Alike m' m'') : Alike m m'' :=
  ⟨h'.now.trans h.now, fun key => (h'.state key).trans (h.state key)⟩

/-- That a key without a value is cleared cannot be told. -/
theorem alike_erase (h : m.get? key = none) : Alike m (m.erase key) := by
  refine ⟨rfl, ?_⟩
  intro other
  rw [state_erase]
  split
  · next heq =>
    subst heq
    have hregistered := isRegistered_iff m other
    unfold get? at h
    cases hstate : m.state other with
    | absent =>
      rw [hstate] at hregistered
      rw [if_neg (by simp [hregistered])]
    | registered =>
      rw [hstate] at hregistered
      rw [if_pos (hregistered.mpr nofun)]
    | present value expiresAt =>
      rw [hstate] at h
      cases h
  · rfl

/-! ## Memories that are touched -/

/-- Whether a memory keeps under each key what another keeps, or what it may put there: this depends
on the time, and keys neither come nor go. -/
structure Touched (may : Tick → MemoryKey → MemorySlot → Prop) (m m' : Blackboard) : Prop where
  now : m'.now = m.now
  registered : ∀ key, m'.isRegistered key = m.isRegistered key
  slot : ∀ key, m'.slots.get? key = m.slots.get? key ∨
    ∃ slot, m'.slots.get? key = some slot ∧ may m.now key slot

namespace Touched

variable {may may' : Tick → MemoryKey → MemorySlot → Prop}

theorem refl (m : Blackboard) : Touched may m m := ⟨rfl, fun _ => rfl, fun _ => .inl rfl⟩

theorem trans (h : Touched may m m') (h' : Touched may m' m'') : Touched may m m'' := by
  refine ⟨h'.now.trans h.now, fun key => (h'.registered key).trans (h.registered key), ?_⟩
  intro key
  rcases h'.slot key with hsame | ⟨slot, hslot, hmay⟩
  · rw [hsame]
    exact h.slot key
  · rw [h.now] at hmay
    exact .inr ⟨slot, hslot, hmay⟩

theorem imp (h : Touched may m m') (himp : ∀ now key slot, may now key slot → may' now key slot) :
    Touched may' m m' :=
  ⟨h.now, h.registered, fun key => (h.slot key).imp_right fun ⟨slot, hslot, hmay⟩ =>
    ⟨slot, hslot, himp _ _ _ hmay⟩⟩

/-- A key under which nothing may be put is the same. -/
theorem state (h : Touched may m m') (hkey : ∀ slot, ¬ may m.now key slot) :
    m'.state key = m.state key := by
  refine state_congr h.now ((h.slot key).resolve_right ?_)
  rintro ⟨slot, _, hmay⟩
  exact hkey slot hmay

/-- A memory in which keys are cleared at most is quiet. -/
theorem quiet (h : Touched may m m') (hmay : ∀ now key slot, may now key slot → slot = none) :
    Quiet m m' := by
  have hkept : ∀ {key kept}, m'.slots.get? key = some (some kept) →
      m.slots.get? key = some (some kept) := by
    intro key kept hvalue
    rcases h.slot key with hsame | ⟨slot, hslot, hcleared⟩
    · rw [← hsame, hvalue]
    · rw [hvalue, hmay _ _ _ hcleared] at hslot
      cases hslot
  refine ⟨⟨h.registered, fun hkinds key value expiresAt hvalue => ?_⟩, ?_⟩
  · exact hkinds key value expiresAt (hkept hvalue)
  · rintro id ⟨expiresAt, hnamed⟩
    exact ⟨expiresAt, hkept hnamed⟩

end Touched

theorem touched_put {may : Tick → MemoryKey → MemorySlot → Prop} {slot : MemorySlot}
    (h : may m.now key slot) : Touched may m (m.put key slot) := by
  refine ⟨rfl, fun other => SortedMap.contains_modify m.slots key other _, ?_⟩
  intro other
  have hget : (m.put key slot).slots.get? other =
      if other = key then (m.slots.get? other).map fun _ => slot else m.slots.get? other :=
    SortedMap.get?_modify m.slots key other _
  rw [hget]
  split
  · next heq =>
    subst heq
    cases m.slots.get? other with
    | none => exact .inl rfl
    | some before => exact .inr ⟨slot, rfl, h⟩
  · exact .inl rfl

/-- What is put under a key is there if the key is registered. -/
theorem get?_put_self {slot : MemorySlot} (h : m.isRegistered key) :
    (m.put key slot).slots.get? key = some slot := by
  obtain ⟨before, hbefore⟩ := Option.isSome_iff_exists.mp h
  unfold put
  rw [SortedMap.get?_modify, if_pos rfl, hbefore]
  rfl

theorem isRegistered_put (m : Blackboard) (key other : MemoryKey) (slot : MemorySlot) :
    (m.put key slot).isRegistered other = m.isRegistered other :=
  SortedMap.contains_modify m.slots key other _

theorem state_put_of_ne {other : MemoryKey} (slot : MemorySlot) (hne : other ≠ key) :
    (m.put key slot).state other = m.state other :=
  have hput : m.Touched (fun _ other _ => other = key) (m.put key slot) := touched_put rfl
  hput.state fun _ => hne

/-- What is put there for good is there for good. -/
theorem state_put_self {value : MemoryValue} (h : m.isRegistered key) :
    (m.put key (some (value, none))).state key = .present value none := by
  unfold state
  rw [get?_put_self h]
  rfl

theorem get?_put_for_good {value : MemoryValue} (h : m.isRegistered key) :
    (m.put key (some (value, none))).get? key = some value := by
  unfold get?
  rw [state_put_self h]

theorem get?_erase_self (m : Blackboard) (key : MemoryKey) : (m.erase key).get? key = none := by
  unfold get?
  rw [state_erase, if_pos rfl]
  cases m.isRegistered key with
  | true => rfl
  | false => rfl

/-! ## Memories that lapse -/

/-- Whether some keys of a memory are as time has left them. -/
structure Lapses (keys : MemoryKey → Prop) (m m' : Blackboard) : Prop where
  now : m.now ≤ m'.now
  state : ∀ key, keys key → m'.state key = (m.state key).lapsed m'.now

namespace Lapses

variable {keys : MemoryKey → Prop}

theorem refl (m : Blackboard) : Lapses keys m m :=
  ⟨Tick.le_refl _, fun key _ => (m.lapsed_state key).symm⟩

theorem trans (h : Lapses keys m m') (h' : Lapses keys m' m'') : Lapses keys m m'' := by
  refine ⟨Tick.le_trans h.now h'.now, ?_⟩
  intro key hkey
  rw [h'.state key hkey, h.state key hkey, MemoryState.lapsed_lapsed h'.now]

end Lapses

variable {keys : MemoryKey → Prop}

/-- Where no time goes by, what has lapsed is the same. -/
theorem lapses_of_state (hnow : m'.now = m.now) (h : ∀ key, keys key → m'.state key = m.state key) :
    Lapses keys m m' := by
  refine ⟨hnow ▸ Tick.le_refl _, ?_⟩
  intro key hkey
  rw [h key hkey, hnow, lapsed_state]

theorem Alike.lapses (h : Alike m m') : Lapses keys m m' :=
  lapses_of_state h.now fun key _ => h.state key

theorem Touched.lapses {may : Tick → MemoryKey → MemorySlot → Prop} (h : Touched may m m')
    (hkeys : ∀ key slot, keys key → ¬ may m.now key slot) : Lapses keys m m' :=
  lapses_of_state h.now fun key hkey => h.state fun slot => hkeys key slot hkey

theorem lapses_advance {now : Tick} (h : m.now ≤ now) : Lapses keys m (m.advance now).2 :=
  ⟨h, fun key _ => state_advance h key⟩

end Blackboard

end Menagerie
