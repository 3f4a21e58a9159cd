import Menagerie.Proofs.Sensor.Sense
import Menagerie.Proofs.World.Inward

/-!
# What agents remember of being hurt

Two memories are about the last hit: when it was dealt, and by whom. They come and go together, and they
run out at the latest so many ticks after the last hit (`Body.Hurt`): as time goes on both run out at one
tick, and a later hit leaves them more time than they had. Right after an agent felt for its wounds they
are exact (`Body.Feels`): they tell the last hit, or nothing if that was too long ago.
-/

namespace Menagerie

namespace Tick

variable {t t' now runsOut : Tick}

theorem after_mono (h : t ≤ t') (n : UInt64) : t.after n ≤ t'.after n := by
  have h := UInt64.le_iff_toNat_le.mp h
  refine UInt64.le_iff_toNat_le.mpr ?_
  rw [toNat_after, toNat_after]
  omega

/-- What is left until a tick counts up to it. -/
theorem after_since (h : now ≤ runsOut) : now.after (runsOut.since now) = runsOut := by
  have h := UInt64.le_iff_toNat_le.mp h
  have hlast : runsOut.count.toNat ≤ UInt64.size - 1 := Nat.le_sub_one_of_lt runsOut.count.toNat_lt
  have hcount : (now.after (runsOut.since now)).count = runsOut.count := by
    apply UInt64.toNat_inj.mp
    rw [toNat_after, toNat_since]
    omega
  exact congrArg Tick.mk hcount

theorem since_eq_zero_iff : runsOut.since now = 0 ↔ runsOut ≤ now := by
  have hle : runsOut ≤ now ↔ runsOut.count.toNat ≤ now.count.toNat := UInt64.le_iff_toNat_le
  rw [hle, ← UInt64.toNat_inj, toNat_since]
  show _ = 0 ↔ _
  omega

theorem le_of_not_le (h : ¬ t ≤ t') : t' ≤ t := UInt64.le_of_lt (UInt64.not_le.mp h)

end Tick

/-- The keys under which it is remembered that an agent was hurt. -/
def HurtKeys (key : MemoryKey) : Prop := key = .hurtBy ∨ key = .hurtByEntity

namespace Body

/-- Whether nothing is remembered of being hurt. -/
structure Unhurt (b : Body) : Prop where
  hit : ¬ (b.memory.state .hurtBy).isPresent
  attacker : ¬ (b.memory.state .hurtByEntity).isPresent

/-- Whether it is remembered who hit an agent and when, both until one tick. -/
structure Bears (b : Body) (attacker : AgentId) (hitAt runsOut : Tick) : Prop where
  hit : b.memory.state .hurtBy = .present (.number hitAt.count.toFloat) (some runsOut)
  attacker : b.memory.state .hurtByEntity = .present (.agent attacker) (some runsOut)

/-- Whether what is remembered of being hurt goes together, and runs out in good time after the last
hit. -/
structure Hurt (memoryTicks : UInt64) (b : Body) : Prop where
  past : ∀ attacker hitAt, b.lastHit = some (attacker, hitAt) → hitAt ≤ b.memory.now
  paired : b.Unhurt ∨ ∃ hit attacker runsOut,
    b.memory.state .hurtBy = .present hit (some runsOut) ∧
    b.memory.state .hurtByEntity = .present attacker (some runsOut) ∧
    ∃ last hitAt, b.lastHit = some (last, hitAt) ∧ runsOut ≤ hitAt.after memoryTicks

variable {m : UInt64} {b b' b'' : Body}

theorem Unhurt.of_state (h : b.Unhurt)
    (hstate : ∀ key, HurtKeys key → b'.memory.state key = b.memory.state key) : b'.Unhurt := by
  refine ⟨?_, ?_⟩
  · rw [hstate _ (.inl rfl)]
    exact h.hit
  · rw [hstate _ (.inr rfl)]
    exact h.attacker

theorem isPresent_lapsed {state : MemoryState} {now : Tick} (h : ¬ state.isPresent) :
    ¬ (state.lapsed now).isPresent := by
  match state with
  | .absent | .registered => exact h
  | .present value expiresAt => exact absurd rfl h

/-- As time goes on, both run out at once. -/
theorem Hurt.of_lapses (h : b.Hurt m) (hlast : b'.lastHit = b.lastHit)
    (hlapses : b.memory.Lapses HurtKeys b'.memory) : b'.Hurt m := by
  have hhit := hlapses.state .hurtBy (.inl rfl)
  have hattacker := hlapses.state .hurtByEntity (.inr rfl)
  refine ⟨fun attacker hitAt hhitAt => ?_, ?_⟩
  · rw [hlast] at hhitAt
    exact Tick.le_trans (h.past attacker hitAt hhitAt) hlapses.now
  · rcases h.paired with hunhurt | ⟨hit, attacker, runsOut, hstate, hstate', last, hitAt, hlastHit, hle⟩
    · refine .inl ⟨?_, ?_⟩
      · rw [hhit]
        exact isPresent_lapsed hunhurt.hit
      · rw [hattacker]
        exact isPresent_lapsed hunhurt.attacker
    · rw [hstate] at hhit
      rw [hstate'] at hattacker
      by_cases hnow : runsOut ≤ b'.memory.now
      · rw [MemoryState.lapsed, if_pos hnow] at hhit hattacker
        refine .inl ⟨?_, ?_⟩
        · rw [hhit]
          exact Bool.false_ne_true
        · rw [hattacker]
          exact Bool.false_ne_true
      · rw [MemoryState.lapsed, if_neg hnow] at hhit hattacker
        exact .inr ⟨hit, attacker, runsOut, hhit, hattacker, last, hitAt, hlast.trans hlastHit, hle⟩

theorem Hurt.of_memory (h : b.Hurt m) (hlast : b'.lastHit = b.lastHit)
    (hmemory : b'.memory = b.memory ∨ b'.memory = b.memory.erase .walkTarget) : b'.Hurt m := by
  refine h.of_lapses hlast ?_
  rcases hmemory with heq | heq
  · rw [heq]
    exact .refl b.memory
  · rw [heq]
    refine Blackboard.lapses_of_state rfl fun key hkey => ?_
    rw [Blackboard.state_erase, if_neg]
    rcases hkey with rfl | rfl
    · decide
    · decide

/-- A new hit leaves more time to what is remembered of the one before. -/
theorem Hurt.wounded (h : b.Hurt m) (attacker : AgentId) (amount : Float) :
    (b.wounded attacker amount b.memory.now).Hurt m := by
  refine ⟨?_, ?_⟩
  · rintro _ _ ⟨⟩
    exact Tick.le_refl _
  · rcases h.paired with hunhurt | ⟨hit, other, runsOut, hstate, hstate', last, hitAt, hlastHit, hle⟩
    · exact .inl ⟨hunhurt.hit, hunhurt.attacker⟩
    · refine .inr ⟨hit, other, runsOut, hstate, hstate', attacker, b.memory.now, rfl, ?_⟩
      exact Tick.le_trans hle (Tick.after_mono (h.past last hitAt hlastHit) m)

/-- A blank memory of one who was never hit. -/
theorem hurt_of_blank (hblank : b.memory.Blank) (hlast : b.lastHit = none) : b.Hurt m := by
  have hnone : ∀ key, ¬ (b.memory.state key).isPresent := by
    intro key
    rw [← Blackboard.hasValue, ← Blackboard.isSome_get?, hblank.get?_eq_none key]
    exact Bool.false_ne_true
  refine ⟨fun attacker hitAt hhit => ?_, .inl ⟨hnone _, hnone _⟩⟩
  rw [hlast] at hhit
  cases hhit

theorem not_le_of_present {memory : Blackboard} {key : MemoryKey} {value : MemoryValue} {runsOut : Tick}
    (h : memory.state key = .present value (some runsOut)) : ¬ runsOut ≤ memory.now := by
  intro hnow
  have hlapsed := memory.lapsed_state key
  rw [h, MemoryState.lapsed, if_pos hnow] at hlapsed
  cases hlapsed

/-! ## Feeling -/

/-- Whether an agent was hit so long ago that it does not remember it, if ever. -/
def Healed (memoryTicks : UInt64) (b : Body) : Prop :=
  ∀ attacker hitAt, b.lastHit = some (attacker, hitAt) → hitAt.after memoryTicks ≤ b.memory.now

theorem healed_or_fresh (m : UInt64) (b : Body) :
    b.Healed m ∨ ∃ attacker hitAt, b.lastHit = some (attacker, hitAt) ∧
      ¬ hitAt.after m ≤ b.memory.now := by
  by_cases hhealed : b.Healed m
  · exact .inl hhealed
  · refine .inr ?_
    unfold Healed at hhealed
    push Not at hhealed
    exact hhealed

/-- Whether an agent remembers its last hit, if it was dealt so short a time ago, and nothing of being
hurt otherwise. -/
structure Feels (memoryTicks : UInt64) (b : Body) : Prop where
  healed : b.Healed memoryTicks → b.Unhurt
  fresh : ∀ attacker hitAt, b.lastHit = some (attacker, hitAt) →
    ¬ hitAt.after memoryTicks ≤ b.memory.now → b.Bears attacker hitAt (hitAt.after memoryTicks)

/-- A body once its agent felt for its wounds. -/
def felt (memoryTicks : UInt64) (b : Body) : Body :=
  match b.lastHit with
  | none => b
  | some (attacker, hitAt) =>
    let runsOut := hitAt.after memoryTicks
    if runsOut ≤ b.memory.now then b
    else { b with
      memory := (b.memory.put .hurtBy (some (.number hitAt.count.toFloat, some runsOut))).put
        .hurtByEntity (some (.agent attacker, some runsOut)) }

theorem Healed.felt_eq (h : b.Healed m) : b.felt m = b := by
  unfold felt
  split
  · rfl
  · next attacker hitAt hlast => exact if_pos (h attacker hitAt hlast)

theorem felt_eq_of_fresh {attacker : AgentId} {hitAt : Tick} (hlast : b.lastHit = some (attacker, hitAt))
    (hleft : ¬ hitAt.after m ≤ b.memory.now) :
    b.felt m = { b with
      memory := (b.memory.put .hurtBy (some (.number hitAt.count.toFloat, some (hitAt.after m)))).put
        .hurtByEntity (some (.agent attacker, some (hitAt.after m))) } := by
  unfold felt
  rw [hlast]
  exact if_neg hleft

/-- What feeling leaves of a body. -/
theorem felt_rest (m : UInt64) (b : Body) :
    Inward b (b.felt m) ∧ (b.felt m).memory.now = b.memory.now ∧
      ∀ key, (b.felt m).memory.isRegistered key = b.memory.isRegistered key := by
  rcases b.healed_or_fresh m with hhealed | ⟨attacker, hitAt, hlast, hleft⟩
  · rw [hhealed.felt_eq]
    exact ⟨.refl b, rfl, fun _ => rfl⟩
  · rw [felt_eq_of_fresh hlast hleft]
    exact ⟨rfl, rfl, fun key =>
      (Blackboard.isRegistered_put _ _ key _).trans (Blackboard.isRegistered_put _ _ key _)⟩

/-- An agent that felt for its wounds feels them, if it has room for these memories. -/
theorem Hurt.feels_felt (h : b.Hurt m)
    (hkeys : ∀ key, HurtKeys key → b.memory.isRegistered key) : (b.felt m).Feels m := by
  rcases b.healed_or_fresh m with hhealed | ⟨attacker, hitAt, hlast, hleft⟩
  · rw [hhealed.felt_eq]
    refine ⟨fun _ => h.paired.resolve_right ?_, fun attacker hitAt hlast hleft =>
      absurd (hhealed attacker hitAt hlast) hleft⟩
    -- What was left of an earlier hit would have run out by the time at which the last one has.
    rintro ⟨_, _, runsOut, hstate, _, last, hitAt, hlast, hle⟩
    exact not_le_of_present hstate (Tick.le_trans hle (hhealed last hitAt hlast))
  · rw [felt_eq_of_fresh hlast hleft]
    refine ⟨fun hhealed => absurd (hhealed attacker hitAt hlast) hleft, fun other otherAt hhit _ => ?_⟩
    rw [hlast] at hhit
    cases hhit
    refine ⟨?_, ?_⟩
    · refine (Blackboard.state_put_of_ne _ (by decide)).trans ?_
      rw [Blackboard.state_of_slot (Blackboard.get?_put_self (hkeys _ (.inl rfl)))]
      exact if_neg hleft
    · have hkey : (b.memory.put .hurtBy (some (.number hitAt.count.toFloat,
          some (hitAt.after m)))).isRegistered .hurtByEntity := by
        rw [Blackboard.isRegistered_put]
        exact hkeys _ (.inr rfl)
      rw [Blackboard.state_of_slot (Blackboard.get?_put_self hkey)]
      exact if_neg hleft

/-- What is felt goes together. -/
theorem Feels.hurt (h : b.Feels m)
    (hpast : ∀ attacker hitAt, b.lastHit = some (attacker, hitAt) → hitAt ≤ b.memory.now) :
    b.Hurt m := by
  refine ⟨hpast, ?_⟩
  rcases b.healed_or_fresh m with hhealed | ⟨attacker, hitAt, hlast, hleft⟩
  · exact .inl (h.healed hhealed)
  · have hbears := h.fresh attacker hitAt hlast hleft
    exact .inr ⟨_, _, _, hbears.hit, hbears.attacker, attacker, hitAt, hlast, Tick.le_refl _⟩

/-- What becomes of a body while agents sense. -/
structure Sensed (memoryTicks : UInt64) (b b' : Body) : Prop where
  inward : Inward b b'
  now : b'.memory.now = b.memory.now
  registered : ∀ key, b'.memory.isRegistered key = b.memory.isRegistered key
  hurt : b.Hurt memoryTicks → b'.Hurt memoryTicks
  feels : b.Hurt memoryTicks → b.Feels memoryTicks → b'.Feels memoryTicks

theorem Sensed.refl (b : Body) : Sensed m b b := ⟨.refl b, rfl, fun _ => rfl, id, fun _ => id⟩

theorem Sensed.trans (h : Sensed m b b') (h' : Sensed m b' b'') : Sensed m b b'' :=
  ⟨h.inward.trans h'.inward, h'.now.trans h.now, fun key => (h'.registered key).trans (h.registered key),
    fun hb => h'.hurt (h.hurt hb), fun hb hfeels => h'.feels (h.hurt hb) (h.feels hb hfeels)⟩

theorem sensed_felt (hkeys : ∀ key, HurtKeys key → b.memory.isRegistered key) :
    Sensed m b (b.felt m) := by
  obtain ⟨hinward, hnow, hregistered⟩ := b.felt_rest m
  refine ⟨hinward, hnow, hregistered, fun hb => (hb.feels_felt hkeys).hurt ?_,
    fun hb _ => hb.feels_felt hkeys⟩
  rw [hinward.lastHit, hnow]
  exact hb.past

/-- Other senses are not about wounds. -/
theorem sensed_of_touched {may : Tick → MemoryKey → MemorySlot → Prop} (hinward : Inward b b')
    (htouched : b.memory.Touched may b'.memory)
    (hmay : ∀ now key slot, HurtKeys key → ¬ may now key slot) : Sensed m b b' := by
  have hstate : ∀ key, HurtKeys key → b'.memory.state key = b.memory.state key :=
    fun key hkey => htouched.state fun slot => hmay _ key slot hkey
  refine ⟨hinward, htouched.now, htouched.registered,
    fun hb => hb.of_lapses hinward.lastHit (htouched.lapses fun key slot => hmay _ key slot),
    fun _ hfeels => ⟨fun hhealed => ?_, fun attacker hitAt hlast hleft => ?_⟩⟩
  · unfold Healed at hhealed
    rw [hinward.lastHit, htouched.now] at hhealed
    exact (hfeels.healed hhealed).of_state hstate
  · rw [hinward.lastHit] at hlast
    rw [htouched.now] at hleft
    have hbears := hfeels.fresh attacker hitAt hlast hleft
    exact ⟨(hstate _ (.inl rfl)).trans hbears.hit, (hstate _ (.inr rfl)).trans hbears.attacker⟩

end Body

namespace World

variable {w : World} {id : AgentId} {b : Body}

theorem updateMemory_storeFor {key : MemoryKey} {value : MemoryValue} (ticks : UInt64)
    (hb : w.body? id = some b) (hkind : value.kind = key.kind) (hkey : b.memory.isRegistered key) :
    w.updateMemory id (.storeFor key value ticks) =
      .ok (w.mapMemory id fun m => m.put key (some (value, some (b.memory.now.after ticks)))) :=
  updateMemory_eq_mapMemory hb (Blackboard.store_eq_ok_iff.mpr ⟨hkind, hkey, rfl⟩)

end World

namespace Sensor

variable {m : UInt64} {w : World} {id : AgentId} {b : Body}

theorem hurtBy_of_healed (hb : w.body? id = some b) (hclock : b.memory.now = w.now)
    (hhealed : b.Healed m) : hurtBy m id w = [] := by
  unfold hurtBy
  rw [hb, Option.bind_some]
  split
  · rfl
  · next attacker hitAt hlast =>
    refine if_pos (Tick.since_eq_zero_iff.mpr ?_)
    rw [← hclock]
    exact hhealed attacker hitAt hlast

theorem hurtBy_of_fresh {attacker : AgentId} {hitAt : Tick} (hb : w.body? id = some b)
    (hclock : b.memory.now = w.now) (hlast : b.lastHit = some (attacker, hitAt))
    (hleft : ¬ hitAt.after m ≤ b.memory.now) :
    hurtBy m id w =
      [.storeFor .hurtBy (.number hitAt.count.toFloat) ((hitAt.after m).since b.memory.now),
        .storeFor .hurtByEntity (.agent attacker) ((hitAt.after m).since b.memory.now)] := by
  unfold hurtBy
  rw [hb, Option.bind_some, hlast, ← hclock]
  exact if_neg (mt Tick.since_eq_zero_iff.mp hleft)

end Sensor

namespace World

variable {m : UInt64} {w : World} {id : AgentId}

/-- Where there is something to feel, both memories are put. -/
theorem updateMemories_hurtBy_of_fresh {b : Body} {attacker : AgentId} {hitAt : Tick}
    (hb : w.body? id = some b) (hclock : b.memory.now = w.now)
    (hkeys : ∀ key, HurtKeys key → b.memory.isRegistered key) (hlast : b.lastHit = some (attacker, hitAt))
    (hleft : ¬ hitAt.after m ≤ b.memory.now) :
    (w.updateMemories id (Sensor.hurtBy m id w)).2 =
      (w.mapMemory id fun memory =>
        memory.put .hurtBy (some (.number hitAt.count.toFloat, some (hitAt.after m)))).mapMemory id
          fun memory => memory.put .hurtByEntity (some (.agent attacker, some (hitAt.after m))) := by
  let once : Body := { b with
    memory := b.memory.put .hurtBy (some (.number hitAt.count.toFloat, some (hitAt.after m))) }
  have honce : (w.mapMemory id fun memory => memory.put .hurtBy
      (some (.number hitAt.count.toFloat, some (hitAt.after m)))).body? id = some once := by
    rw [body?_mapMemory, if_pos rfl, hb]
    rfl
  -- There is still room for the second memory when the first is put.
  have hroom : once.memory.isRegistered .hurtByEntity := by
    rw [Blackboard.isRegistered_put]
    exact hkeys _ (.inr rfl)
  have hruns : b.memory.now.after ((hitAt.after m).since b.memory.now) = hitAt.after m :=
    Tick.after_since (Tick.le_of_not_le hleft)
  have hruns' : once.memory.now.after ((hitAt.after m).since b.memory.now) = hitAt.after m := hruns
  rw [Sensor.hurtBy_of_fresh hb hclock hlast hleft, updateMemories,
    updateMemory_storeFor _ hb rfl (hkeys _ (.inl rfl)), hruns]
  dsimp only
  rw [updateMemories, updateMemory_storeFor _ honce rfl hroom, hruns']
  rfl

/-- To use the sensor is to feel for one's wounds. -/
theorem body?_sense_hurtBy (hclock : ∀ b, w.body? id = some b → b.memory.now = w.now)
    (hkeys : ∀ b, w.body? id = some b → ∀ key, HurtKeys key → b.memory.isRegistered key)
    (other : AgentId) :
    (w.updateMemories id (Sensor.hurtBy m id w)).2.body? other =
      if other = id then (w.body? other).map (Body.felt m) else w.body? other := by
  have hidle (hsame : Sensor.hurtBy m id w = [])
      (hbody : (w.body? id).map (Body.felt m) = w.body? id) :
      (w.updateMemories id (Sensor.hurtBy m id w)).2.body? other =
        if other = id then (w.body? other).map (Body.felt m) else w.body? other := by
    rw [hsame]
    show w.body? other = _
    split
    · next heq => rw [heq, hbody]
    · rfl
  cases hb : w.body? id with
  | none =>
    refine hidle ?_ (by rw [hb]; rfl)
    unfold Sensor.hurtBy
    rw [hb]
    rfl
  | some b =>
    specialize hclock b hb
    specialize hkeys b hb
    rcases b.healed_or_fresh m with hhealed | ⟨attacker, hitAt, hlast, hleft⟩
    · refine hidle (Sensor.hurtBy_of_healed hb hclock hhealed) ?_
      rw [hb, Option.map_some, hhealed.felt_eq]
    · rw [updateMemories_hurtBy_of_fresh hb hclock hkeys hlast hleft, body?_mapMemory, body?_mapMemory]
      split
      · next heq =>
        rw [heq, hb]
        exact congrArg some (Body.felt_eq_of_fresh hlast hleft).symm
      · rfl

end World

end Menagerie
