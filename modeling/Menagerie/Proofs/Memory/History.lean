import Mathlib.Data.List.Induction
import Menagerie.Proofs.Memory.Blackboard

/-!
# The history of a memory

What can be observed of a memory is told by what was done with it (`MemoryHistory`), without a look at
what it keeps. A key is present exactly with the value of the last event that touched it, if this was
a store and its tick to run out is still to come (`MemoryHistory.LastStored`). The two ways in which a
value runs out, at once when it is looked at and for good when the time advances, are one in this: an
advance touches the keys that it takes past their tick.

The main statement, `Blackboard.ofHistory_refines`, is about every history, also one in which the time
goes back.
-/

namespace Menagerie

theorem Tick.eq_after {t runsOut : Tick} {n : UInt64}
    (h : runsOut.count.toNat = min (t.count.toNat + n.toNat) (UInt64.size - 1)) : runsOut = t.after n := by
  have hcount : runsOut.count = (t.after n).count :=
    UInt64.toNat_inj.mp (h.trans (Tick.toNat_after t n).symm)
  exact congrArg Tick.mk hcount

/-- Something that is done with a memory. -/
inductive MemoryEvent where
  | register (key : MemoryKey)
  | set (key : MemoryKey) (value : MemoryValue)
  | setFor (key : MemoryKey) (value : MemoryValue) (ticks : UInt64)
  | erase (key : MemoryKey)
  | advance (now : Tick)
  deriving DecidableEq, Repr

namespace Blackboard

/-- The memory after an event. A value that is refused leaves it as it is. -/
def after (b : Blackboard) : MemoryEvent → Blackboard
  | .register key => b.register key
  | .set key value => (b.set key value).toOption.getD b
  | .setFor key value ticks => (b.setFor key value ticks).toOption.getD b
  | .erase key => (b.clear key).2
  | .advance now => (b.advance now).2

/-- The memory that a history leaves, which starts out empty. -/
def ofHistory (h : List MemoryEvent) : Blackboard := h.foldl after empty

end Blackboard

/-- What was done with a memory, the earliest first. -/
abbrev MemoryHistory := List MemoryEvent

namespace MemoryHistory

/-- The ticks that were advanced to. -/
def ticks (h : MemoryHistory) : List Tick :=
  h.filterMap fun
    | .advance now => some now
    | _ => none

/-- The tick that was advanced to last. -/
def now (h : MemoryHistory) : Tick := h.ticks.getLastD .zero

def Registers (h : MemoryHistory) (key : MemoryKey) : Prop := .register key ∈ h

/-- Whether a value that is stored next is accepted. -/
def Accepts (h : MemoryHistory) (key : MemoryKey) (value : MemoryValue) : Prop :=
  h.Registers key ∧ value.kind = key.kind

/-- Whether an event after a history stores a value, and with which tick to run out. -/
inductive Stores (h : MemoryHistory) (key : MemoryKey) (value : MemoryValue) :
    Option Tick → MemoryEvent → Prop
  | set : h.Accepts key value → Stores h key value none (.set key value)
  | setFor {ticks : UInt64} {runsOut : Tick} : h.Accepts key value →
      runsOut.count.toNat = min (h.now.count.toNat + ticks.toNat) (UInt64.size - 1) →
      Stores h key value (some runsOut) (.setFor key value ticks)

/-- Whether an event touches what a registered key has kept until a tick: it stores another value, or
erases the key, or advances to that tick or past it. -/
def Touches (key : MemoryKey) (runsOut : Option Tick) : MemoryEvent → Prop
  | .register _ => False
  | .set other value | .setFor other value _ => other = key ∧ value.kind = key.kind
  | .erase other => other = key
  | .advance now => ∃ tick, runsOut = some tick ∧ tick ≤ now

/-- Whether the last event that touched a key stored that value. -/
def LastStored (h : MemoryHistory) (key : MemoryKey) (value : MemoryValue)
    (expiresAt : Option Tick) : Prop :=
  ∃ before event after, h = before ++ event :: after ∧
    Stores before key value expiresAt event ∧ ∀ later ∈ after, ¬ Touches key expiresAt later

/-- Whether a key has a value by its history: the last event that touched it stored this value, and
the tick at which it runs out is still to come. -/
def Holds (h : MemoryHistory) (key : MemoryKey) (value : MemoryValue) (expiresAt : Option Tick) :
    Prop :=
  h.Registers key ∧ h.LastStored key value expiresAt ∧
    ∀ runsOut, expiresAt = some runsOut → h.now.count < runsOut.count

/-- Whether the time does not go back in what is done from a tick on. -/
def Forward (now : Tick) (later : MemoryHistory) : Prop :=
  (now :: later.ticks).Pairwise (· ≤ ·)

variable {h before after : MemoryHistory} {event : MemoryEvent} {key : MemoryKey} {value : MemoryValue}
  {expiresAt : Option Tick}

theorem ticks_append (h later : MemoryHistory) :
    MemoryHistory.ticks (h ++ later) = h.ticks ++ MemoryHistory.ticks later :=
  List.filterMap_append ..

theorem now_append_advance (h : MemoryHistory) (now : Tick) :
    MemoryHistory.now (h ++ [.advance now]) = now := by
  unfold MemoryHistory.now
  rw [ticks_append]
  exact List.getLastD_concat ..

/-- The time after an event that does not advance it, and after what follows. -/
theorem now_append_cons (h : MemoryHistory) (event : MemoryEvent) (later : MemoryHistory)
    (hevent : ∀ now, event ≠ .advance now) :
    MemoryHistory.now (h ++ event :: later) = later.ticks.getLastD h.now := by
  have hticks : ticks (event :: later) = later.ticks := by
    cases event with
    | advance now => exact absurd rfl (hevent now)
    | _ => rfl
  unfold MemoryHistory.now
  simp only [ticks_append, hticks, List.getLastD_eq_getLast?, List.getLast?_append, Option.getD_or]

theorem now_append (h : MemoryHistory) {event : MemoryEvent} (hevent : ∀ now, event ≠ .advance now) :
    MemoryHistory.now (h ++ [event]) = h.now :=
  now_append_cons h event [] hevent

theorem mem_ticks {now : Tick} : now ∈ h.ticks ↔ .advance now ∈ h := by
  unfold ticks
  rw [List.mem_filterMap]
  constructor
  · rintro ⟨event, hevent, heq⟩
    cases event <;> cases heq
    exact hevent
  · intro hevent
    exact ⟨_, hevent, rfl⟩

theorem Stores.accepts (hstores : Stores h key value expiresAt event) : h.Accepts key value := by
  cases hstores with
  | set haccepts => exact haccepts
  | setFor haccepts _ => exact haccepts

/-- A store touches what was kept before, whenever that runs out. -/
theorem Stores.touches (hstores : Stores h key value expiresAt event) (runsOut : Option Tick) :
    Touches key runsOut event := by
  cases hstores with
  | set haccepts => exact ⟨rfl, haccepts.2⟩
  | setFor haccepts _ => exact ⟨rfl, haccepts.2⟩

/-- The last event either stores the value, or leaves what was stored before it untouched. -/
theorem lastStored_append :
    LastStored (h ++ [event]) key value expiresAt ↔
      Stores h key value expiresAt event ∨
        h.LastStored key value expiresAt ∧ ¬ Touches key expiresAt event := by
  constructor
  · rintro ⟨before, stored, after, hsplit, hstores, hafter⟩
    obtain rfl | ⟨others, last, rfl⟩ := List.eq_nil_or_concat after
    · obtain ⟨rfl, hlast⟩ := List.append_inj' hsplit rfl
      cases hlast
      exact .inl hstores
    · rw [List.concat_eq_append, ← List.cons_append, ← List.append_assoc] at hsplit
      obtain ⟨rfl, hlast⟩ := List.append_inj' hsplit rfl
      cases hlast
      simp only [List.concat_eq_append, List.forall_mem_append, List.forall_mem_singleton] at hafter
      exact .inr ⟨⟨before, stored, others, rfl, hstores, hafter.1⟩, hafter.2⟩
  · rintro (hstores | ⟨⟨before, stored, after, rfl, hstores, hafter⟩, htouches⟩)
    · exact ⟨h, event, [], rfl, hstores, List.forall_mem_nil _⟩
    · refine ⟨before, stored, after ++ [event], by simp, hstores, ?_⟩
      exact List.forall_mem_append.mpr ⟨hafter, List.forall_mem_singleton.mpr htouches⟩

/-- What was stored last was stored before the events that neither store nor erase. -/
theorem LastStored.of_append {later : MemoryHistory}
    (hlater : ∀ event ∈ later, ¬ Touches key none event)
    (h' : LastStored (h ++ later) key value expiresAt) : h.LastStored key value expiresAt := by
  induction later using List.reverseRecOn with
  | nil => rwa [List.append_nil] at h'
  | append_singleton later event ih =>
    rw [List.forall_mem_append, List.forall_mem_singleton] at hlater
    rw [← List.append_assoc] at h'
    rcases lastStored_append.mp h' with hstores | ⟨hkept, _⟩
    · exact absurd (hstores.touches none) hlater.2
    · exact ih hlater.1 hkept

/-- The time at the end of what moves it forward is the latest. -/
theorem Forward.le_now {now tick : Tick} {later : MemoryHistory} (hforward : Forward now later)
    (htick : tick ∈ now :: later.ticks) : tick ≤ later.ticks.getLastD now := by
  unfold Forward at hforward
  obtain ⟨others, last, hticks⟩ : ∃ others last, now :: later.ticks = others ++ [last] :=
    ⟨_, _, (List.dropLast_concat_getLast (List.cons_ne_nil now later.ticks)).symm⟩
  have hlast : later.ticks.getLastD now = last := by
    rw [← List.getLast_eq_getLastD (List.cons_ne_nil now later.ticks)]
    simp [hticks]
  rw [hticks] at hforward htick
  rw [hlast]
  rcases List.mem_append.mp htick with hothers | hin
  · exact (List.pairwise_append.mp hforward).2.2 tick hothers last (List.mem_singleton_self last)
  · rw [List.mem_singleton.mp hin]
    exact Tick.le_refl last

end MemoryHistory

/-! ## What each event does -/

namespace Blackboard

variable {b : Blackboard} {key : MemoryKey} {kept : MemoryValue × Option Tick}

theorem isRegistered_of_get? {slot : MemorySlot} (h : b.slots.get? key = some slot) :
    b.isRegistered key := by
  unfold isRegistered SortedMap.contains
  rw [h]
  rfl

/-- A store that is refused leaves the memory as it is. -/
theorem store_getD (b : Blackboard) (key : MemoryKey) (value : MemoryValue) (expiresAt : Option Tick) :
    (b.store key value expiresAt).toOption.getD b =
      if value.kind = key.kind ∧ b.isRegistered key then b.put key (some (value, expiresAt)) else b := by
  cases hstore : b.store key value expiresAt with
  | ok b' =>
    obtain ⟨hkind, hkey, rfl⟩ := store_eq_ok_iff.mp hstore
    rw [if_pos ⟨hkind, hkey⟩]
    rfl
  | error e =>
    rw [if_neg]
    · rfl
    · rintro ⟨hkind, hkey⟩
      rw [store_eq_ok_iff.mpr ⟨hkind, hkey, rfl⟩] at hstore
      cases hstore

theorem get?_store_iff {other : MemoryKey} {value : MemoryValue} {expiresAt : Option Tick} :
    ((b.store other value expiresAt).toOption.getD b).slots.get? key = some (some kept) ↔
      (other = key ∧ value.kind = key.kind) ∧ b.isRegistered key ∧ kept = (value, expiresAt) ∨
        b.slots.get? key = some (some kept) ∧ ¬ (other = key ∧ value.kind = key.kind) := by
  rw [store_getD]
  by_cases hkey : other = key
  · subst hkey
    by_cases hkind : value.kind = other.kind
    · by_cases hregistered : b.isRegistered other
      · rw [if_pos ⟨hkind, hregistered⟩]
        obtain ⟨slot, hslot⟩ := Option.isSome_iff_exists.mp hregistered
        simp only [put, SortedMap.get?_modify, hslot, hkind, hregistered, eq_comm (a := kept)]
        simp
      · have hnone : ∀ slot, b.slots.get? other ≠ some slot := fun slot hslot =>
          hregistered (isRegistered_of_get? hslot)
        simp [hregistered, hnone]
    · simp [hkind]
  · have hput : (b.put other (some (value, expiresAt))).slots.get? key = b.slots.get? key := by
      simp only [put, SortedMap.get?_modify, if_neg (Ne.symm hkey)]
    split <;> simp [hkey, hput]

theorem get?_register_iff {other : MemoryKey} :
    (b.register other).slots.get? key = some (some kept) ↔ b.slots.get? key = some (some kept) := by
  unfold register
  split
  · rfl
  · next hother =>
    rw [SortedMap.get?_insert]
    split
    · next heq =>
      have hnone : b.slots.get? key ≠ some (some kept) := fun hslot =>
        hother (heq ▸ isRegistered_of_get? hslot)
      simp [hnone]
    · rfl

theorem get?_erase_iff {other : MemoryKey} :
    (b.erase other).slots.get? key = some (some kept) ↔
      b.slots.get? key = some (some kept) ∧ other ≠ key := by
  unfold erase
  rw [SortedMap.get?_modify]
  by_cases hkey : key = other
  · simp [hkey]
  · simp [hkey, Ne.symm hkey]

theorem get?_advance_iff {now : Tick} {value : MemoryValue} {expiresAt : Option Tick} :
    (b.advance now).2.slots.get? key = some (some (value, expiresAt)) ↔
      b.slots.get? key = some (some (value, expiresAt)) ∧
        ¬ ∃ runsOut, expiresAt = some runsOut ∧ runsOut ≤ now := by
  rw [get?_advance]
  have hexpired : MemorySlot.isExpired now (some (value, expiresAt)) = true ↔
      ∃ runsOut, expiresAt = some runsOut ∧ runsOut ≤ now := by
    cases expiresAt <;> simp [MemorySlot.isExpired]
  rw [← hexpired, Option.map_eq_some_iff]
  constructor
  · rintro ⟨slot, hslot, heq⟩
    split at heq
    · cases heq
    · next hexpired =>
      subst heq
      exact ⟨hslot, hexpired⟩
  · rintro ⟨hslot, hexpired⟩
    exact ⟨_, hslot, if_neg hexpired⟩

/-! ## What a history leaves -/

theorem ofHistory_append (h : MemoryHistory) (event : MemoryEvent) :
    ofHistory (h ++ [event]) = (ofHistory h).after event := by
  unfold ofHistory
  rw [List.foldl_append]
  rfl

theorem now_after (b : Blackboard) {event : MemoryEvent} (hevent : ∀ now, event ≠ .advance now) :
    (b.after event).now = b.now := by
  have hstore : ∀ key value expiresAt,
      ((b.store key value expiresAt).toOption.getD b).now = b.now := by
    intro key value expiresAt
    rw [store_getD]
    split <;> rfl
  cases event with
  | register key =>
    show (b.register key).now = b.now
    unfold register
    split <;> rfl
  | set key value => exact hstore key value none
  | setFor key value ticks => exact hstore key value (some (b.now.after ticks))
  | erase key => rfl
  | advance now => exact absurd rfl (hevent now)

theorem now_ofHistory (h : MemoryHistory) : (ofHistory h).now = h.now := by
  induction h using List.reverseRecOn with
  | nil => rfl
  | append_singleton h event ih =>
    rw [ofHistory_append]
    by_cases hevent : ∃ now, event = .advance now
    · obtain ⟨now, rfl⟩ := hevent
      exact (MemoryHistory.now_append_advance h now).symm
    · have hevent' : ∀ now, event ≠ .advance now := fun now heq => hevent ⟨now, heq⟩
      rw [now_after _ hevent', ih, MemoryHistory.now_append h hevent']

theorem isRegistered_after (b : Blackboard) (event : MemoryEvent) (key : MemoryKey) :
    (b.after event).isRegistered key ↔ event = .register key ∨ b.isRegistered key := by
  have hsame : ∀ {b' : Blackboard}, b.after event = b' → b'.isRegistered key = b.isRegistered key →
      event ≠ .register key →
      ((b.after event).isRegistered key ↔ event = .register key ∨ b.isRegistered key) := by
    rintro _ rfl hkey hevent
    rw [hkey]
    exact ⟨.inr, fun h => h.resolve_left hevent⟩
  have hstore : ∀ other value expiresAt,
      ((b.store other value expiresAt).toOption.getD b).isRegistered key = b.isRegistered key := by
    intro other value expiresAt
    rw [store_getD]
    split
    · exact SortedMap.contains_modify b.slots other key _
    · rfl
  cases event with
  | register other =>
    refine (isRegistered_register b other key).trans (or_congr_left ?_)
    rw [MemoryEvent.register.injEq, eq_comm]
  | set other value => exact hsame rfl (hstore other value none) nofun
  | setFor other value ticks => exact hsame rfl (hstore other value (some (b.now.after ticks))) nofun
  | erase other => exact hsame rfl ((b.quiet_erase other).registered key) nofun
  | advance now => exact hsame rfl ((b.quiet_advance now).registered key) nofun

theorem isRegistered_ofHistory (h : MemoryHistory) (key : MemoryKey) :
    (ofHistory h).isRegistered key ↔ h.Registers key := by
  induction h using List.reverseRecOn with
  | nil => exact ⟨nofun, nofun⟩
  | append_singleton h event ih =>
    rw [ofHistory_append, isRegistered_after, ih]
    unfold MemoryHistory.Registers
    rw [List.mem_append, List.mem_singleton, or_comm, eq_comm]

/-- What is kept under a key is what the last event that touched it stored. -/
theorem get?_ofHistory (h : MemoryHistory) (key : MemoryKey) (value : MemoryValue)
    (expiresAt : Option Tick) :
    (ofHistory h).slots.get? key = some (some (value, expiresAt)) ↔
      h.LastStored key value expiresAt := by
  induction h using List.reverseRecOn with
  | nil =>
    constructor
    · intro hempty
      cases hempty
    · rintro ⟨before, event, after, hsplit, _⟩
      simp at hsplit
  | append_singleton h event ih =>
    rw [ofHistory_append, MemoryHistory.lastStored_append, ← ih]
    have hregistered := isRegistered_ofHistory h key
    cases event with
    | register other =>
      refine get?_register_iff.trans ⟨fun hkept => .inr ⟨hkept, id⟩, ?_⟩
      rintro (hstores | ⟨hkept, _⟩)
      · cases hstores
      · exact hkept
    | set other stored =>
      refine get?_store_iff.trans (or_congr ?_ Iff.rfl)
      constructor
      · rintro ⟨⟨rfl, hkind⟩, hkey, heq⟩
        cases heq
        exact .set ⟨hregistered.mp hkey, hkind⟩
      · rintro ⟨hkey, hkind⟩
        exact ⟨⟨rfl, hkind⟩, hregistered.mpr hkey, rfl⟩
    | setFor other stored ticks =>
      refine get?_store_iff.trans (or_congr ?_ Iff.rfl)
      rw [now_ofHistory]
      constructor
      · rintro ⟨⟨rfl, hkind⟩, hkey, heq⟩
        cases heq
        exact .setFor ⟨hregistered.mp hkey, hkind⟩ (Tick.toNat_after (MemoryHistory.now h) ticks)
      · rintro (_ | ⟨⟨hkey, hkind⟩, hruns⟩)
        refine ⟨⟨rfl, hkind⟩, hregistered.mpr hkey, ?_⟩
        rw [Tick.eq_after hruns]
    | erase other =>
      refine get?_erase_iff.trans ⟨.inr, ?_⟩
      rintro (hstores | hkept)
      · cases hstores
      · exact hkept
    | advance now =>
      refine get?_advance_iff.trans ⟨.inr, ?_⟩
      rintro (hstores | hkept)
      · cases hstores
      · exact hkept

/-- A key is present exactly with what its history tells. -/
theorem state_ofHistory_eq_present_iff {h : MemoryHistory} {key : MemoryKey} {value : MemoryValue}
    {expiresAt : Option Tick} :
    (ofHistory h).state key = .present value expiresAt ↔ h.Holds key value expiresAt := by
  have hexpired : MemorySlot.isExpired (ofHistory h).now (some (value, expiresAt)) = false ↔
      ∀ runsOut, expiresAt = some runsOut → (MemoryHistory.now h).count < runsOut.count := by
    rw [now_ofHistory]
    cases expiresAt with
    | none => simp [MemorySlot.isExpired]
    | some runsOut =>
      have hlt : ¬ runsOut ≤ MemoryHistory.now h ↔ (MemoryHistory.now h).count < runsOut.count :=
        UInt64.not_le
      simp [MemorySlot.isExpired, hlt]
  unfold MemoryHistory.Holds
  rw [← get?_ofHistory, ← hexpired]
  constructor
  · intro hstate
    have hkey : h.Registers key := by
      rw [← isRegistered_ofHistory, isRegistered_iff, hstate]
      exact nofun
    unfold state at hstate
    split at hstate
    · cases hstate
    · cases hstate
    · next hslot =>
      split at hstate
      · cases hstate
      · next hfresh =>
        cases hstate
        exact ⟨hkey, hslot, eq_false_of_ne_true hfresh⟩
  · rintro ⟨_, hslot, hfresh⟩
    unfold state
    simp only [hslot, hfresh, Bool.false_eq_true, if_false]

theorem state_ofHistory_eq_absent_iff {h : MemoryHistory} {key : MemoryKey} :
    (ofHistory h).state key = .absent ↔ ¬ h.Registers key := by
  rw [← isRegistered_ofHistory, isRegistered_iff, not_not]

theorem state_ofHistory_eq_registered_iff {h : MemoryHistory} {key : MemoryKey} :
    (ofHistory h).state key = .registered ↔
      h.Registers key ∧ ∀ value expiresAt, ¬ h.Holds key value expiresAt := by
  simp only [← isRegistered_ofHistory, isRegistered_iff, ← state_ofHistory_eq_present_iff]
  cases (ofHistory h).state key <;> simp

/-- A value that is stored for some ticks, and neither replaced nor erased, is there on just the ticks
before it runs out, as long as the time does not go back. -/
theorem state_ofHistory_setFor {h later : MemoryHistory} {key : MemoryKey} {value : MemoryValue}
    {ticks : UInt64} (haccepts : h.Accepts key value)
    (hforward : MemoryHistory.Forward (MemoryHistory.now h) later)
    (hlater : ∀ event ∈ later, ¬ MemoryHistory.Touches key none event) :
    (ofHistory (h ++ .setFor key value ticks :: later)).state key =
      if MemoryHistory.now h ≤ MemoryHistory.now (h ++ .setFor key value ticks :: later) ∧
          (MemoryHistory.now (h ++ .setFor key value ticks :: later)).count.toNat <
            min ((MemoryHistory.now h).count.toNat + ticks.toNat) (UInt64.size - 1) then
        .present value (some ((MemoryHistory.now h).after ticks))
      else .registered := by
  have hsplit : h ++ .setFor key value ticks :: later = (h ++ [.setFor key value ticks]) ++ later :=
    (List.append_cons h _ later)
  have hnow := MemoryHistory.now_append_cons h (.setFor key value ticks) later nofun
  have hregisters : (h ++ .setFor key value ticks :: later).Registers key :=
    List.mem_append_left _ haccepts.1
  -- Only the value that was stored for some ticks can be there at the end.
  have honly : ∀ {other expiresAt},
      (h ++ .setFor key value ticks :: later).Holds key other expiresAt →
        other = value ∧ expiresAt = some ((MemoryHistory.now h).after ticks) := by
    rintro other expiresAt ⟨_, hlast, _⟩
    rw [hsplit] at hlast
    rcases MemoryHistory.lastStored_append.mp (.of_append hlater hlast) with hstores | ⟨_, htouches⟩
    · cases hstores with
      | setFor _ hruns => exact ⟨rfl, congrArg some (Tick.eq_after hruns)⟩
    · exact absurd ⟨rfl, haccepts.2⟩ htouches
  split
  · next hbetween =>
    have hbefore := hbetween.2
    rw [← Tick.toNat_after, ← UInt64.lt_iff_toNat_lt] at hbefore
    refine state_ofHistory_eq_present_iff.mpr ⟨hregisters, ?_, ?_⟩
    · refine ⟨h, _, later, rfl, .setFor haccepts (Tick.toNat_after _ ticks), ?_⟩
      intro event hevent htouches
      refine hlater event hevent ?_
      cases event with
      | register other => exact htouches
      | set other stored => exact htouches
      | setFor other stored ticks => exact htouches
      | erase other => exact htouches
      | advance now =>
        -- An advance past the tick would leave the time past it.
        obtain ⟨_, heq, hreached⟩ := htouches
        cases heq
        have hin : now ∈ MemoryHistory.now h :: later.ticks :=
          List.mem_cons_of_mem _ (MemoryHistory.mem_ticks.mpr hevent)
        have hle := hforward.le_now hin
        rw [hnow] at hbefore
        exact absurd (UInt64.le_trans hreached hle) (UInt64.not_le.mpr hbefore)
    · rintro _ ⟨⟩
      exact hbefore
  · next hpast =>
    refine state_ofHistory_eq_registered_iff.mpr ⟨hregisters, ?_⟩
    intro other expiresAt hholds
    obtain ⟨rfl, rfl⟩ := honly hholds
    have hfresh := hholds.2.2 _ rfl
    rw [UInt64.lt_iff_toNat_lt, Tick.toNat_after] at hfresh
    refine hpast ⟨?_, hfresh⟩
    rw [hnow]
    exact hforward.le_now List.mem_cons_self

/-- A store goes through exactly if the history says so, and if it does not, nothing happens. -/
theorem store_ofHistory_getD {h : MemoryHistory} {key : MemoryKey} {value : MemoryValue}
    (hrefuses : ¬ h.Accepts key value) (expiresAt : Option Tick) :
    ((ofHistory h).store key value expiresAt).toOption.getD (ofHistory h) = ofHistory h := by
  rw [store_getD, if_neg]
  rintro ⟨hkind, hkey⟩
  exact hrefuses ⟨(isRegistered_ofHistory h key).mp hkey, hkind⟩

theorem exists_store_ofHistory_iff {h : MemoryHistory} {key : MemoryKey} {value : MemoryValue}
    {expiresAt : Option Tick} :
    (∃ b, (ofHistory h).store key value expiresAt = .ok b) ↔ h.Accepts key value := by
  simp only [store_eq_ok_iff, isRegistered_ofHistory]
  constructor
  · rintro ⟨_, hkind, hkey, _⟩
    exact ⟨hkey, hkind⟩
  · rintro ⟨hkey, hkind⟩
    exact ⟨_, hkind, hkey, rfl⟩

/-- After any history, each key is in the one of the three states that the history tells: absent if it
was never registered, present with what was stored last and has not run out since, and registered
otherwise. A value that is present has the kind of its key; a store goes through exactly if the key is
registered and the value has its kind, and otherwise changes nothing; clearing a key says whether it
had a value. A value that is stored for some ticks is there on just these ticks, as long as it is
neither replaced nor erased and the time does not go back. -/
theorem ofHistory_refines (h : MemoryHistory) (key : MemoryKey) :
    ((ofHistory h).state key = .absent ↔ ¬ h.Registers key) ∧
    (∀ value expiresAt,
      (ofHistory h).state key = .present value expiresAt ↔ h.Holds key value expiresAt) ∧
    ((ofHistory h).state key = .registered ↔
      h.Registers key ∧ ∀ value expiresAt, ¬ h.Holds key value expiresAt) ∧
    (∀ value expiresAt,
      (ofHistory h).state key = .present value expiresAt → value.kind = key.kind) ∧
    (∀ value, ((∃ b, (ofHistory h).set key value = .ok b) ↔ h.Accepts key value) ∧
      ∀ ticks, (∃ b, (ofHistory h).setFor key value ticks = .ok b) ↔ h.Accepts key value) ∧
    (∀ value, ¬ h.Accepts key value → ofHistory (h ++ [.set key value]) = ofHistory h ∧
      ∀ ticks, ofHistory (h ++ [.setFor key value ticks]) = ofHistory h) ∧
    (((ofHistory h).clear key).1 = true ↔ ∃ value expiresAt, h.Holds key value expiresAt) ∧
    (∀ value ticks later, h.Accepts key value →
      MemoryHistory.Forward (MemoryHistory.now h) later →
      (∀ event ∈ later, ¬ MemoryHistory.Touches key none event) →
      (ofHistory (h ++ .setFor key value ticks :: later)).state key =
        if MemoryHistory.now h ≤ MemoryHistory.now (h ++ .setFor key value ticks :: later) ∧
            (MemoryHistory.now (h ++ .setFor key value ticks :: later)).count.toNat <
              min ((MemoryHistory.now h).count.toNat + ticks.toNat) (UInt64.size - 1) then
          .present value (some ((MemoryHistory.now h).after ticks))
        else .registered) := by
  refine ⟨state_ofHistory_eq_absent_iff, fun _ _ => state_ofHistory_eq_present_iff,
    state_ofHistory_eq_registered_iff, ?kinds,
    fun _ => ⟨exists_store_ofHistory_iff, fun _ => exists_store_ofHistory_iff⟩, ?refused, ?clear,
    fun _ _ _ => state_ofHistory_setFor⟩
  case kinds =>
    intro value expiresAt hpresent
    obtain ⟨_, ⟨before, event, after, _, hstores, _⟩, _⟩ :=
      state_ofHistory_eq_present_iff.mp hpresent
    exact hstores.accepts.2
  case refused =>
    intro value hrefuses
    constructor
    · rw [ofHistory_append]
      exact store_ofHistory_getD hrefuses none
    · intro ticks
      rw [ofHistory_append]
      exact store_ofHistory_getD hrefuses _
  case clear =>
    simp only [← state_ofHistory_eq_present_iff, clear, hasValue]
    cases (ofHistory h).state key <;> simp [MemoryState.isPresent]

/-- A pause of forty ticks from tick 100 on is there at tick 139 and is over at tick 140. -/
theorem ofHistory_refines_pause :
    (ofHistory [.register .pathCooldown, .advance ⟨100⟩, .setFor .pathCooldown .flag 40,
      .advance ⟨139⟩]).state .pathCooldown = .present .flag (some ⟨140⟩) ∧
    (ofHistory [.register .pathCooldown, .advance ⟨100⟩, .setFor .pathCooldown .flag 40,
      .advance ⟨139⟩, .advance ⟨140⟩]).state .pathCooldown = .registered := by
  have hpause := ((((((ofHistory_refines [.register .pathCooldown, .advance ⟨100⟩]
    .pathCooldown).2).2).2).2).2).2.2 .flag 40
  have haccepts : MemoryHistory.Accepts [.register .pathCooldown, .advance ⟨100⟩] .pathCooldown
      .flag := ⟨List.mem_cons_self, rfl⟩
  constructor
  · refine (hpause [.advance ⟨139⟩] haccepts ?_ ?_).trans (by rfl)
    · simp [MemoryHistory.Forward, MemoryHistory.ticks, MemoryHistory.now]
      decide
    · simp [MemoryHistory.Touches]
  · refine (hpause [.advance ⟨139⟩, .advance ⟨140⟩] haccepts ?_ ?_).trans (by rfl)
    · simp [MemoryHistory.Forward, MemoryHistory.ticks, MemoryHistory.now]
      decide
    · simp [MemoryHistory.Touches]

end Blackboard

end Menagerie
