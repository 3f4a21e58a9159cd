import Menagerie.Proofs.Agent.Runs
import Menagerie.Proofs.World.Traits

/-!
# Waking up

A sleeper that remembers being hurt wakes up in a turn of the task for that, whether it is drowsy or not
(`Leaf.run_wakeUp`). No other task takes it out of its sleep (`LeafRun.not_mayKeep_sleeping`), and the one that
puts agents to sleep does nothing to those that sleep already (`LeafRun.after_eq_of_goToSleep`).
-/

namespace Menagerie

/-- Whether a body remembers that it sleeps, and that it was hurt. -/
structure Body.Roused (b : Body) : Prop where
  asleep : (b.memory.state .sleeping).isPresent
  hurt : (b.memory.state .hurtBy).isPresent

namespace Task

open Act

variable {env : ActEnv} {s : Stage}

/-- Who was hurt is told to stand up, and forgets that it slept. -/
theorem meets_wakeUp (activity : Activity) {b : Body} (hb : s.world.body? env.agent = some b)
    (hhurt : (b.memory.state .hurtBy).isPresent) :
    Meets (wakeUp activity) env s
      (fun woke s' => woke = true ∧ s'.world.remembered? env.agent .sleeping = none ∧
        s'.world.intents = s.world.intents ++ [(env.agent, .setPose .standing)])
      fun _ _ => False := by
  have hremembered : (s.world.remembered? env.agent .hurtBy).isSome := by
    rw [World.remembered?_of_body? hb, Blackboard.isSome_get?]
    exact hhurt
  let memory := (b.memory.erase .sleeping).erase .restPosition
  have hforgotten : memory.get? .sleeping = none := by
    have hslept := b.memory.get?_erase_self .sleeping
    unfold Blackboard.get? at hslept ⊢
    rw [Blackboard.state_erase, if_neg (by decide)]
    exact hslept
  let woken := ((s.world.issue env.agent (.setPose .standing)).mapMemory env.agent
    fun m => m.erase .sleeping).mapMemory env.agent fun m => m.erase .restPosition
  have hwoken : woken.body? env.agent = some { b with memory } := by
    have hissued : (s.world.issue env.agent (.setPose .standing)).body? env.agent = some b := hb
    exact World.body?_mapMemory_self (World.body?_mapMemory_self hissued _) _
  unfold wakeUp
  simp only [meets_bind, (yields_remembered _ env s).meets, hremembered, Bool.not_true, Bool.and_false,
    Bool.false_eq_true, if_false, meets_issue, meets_forget, activate, (yields_schedule env _).meets]
  -- Whether there is the activity to go on with does not matter.
  split
  · simp only [meets_pure]
    exact ⟨trivial, (World.remembered?_of_body? hwoken _).trans hforgotten, rfl⟩
  · next schedule _ =>
    simp only [meets_bind, meets_read, meets_modifyWorld, meets_pure]
    refine ⟨trivial, ?_, rfl⟩
    have hbody : (woken.updateBody env.agent fun b => { b with schedule }).body? env.agent =
        some { b with memory, schedule } := by
      rw [World.body?_updateBody, if_pos rfl, hwoken]
      rfl
    exact (World.remembered?_of_body? hbody _).trans hforgotten

end Task

/-- A sleeper that was hurt wakes up, drowsy or not. -/
theorem Leaf.run_wakeUp {env : ActEnv} {s : Stage} {b : Body} (activity : Activity)
    (hb : s.world.body? env.agent = some b) (hroused : b.Roused) :
    ∃ s', (wakeUp activity).run env s = ⟨.ok .success, wakeUp activity, s'⟩ ∧
      s'.world.remembered? env.agent .sleeping = none ∧
      s'.world.intents = s.world.intents ++ [(env.agent, .setPose .standing)] := by
  have hsatisfied : b.memory.satisfiesAll (wakeUp activity).needs.requirements := by
    have hpresent : b.memory.satisfies (.present .sleeping) := hroused.asleep
    exact List.all_eq_true.mpr (List.forall_mem_singleton.mpr hpresent)
  obtain ⟨woke, s', hrun, rfl, hforgotten, hstands⟩ :=
    Act.exists_of_meets (Task.meets_wakeUp activity hb hroused.hurt)
  have hact : (wakeUp activity).act.runOn env s = (.ok true, s') := hrun
  refine ⟨s', ?_, hforgotten, hstands⟩
  rw [run_of_satisfied hb hsatisfied]
  dsimp only [turn]
  rw [hact]
  rfl

namespace LeafRun

variable {r : LeafRun} {b : Body}

/-- Whether an agent wakes up in a run: the run succeeds, the agent is told to stand up, and it remembers no
more that it slept. -/
structure Wakes (r : LeafRun) : Prop where
  succeeds : (r.leaf.run r.env r.stage).outcome = .ok .success
  forgets : r.after.world.remembered? r.env.agent .sleeping = none
  stands : r.after.world.intents = r.stage.world.intents ++ [(r.env.agent, .setPose .standing)]

theorem wakes_of_hurt {activity : Activity} (hleaf : r.leaf = .wakeUp activity)
    (hb : r.stage.world.body? r.env.agent = some b) (hroused : b.Roused) : r.Wakes := by
  obtain ⟨s', hrun, hforgotten, hstands⟩ := Leaf.run_wakeUp activity hb hroused
  rw [← hleaf] at hrun
  have hafter : r.after = s' := congrArg Ticked.state hrun
  rw [← hafter] at hforgotten hstands
  exact ⟨congrArg Ticked.outcome hrun, hforgotten, hstands⟩

/-- Apart from waking up and falling asleep no leaf has a say in whether an agent sleeps. -/
theorem not_mayKeep_sleeping {l : Leaf} (hwakes : ∀ activity, l ≠ .wakeUp activity)
    (hsleeps : ∀ activity, l ≠ .goToSleep activity) (now : Tick) (slot : MemorySlot) :
    ¬ MayKeep l.touched l.pause? now .sleeping slot := by
  rintro (htouched | ⟨ticks, hpause, _⟩)
  · cases l with
    | wakeUp activity => exact hwakes activity rfl
    | goToSleep activity => exact hsleeps activity rfl
    | _ => simp [Leaf.touched] at htouched
  · cases l <;> simp [Leaf.pause?] at hpause

/-- A sleeper does not fall asleep again. -/
theorem after_eq_of_goToSleep {activity : Activity} (hleaf : r.leaf = .goToSleep activity)
    (hb : r.stage.world.body? r.env.agent = some b) (hasleep : (b.memory.state .sleeping).isPresent) :
    r.after = r.stage := by
  unfold after
  rcases r.leaf.run_cases r.env r.stage with ⟨memory, hmemory, hall, _⟩ | hidle
  · obtain rfl : b.memory = memory := by
      unfold World.memory? at hmemory
      rw [hb] at hmemory
      exact Option.some.inj hmemory
    rw [hleaf] at hall
    have hempty : (b.memory.state .sleeping).isEmpty :=
      List.all_eq_true.mp hall (.empty .sleeping) (.tail _ (.head _))
    cases hstate : b.memory.state .sleeping with
    | absent | registered =>
      rw [hstate] at hasleep
      cases hasleep
    | present =>
      rw [hstate] at hempty
      cases hempty
  · rw [hidle]

end LeafRun

end Menagerie
