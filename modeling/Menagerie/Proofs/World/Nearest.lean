import Menagerie.Proofs.Number.Unsigned
import Menagerie.Proofs.Selection
import Menagerie.Proofs.SortedMap
import Menagerie.World.Basic

/-!
# What is nearest in a world

A search of a world finds the nearest of what suits it, and nothing only where nothing suits it
(`World.searches_exact`). Of features that are as near as one another it finds the one that was added first, of
items the one with the lowest number, in whatever order they were added.

The searches compare distances on the line of all doubles, where negative zero comes before zero and what is not a
number has a place of its own. Distances are roots of sums of squares, so they have no sign, and within a range
there are numbers only: what is found is the nearest as numbers are compared (`firstLeast?_filter_distance`).
-/

namespace Menagerie

open Number

theorem Position.unsigned_distance (p q : Position) : Unsigned (p.distance q) :=
  (((unsigned_mul_self _).add (unsigned_mul_self _)).add (unsigned_mul_self _)).sqrt

theorem Position.unsigned_horizontalDistance (p q : Position) : Unsigned (p.horizontalDistance q) :=
  ((unsigned_mul_self _).add (unsigned_mul_self _)).sqrt

/-- What is picked by unsigned distances is the first of the nearest, where all that suits is at a distance that is a
number. -/
theorem firstLeast?_filter_distance {α : Type} {distance : α → Float} {suits : α → Bool} {l : List α} {a : α}
    (hunsigned : ∀ a, Unsigned (distance a)) (hnumber : ∀ a, suits a → IsNumber (distance a)) :
    firstLeast? (fun a b => orderKey (distance a) < orderKey (distance b)) (l.filter suits) = some a ↔
      ∃ l₁ l₂, l = l₁ ++ a :: l₂ ∧ suits a ∧ (∀ b ∈ l₁, suits b → distance a < distance b) ∧
        ∀ b ∈ l₂, suits b → distance a ≤ distance b := by
  have hlt {b : α} (ha : suits a) (hb : suits b) :=
    orderKey_lt_iff (hnumber a ha) (hnumber b hb) (hunsigned a) (hunsigned b)
  have hle {b : α} (ha : suits a) (hb : suits b) :=
    orderKey_le_iff (hnumber a ha) (hnumber b hb) (hunsigned a) (hunsigned b)
  rw [firstLeast?_filter_eq_some_iff (fun _ _ => decide_eq_true_iff)]
  refine exists_congr fun l₁ => exists_congr fun l₂ => and_congr_right' (and_congr_right fun ha => ?_)
  refine and_congr ?_ ?_
  · exact forall₃_congr fun _ _ hb => hlt ha hb
  · exact forall₃_congr fun _ _ hb => hle ha hb

/-- Whether a feature is of a kind and within a horizontal and a vertical range. -/
def Feature.Within (f : Feature) (origin : Position) (kind : FeatureKind) (horizontal vertical : Float) : Prop :=
  f.kind = kind ∧ origin.horizontalDistance f.position ≤ horizontal ∧ (f.position.y - origin.y).abs ≤ vertical

namespace World

variable {w : World} {origin p : Position} {kind : FeatureKind} {horizontal vertical range : Float} {id : ItemId}

/-! ## Features -/

def addFeatures (w : World) (added : List Feature) : World := added.foldl addFeature w

/-- Features are kept in the order in which they were added. -/
theorem features_addFeatures (w : World) (added : List Feature) :
    (w.addFeatures added).features = w.features ++ added := by
  induction added generalizing w with
  | nil => exact (List.append_nil _).symm
  | cons f rest ih => exact (ih (w.addFeature f)).trans (List.append_assoc _ _ _)

/-- Whether at a point is the nearest feature of a kind within both ranges, the first that was added of those that
are as near. -/
def IsNearestFeature (w : World) (origin : Position) (kind : FeatureKind) (horizontal vertical : Float)
    (p : Position) : Prop :=
  ∃ earlier f later, w.features = earlier ++ f :: later ∧ f.position = p ∧
    f.Within origin kind horizontal vertical ∧
    (∀ g ∈ earlier, g.Within origin kind horizontal vertical →
      origin.horizontalDistance p < origin.horizontalDistance g.position) ∧
    ∀ g ∈ later, g.Within origin kind horizontal vertical →
      origin.horizontalDistance p ≤ origin.horizontalDistance g.position

theorem suits_feature_iff (f : Feature) : (f.kind == kind && origin.horizontalDistance f.position ≤ horizontal &&
    (f.position.y - origin.y).abs ≤ vertical) = true ↔ f.Within origin kind horizontal vertical := by
  unfold Feature.Within
  rw [Bool.and_eq_true, Bool.and_eq_true, beq_iff_eq, decide_eq_true_iff, decide_eq_true_iff, and_assoc]

theorem findFeature?_eq_none_iff : w.findFeature? origin kind horizontal vertical = none ↔
    ∀ f ∈ w.features, ¬ f.Within origin kind horizontal vertical := by
  unfold findFeature?
  dsimp only
  rw [Option.map_eq_none_iff, firstLeast?_eq_none_iff, List.filter_eq_nil_iff]
  exact forall₂_congr fun f _ => not_congr (suits_feature_iff f)

theorem findFeature?_eq_some_iff : w.findFeature? origin kind horizontal vertical = some p ↔
    w.IsNearestFeature origin kind horizontal vertical p := by
  unfold findFeature? IsNearestFeature
  dsimp only
  rw [Option.map_eq_some_iff]
  simp only [firstLeast?_filter_distance (fun f : Feature => origin.unsigned_horizontalDistance f.position)
    (fun f hf => (le_iff.mp ((suits_feature_iff f).mp hf).2.1).1), suits_feature_iff]
  constructor
  · rintro ⟨f, ⟨earlier, later, hsplit, hwithin, hless, hle⟩, rfl⟩
    exact ⟨earlier, f, later, hsplit, rfl, hwithin, hless, hle⟩
  · rintro ⟨earlier, f, later, hsplit, rfl, hwithin, hless, hle⟩
    exact ⟨f, ⟨earlier, later, hsplit, hwithin, hless, hle⟩, rfl⟩

/-! ## Items -/

def addItems (w : World) (added : List (ItemId × Position)) : World :=
  added.foldl (fun w item => w.addItem item.1 item.2) w

theorem addItems_eq (w : World) (added : List (ItemId × Position)) :
    w.addItems added = { w with items := w.items.insertAll added } := by
  induction added generalizing w with
  | nil => rfl
  | cons item rest ih => exact ih (w.addItem item.1 item.2)

/-- Items of different numbers may be added in any order. -/
theorem addItems_perm {added added' : List (ItemId × Position)} (hperm : added.Perm added')
    (hnodup : (added.map Prod.fst).Nodup) (w : World) : w.addItems added = w.addItems added' := by
  rw [addItems_eq, addItems_eq, SortedMap.insertAll_perm hperm hnodup]

/-- Whether an item lies at a point within a range. -/
def LiesWithin (w : World) (origin : Position) (range : Float) (id : ItemId) (p : Position) : Prop :=
  w.itemPosition? id = some p ∧ origin.distance p ≤ range

/-- Whether an item is the nearest within a range, the one with the lowest number of those that are as near. -/
def IsNearestItem (w : World) (origin : Position) (range : Float) (id : ItemId) : Prop :=
  ∃ p, w.LiesWithin origin range id p ∧ ∀ other q, other ≠ id → w.LiesWithin origin range other q →
    origin.distance p < origin.distance q ∨
      origin.distance p == origin.distance q ∧ id.number < other.number

theorem nearestItem?_eq_none_iff : w.nearestItem? origin range = none ↔
    ∀ id p, ¬ w.LiesWithin origin range id p := by
  unfold nearestItem? LiesWithin itemPosition?
  dsimp only
  rw [Option.map_eq_none_iff, firstLeast?_eq_none_iff, List.filter_eq_nil_iff]
  simp only [SortedMap.get?_eq_some_iff, Prod.forall, decide_eq_true_iff, not_and]
  rfl

/-- Items are kept in the order of their numbers. -/
theorem number_lt_of_split {earlier later : List (ItemId × Position)}
    (hsplit : w.items.toList = earlier ++ (id, p) :: later) :
    (∀ item ∈ earlier, item.1.number < id.number) ∧ ∀ item ∈ later, id.number < item.1.number := by
  have hascending := w.items.ascending
  rw [show w.items.entries = _ from hsplit, List.pairwise_append, List.pairwise_cons] at hascending
  obtain ⟨_, ⟨hlater, _⟩, hearlier⟩ := hascending
  exact ⟨fun item hitem => Std.compare_eq_lt.mp (hearlier item hitem (id, p) List.mem_cons_self),
    fun item hitem => Std.compare_eq_lt.mp (hlater item hitem)⟩

theorem nearestItem?_eq_some_iff : w.nearestItem? origin range = some id ↔ w.IsNearestItem origin range id := by
  have hlies {other : ItemId} {q : Position} : w.LiesWithin origin range other q ↔
      (other, q) ∈ w.items.toList ∧ origin.distance q ≤ range := and_congr_left' SortedMap.get?_eq_some_iff
  unfold nearestItem? IsNearestItem
  dsimp only
  rw [Option.map_eq_some_iff]
  simp only [firstLeast?_filter_distance (fun item : ItemId × Position => origin.unsigned_distance item.2)
    (fun item hitem => (le_iff.mp (of_decide_eq_true hitem)).1), decide_eq_true_iff, hlies]
  constructor
  · rintro ⟨⟨id, p⟩, ⟨earlier, later, hsplit, hrange, hless, hle⟩, rfl⟩
    refine ⟨p, ⟨hsplit ▸ List.mem_append_cons_self, hrange⟩, ?_⟩
    rintro other q hne ⟨hmem, hrange'⟩
    rw [hsplit, List.mem_append, List.mem_cons] at hmem
    obtain hearlier | heq | hlater := hmem
    · exact .inl (hless (other, q) hearlier hrange')
    · exact absurd (congrArg Prod.fst heq) hne
    · exact (lt_or_beq_of_le (hle (other, q) hlater hrange')).imp_right
        fun hbeq => ⟨hbeq, (number_lt_of_split hsplit).2 _ hlater⟩
  · rintro ⟨p, ⟨hmem, hrange⟩, hleast⟩
    obtain ⟨earlier, later, hsplit⟩ := List.append_of_mem hmem
    obtain ⟨hlower, hhigher⟩ := number_lt_of_split hsplit
    refine ⟨(id, p), ⟨earlier, later, hsplit, hrange, ?_, ?_⟩, rfl⟩
    · rintro ⟨other, q⟩ hearlier hrange'
      have hnumber : other.number < id.number := hlower _ hearlier
      have hne : other ≠ id := fun heq => UInt32.ne_of_lt hnumber (congrArg ItemId.number heq)
      have hmem' : (other, q) ∈ w.items.toList := hsplit ▸ List.mem_append_left _ hearlier
      obtain hlt | ⟨_, hnumber'⟩ := hleast other q hne ⟨hmem', hrange'⟩
      · exact hlt
      · exact absurd hnumber' (UInt32.lt_asymm hnumber)
    · rintro ⟨other, q⟩ hlater hrange'
      have hnumber : id.number < other.number := hhigher _ hlater
      have hne : other ≠ id := fun heq => UInt32.ne_of_lt hnumber (congrArg ItemId.number heq.symm)
      have hmem' : (other, q) ∈ w.items.toList :=
        hsplit ▸ List.mem_append_right _ (List.mem_cons_of_mem _ hlater)
      obtain hlt | ⟨hbeq, _⟩ := hleast other q hne ⟨hmem', hrange'⟩
      · exact le_of_lt hlt
      · exact le_of_beq hbeq

/-! ## Both searches -/

/-- A search finds nothing where nothing suits it, and otherwise the nearest of what does: the feature that was added
first, or the item with the lowest number, in whatever order the items were added. -/
theorem searches_exact (w : World) (origin : Position) :
    (∀ kind horizontal vertical,
      (w.findFeature? origin kind horizontal vertical = none ↔
        ∀ f ∈ w.features, ¬ f.Within origin kind horizontal vertical) ∧
      ∀ p, w.findFeature? origin kind horizontal vertical = some p ↔
        w.IsNearestFeature origin kind horizontal vertical p) ∧
    (∀ added, (w.addFeatures added).features = w.features ++ added) ∧
    ∀ range,
      (w.nearestItem? origin range = none ↔ ∀ id p, ¬ w.LiesWithin origin range id p) ∧
      (∀ id, w.nearestItem? origin range = some id ↔ w.IsNearestItem origin range id) ∧
      ∀ added added', (added.map Prod.fst).Nodup → added.Perm added' →
        (w.addItems added).nearestItem? origin range = (w.addItems added').nearestItem? origin range := by
  refine ⟨?_, w.features_addFeatures, ?_⟩
  · exact fun kind horizontal vertical => ⟨findFeature?_eq_none_iff, fun p => findFeature?_eq_some_iff⟩
  · refine fun range => ⟨nearestItem?_eq_none_iff, fun id => nearestItem?_eq_some_iff, ?_⟩
    intro added added' hnodup hperm
    rw [addItems_perm hperm hnodup]

/-- A meadow with three flowers. The second grows on a hill; the other two are as far from the middle as one
another. -/
def meadow : World where
  clock := ⟨.zero, Clock.defaultDayLength⟩
  terrain := {}
  movementSpeed := 1.0
  features := [⟨.flower, ⟨6.0, 64.0, 0.0⟩⟩, ⟨.flower, ⟨2.0, 70.0, 0.0⟩⟩, ⟨.flower, ⟨0.0, 64.0, 6.0⟩⟩]

/-- The first flower is found, but not from within five blocks; of two items at one distance the one with the lower
number is found, whichever was put there first. -/
theorem searches_exact_meadow :
    let middle : Position := ⟨0.0, 64.0, 0.0⟩
    let east : ItemId × Position := (⟨2⟩, ⟨3.0, 64.0, 0.0⟩)
    let west : ItemId × Position := (⟨1⟩, ⟨-3.0, 64.0, 0.0⟩)
    meadow.IsNearestFeature middle .flower 8.0 2.0 ⟨6.0, 64.0, 0.0⟩ ∧
    (∀ f ∈ meadow.features, ¬ f.Within middle .flower 5.0 2.0) ∧
    (meadow.addItems [east, west]).IsNearestItem middle 8.0 ⟨1⟩ ∧
    (meadow.addItems [east, west]).nearestItem? middle 8.0 = (meadow.addItems [west, east]).nearestItem? middle 8.0 := by
  intro middle east west
  have hmeadow := searches_exact meadow middle
  have hitems := searches_exact (meadow.addItems [east, west]) middle
  refine ⟨?_, ?_, ?_, ?_⟩
  · exact ((hmeadow.1 .flower 8.0 2.0).2 _).mp (by decide +kernel)
  · exact (hmeadow.1 .flower 5.0 2.0).1.mp (by decide +kernel)
  · exact ((hitems.2.2 8.0).2.1 ⟨1⟩).mp (by decide +kernel)
  · exact (hmeadow.2.2 8.0).2.2 _ _ (by decide) (.swap west east [])

end World

end Menagerie
