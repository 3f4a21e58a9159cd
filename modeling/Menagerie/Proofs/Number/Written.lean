import Mathlib.Data.List.TakeWhile
import Menagerie.Proofs.Number.Shortest

/-!
# Numbers as they are written

A finite double without a sign is written as digits, with a point between them or none, and what is written is read as
that double (`render_unsigned`). One with a sign is written as its negation behind a minus (`unsigned_or_neg`).
-/

namespace Menagerie.Number

open Float.Model Float.Model.UnpackedFloat

variable {c : Char} {cs whole fraction digits : List Char} {m : ℕ} {e : ℤ} {x : Float}

/-! ## Digits -/

theorem isDigit_of_mem_toDigits {n : ℕ} (h : c ∈ Nat.toDigits 10 n) : isDigit c = true :=
  Nat.isDigit_of_mem_toDigits (by decide) (by decide) h

theorem isDigit_of_mem_zeros {n : ℕ} (h : c ∈ List.replicate n '0') : isDigit c = true := by
  rw [List.eq_of_mem_replicate h]
  rfl

theorem ofDigits_eq (cs : List Char) : ofDigits cs = Nat.ofDigitChars 10 cs 0 := by
  unfold ofDigits Nat.ofDigitChars
  congr 1
  funext n c
  rw [mul_comm]

theorem ofDigits_toDigits (n : ℕ) : ofDigits (Nat.toDigits 10 n) = n := by
  rw [ofDigits_eq, Nat.ofDigitChars_ten_toDigits]

theorem ofDigits_zeros_append (n : ℕ) (cs : List Char) : ofDigits (List.replicate n '0' ++ cs) = ofDigits cs := by
  rw [ofDigits_eq, ofDigits_eq, Nat.ofDigitChars_append, Nat.ofDigitChars_replicate_zero, mul_zero]

theorem ofDigits_append_zeros (n : ℕ) (cs : List Char) :
    ofDigits (cs ++ List.replicate n '0') = ofDigits cs * 10 ^ n := by
  rw [ofDigits_eq, ofDigits_eq, Nat.ofDigitChars_append, Nat.ofDigitChars_replicate_zero, mul_comm]

/-! ## Digits with a point -/

/-- Digits before a point and after it. Where there are none after it, the point is not written. -/
def pointed (whole fraction : List Char) : List Char :=
  if fraction = [] then whole else whole ++ '.' :: fraction

theorem readDecimal_pointed (hne : whole ≠ []) (hwhole : ∀ c ∈ whole, isDigit c = true)
    (hfraction : ∀ c ∈ fraction, isDigit c = true) :
    readDecimal (pointed whole fraction) = some ⟨ofDigits (whole ++ fraction), -fraction.length⟩ := by
  have htake {ds : List Char} (h : ∀ c ∈ ds, isDigit c = true) : ds.takeWhile isDigit = ds :=
    List.takeWhile_eq_self_iff.mpr h
  have hdrop {ds : List Char} (h : ∀ c ∈ ds, isDigit c = true) : ds.dropWhile isDigit = [] :=
    List.dropWhile_eq_nil_iff.mpr h
  unfold pointed readDecimal
  dsimp only
  by_cases hnone : fraction = []
  · rw [if_pos hnone, htake hwhole, hdrop hwhole, hnone, if_neg (fun h => hne h.1)]
    rfl
  · have hpoint : isDigit '.' ≠ true := by decide
    rw [if_neg hnone, List.takeWhile_append_of_pos hwhole, List.dropWhile_append_of_pos hwhole,
      List.takeWhile_cons_of_neg hpoint, List.dropWhile_cons_of_neg hpoint, List.append_nil]
    show (if whole = [] ∧ fraction.takeWhile isDigit = [] then none
      else (readExponent (fraction.dropWhile isDigit)).map fun e =>
        Decimal.mk (ofDigits (whole ++ fraction.takeWhile isDigit)) (e - (fraction.takeWhile isDigit).length)) = _
    rw [htake hfraction, hdrop hfraction, if_neg (fun h => hne h.1)]
    exact congrArg some (congrArg (Decimal.mk _) (zero_sub _))

theorem ne_of_isDigit {d : Char} (h : isDigit c = true) (hd : isDigit d = false) : c ≠ d := by
  rintro rfl
  exact Bool.false_ne_true (hd.symm.trans h)

theorem toLower_of_isDigit (h : isDigit c = true) : c.toLower = c := by
  unfold Char.toLower
  split
  · next hupper =>
    have hnine : c.val ≤ '9'.val := of_decide_eq_true (Bool.and_eq_true_iff.mp h).2
    have hbetween : 'A'.val ≤ '9'.val := UInt32.le_trans hupper.1 hnine
    exact absurd hbetween (by decide)
  · rfl

/-- What begins with a digit is no word and has no sign. -/
theorem read?_of_isDigit (h : isDigit c = true) :
    read? (c :: cs) = (readDecimal (c :: cs)).map (Decimal.toFloat false) := by
  have hsplit : splitSign (c :: cs) = (false, c :: cs) := by
    unfold splitSign
    split
    · next heq => exact absurd (List.cons.inj heq).1 (ne_of_isDigit h rfl)
    · next heq => exact absurd (List.cons.inj heq).1 (ne_of_isDigit h rfl)
    · rfl
  have hlower : Text.lower (c :: cs) = c :: Text.lower cs := congrArg (· :: Text.lower cs) (toLower_of_isDigit h)
  have hword {w : Char} {ws : List Char} (hw : isDigit w = false) : Text.lower (c :: cs) ≠ w :: ws := by
    rw [hlower]
    exact fun heq => ne_of_isDigit h hw (List.cons.inj heq).1
  unfold read?
  rw [hsplit]
  dsimp only
  rw [if_neg (fun hor => hor.elim (hword rfl) (hword rfl)),
    if_neg (show Text.lower (c :: cs) ≠ "nan".toList from hword rfl)]

/-! ## Decimals as they are written -/

/-- Whether a text is digits, with a point somewhere behind the first of them or none, that stand for a number. -/
structure Spells (text : List Char) (q : ℚ) : Prop where
  starts : ∃ c cs, text = c :: cs ∧ isDigit c = true
  parts : ∀ c ∈ text, isDigit c = true ∨ c = '.'
  reads : ∃ d : Decimal, readDecimal text = some d ∧ d.value = q

theorem spells_of_pointed {text : List Char} {q : ℚ} (whole fraction : List Char)
    (htext : text = pointed whole fraction) (hne : whole ≠ []) (hwhole : ∀ c ∈ whole, isDigit c = true)
    (hfraction : ∀ c ∈ fraction, isDigit c = true)
    (hvalue : Decimal.value ⟨ofDigits (whole ++ fraction), -fraction.length⟩ = q) : Spells text q := by
  subst htext
  refine ⟨?_, ?_, _, readDecimal_pointed hne hwhole hfraction, hvalue⟩
  · obtain ⟨c, rest, rfl⟩ := List.exists_cons_of_ne_nil hne
    have hc := hwhole c (List.mem_cons_self ..)
    unfold pointed
    split
    · exact ⟨c, rest, rfl, hc⟩
    · exact ⟨c, rest ++ '.' :: fraction, rfl, hc⟩
  · unfold pointed
    split
    · exact fun c hc => .inl (hwhole c hc)
    · intro c hc
      obtain hc | hc := List.mem_append.mp hc
      · exact .inl (hwhole c hc)
      · exact (List.mem_cons.mp hc).elim .inr fun hc => .inl (hfraction c hc)

section Point

variable (hne : digits ≠ []) (hdigits : ∀ c ∈ digits, isDigit c = true)

include hne hdigits

/-- Digits behind a point and zeros. -/
theorem spells_behind (n : ℕ) : Spells ("0." ++ String.ofList (List.replicate n '0' ++ digits)).toList
    (Decimal.value ⟨ofDigits digits, -n - digits.length⟩) := by
  refine spells_of_pointed ['0'] (List.replicate n '0' ++ digits) ?_ (List.cons_ne_nil '0' []) ?_ ?_ ?_
  · unfold pointed
    rw [if_neg (List.append_ne_nil_of_right_ne_nil _ hne), String.toList_append]
    exact congrArg ("0.".toList ++ ·) String.toList_ofList
  · intro c hc
    rw [List.mem_singleton.mp hc]
    rfl
  · exact fun c hc => (List.mem_append.mp hc).elim isDigit_of_mem_zeros (hdigits c)
  · have hzeros : ofDigits (['0'] ++ (List.replicate n '0' ++ digits)) = ofDigits digits :=
      ofDigits_zeros_append (n + 1) digits
    have hlength : -((List.replicate n '0' ++ digits).length : ℤ) = -n - digits.length := by
      rw [List.length_append, List.length_replicate]
      omega
    rw [hzeros, hlength]

/-- Digits with zeros behind them. -/
theorem spells_before (n : ℕ) : Spells (String.ofList (digits ++ List.replicate n '0') ++ "").toList
    (Decimal.value ⟨ofDigits digits, n⟩) := by
  refine spells_of_pointed (digits ++ List.replicate n '0') [] ?_ (List.append_ne_nil_of_left_ne_nil hne _) ?_ ?_ ?_
  · rw [String.append_empty, String.toList_ofList]
    rfl
  · exact fun c hc => (List.mem_append.mp hc).elim (hdigits c) isDigit_of_mem_zeros
  · exact fun c hc => absurd hc List.not_mem_nil
  · unfold Decimal.value
    dsimp only
    rw [List.append_nil, ofDigits_append_zeros, List.length_nil, Nat.cast_zero, neg_zero, zpow_zero, mul_one,
      zpow_natCast]
    norm_cast

/-- Digits with a point between them. -/
theorem spells_between {n : ℕ} (hpos : 0 < n) (hn : n < digits.length) :
    Spells (String.ofList (digits.take n ++ '.' :: digits.drop n)).toList
      (Decimal.value ⟨ofDigits digits, n - digits.length⟩) := by
  have hrest : digits.drop n ≠ [] := by
    rw [ne_eq, List.drop_eq_nil_iff]
    omega
  refine spells_of_pointed (digits.take n) (digits.drop n) ?_ ?_ ?_ ?_ ?_
  · unfold pointed
    rw [String.toList_ofList, if_neg hrest]
  · rw [ne_eq, List.take_eq_nil_iff]
    exact fun h => h.elim hpos.ne' hne
  · exact fun c hc => hdigits c (List.mem_of_mem_take hc)
  · exact fun c hc => hdigits c (List.mem_of_mem_drop hc)
  · rw [List.take_append_drop, List.length_drop, show -((digits.length - n : ℕ) : ℤ) = n - digits.length by omega]

/-- The point is put behind as many digits as are before it, with zeros for those that are missing. -/
theorem spells_positionalText (point : ℤ) : Spells (Notation.plain.positionalText digits point).toList
    (Decimal.value ⟨ofDigits digits, point - digits.length⟩) := by
  unfold Notation.positionalText
  split
  · next hbefore =>
    have hspells := spells_behind hne hdigits (-point).toNat
    rw [show -((-point).toNat : ℤ) = point by omega] at hspells
    exact hspells
  · next hafter =>
    dsimp only
    split
    · next hlong =>
      have hspells := spells_before hne hdigits (point.toNat - digits.length)
      rw [show ((point.toNat - digits.length : ℕ) : ℤ) = point - digits.length by omega] at hspells
      exact hspells
    · next hshort =>
      have hspells := spells_between hne hdigits (n := point.toNat) (by omega) (by omega)
      rw [show (point.toNat : ℤ) = point by omega] at hspells
      exact hspells

end Point

/-- A decimal is written as the number that it stands for. -/
theorem spells_decimal (d : Decimal) :
    Spells (Notation.plain.positionalText d.digits (d.digits.length + d.exponent)).toList d.value := by
  have hdigits : ∀ c ∈ d.digits, isDigit c = true := fun c => isDigit_of_mem_toDigits
  have hne : d.digits ≠ [] := Nat.toDigits_ne_nil
  have hspells := spells_positionalText hne hdigits (d.digits.length + d.exponent)
  have hcoefficient : ofDigits d.digits = d.coefficient := ofDigits_toDigits d.coefficient
  rw [add_sub_cancel_left, hcoefficient] at hspells
  exact hspells

/-! ## Doubles as they are written -/

/-- A text that stands for a number is read as the double that the number is nearest to. -/
theorem Spells.read?_eq {text : List Char} {q : ℚ} {hm : 0 < m} (h : Spells text q)
    (hx : x.toModel.unpack = .finite .positive m e hm) (hq : Rounds m e q) : read? text = some x := by
  obtain ⟨c, rest, rfl, hc⟩ := h.starts
  obtain ⟨d, hd, rfl⟩ := h.reads
  rw [read?_of_isDigit hc, hd]
  exact congrArg some (toFloat_of_rounds hx hq)

/-- A finite double without a sign is written as a number, and what is written is read as the double. -/
theorem render_unsigned (hfinite : x.isFinite = true) (h : Unsigned x) :
    (∃ q, Spells (Notation.plain.render x).toList q) ∧ read? (Notation.plain.render x).toList = some x := by
  unfold Unsigned at h
  obtain ⟨s, hx⟩ | ⟨s, m, e, hm, hx⟩ := unpack_of_isFinite hfinite
  · rw [hx] at h
    obtain rfl : s = .positive := h
    obtain rfl : x = 0.0 := (ofModel_pack_unpack hx rfl).symm
    have htext : (Notation.plain.render 0.0).toList = ['0'] := by decide +kernel
    rw [htext]
    refine ⟨⟨_, spells_of_pointed ['0'] [] rfl (List.cons_ne_nil _ _) ?_ ?_ rfl⟩, by decide +kernel⟩
    · intro c hc
      rw [List.mem_singleton.mp hc]
      rfl
    · exact fun c hc => absurd hc List.not_mem_nil
  · rw [hx] at h
    obtain rfl : s = .positive := h
    have hspells : Spells (Notation.plain.render x).toList (Decimal.shortest m e).value := by
      unfold Notation.render
      rw [reading_of_unpack hx]
      dsimp only [isNegative]
      rw [if_neg hm.ne', if_neg Bool.false_ne_true, String.empty_append]
      exact spells_decimal _
    exact ⟨⟨_, hspells⟩, hspells.read?_eq hx (Decimal.rounds_shortest (isDouble_of_unpack hx).1)⟩

theorem render_of_readings {y : Float} (hx : Reading.of x = .finite true m e)
    (hy : Reading.of y = .finite false m e) : Notation.plain.render x = "-" ++ Notation.plain.render y := by
  unfold Notation.render
  rw [hx, hy]
  dsimp only
  split
  · exact String.append_assoc
  · rw [if_pos rfl, if_neg Bool.false_ne_true, String.empty_append]

/-- A finite double is without a sign, or it is written as its negation behind a minus. -/
theorem unsigned_or_neg (hfinite : x.isFinite = true) : Unsigned x ∨
    Unsigned (-x) ∧ (-x).isFinite = true ∧ Notation.plain.render x = "-" ++ Notation.plain.render (-x) := by
  have hneg := unpack_neg hfinite
  have hfiniteNeg : (-x).isFinite = (-x).toModel.unpack.isFinite := rfl
  rw [hfiniteNeg]
  unfold Unsigned
  obtain ⟨s, hx⟩ | ⟨s, m, e, hm, hx⟩ := unpack_of_isFinite hfinite
  · rw [hx] at hneg ⊢
    cases s with
    | positive => exact .inl rfl
    | negative =>
      rw [hneg]
      exact .inr ⟨rfl, rfl, render_of_readings (reading_of_unpack_zero hx) (reading_of_unpack_zero hneg)⟩
  · rw [hx] at hneg ⊢
    cases s with
    | positive => exact .inl rfl
    | negative =>
      rw [hneg]
      exact .inr ⟨rfl, rfl, render_of_readings (reading_of_unpack hx) (reading_of_unpack hneg)⟩

end Menagerie.Number
