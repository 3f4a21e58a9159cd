import Mathlib.Data.List.DropRight
import Menagerie.Expr.Expression
import Menagerie.Proofs.Expr.Reading

/-!
# Tokens of a source

A source is cut into tokens one after the other, and blanks in between are passed over (`Expr.Lexes`). Blanks at
the two ends of a source make no difference to the tokens, whatever these are: outside quotes no token has a
blank in it, and a token that blanks follow is read as if nothing followed (`Expr.readToken_of_append`). Only
where the tokens begin is shifted, and the tree of an expression does not go by that. So an expression is read
again from the source that it keeps, though this has lost its blanks (`Expression.parse_source`).
-/

namespace Menagerie

/-! ## Blanks -/

namespace Text

variable {c : Char} {cs rest tail post : List Char} {p : Char → Bool}

theorem isBlank_eq_false_of_visible (hlow : '!' ≤ c) (hhigh : c ≤ '~') : isBlank c = false := by
  have hlow : 0x21 ≤ c.toNat := hlow
  have hhigh : c.toNat ≤ 0x7e := hhigh
  simp only [isBlank, Bool.or_eq_false_iff, Bool.and_eq_false_iff, decide_eq_false_iff_not, beq_eq_false_iff_ne]
  omega

theorem isBlank_eq_false_of_range {low high : Char} (h : (low ≤ c && c ≤ high) = true) (hlow : '!' ≤ low)
    (hhigh : high ≤ '~') : isBlank c = false := by
  simp only [Bool.and_eq_true, decide_eq_true_eq] at h
  exact isBlank_eq_false_of_visible (Char.le_trans hlow h.1) (Char.le_trans h.2 hhigh)

theorem isBlank_eq_false_of_isDigit (h : Number.isDigit c = true) : isBlank c = false :=
  isBlank_eq_false_of_range h (by decide) (by decide)

theorem isBlank_eq_false_of_isNumberPart (h : Expr.isNumberPart c = true) : isBlank c = false := by
  simp only [Expr.isNumberPart, Bool.or_eq_true, beq_iff_eq] at h
  obtain hdigit | rfl := h
  · exact isBlank_eq_false_of_isDigit hdigit
  · rfl

theorem isBlank_eq_false_of_isNamePart (h : Expr.isNamePart c = true) : isBlank c = false := by
  simp only [Expr.isNamePart, Expr.isNameStart, Expr.isLetter, Bool.or_eq_true, beq_iff_eq] at h
  obtain ((hlower | hupper) | rfl) | hdigit := h
  · exact isBlank_eq_false_of_range hlower (by decide) (by decide)
  · exact isBlank_eq_false_of_range hupper (by decide) (by decide)
  · rfl
  · exact isBlank_eq_false_of_isDigit hdigit

/-- What is no blank, where blanks are at the end, comes before them. -/
theorem exists_cons_of_append (hpost : ∀ c ∈ post, isBlank c = true) (hc : isBlank c = false)
    (h : rest ++ post = c :: tail) : ∃ rest', rest = c :: rest' ∧ tail = rest' ++ post := by
  cases rest with
  | nil =>
    rw [List.nil_append] at h
    have hblank : isBlank c = true := hpost c (h ▸ List.mem_cons_self)
    rw [hc] at hblank
    cases hblank
  | cons d rest' =>
    cases h
    exact ⟨rest', rfl, rfl⟩

/-- A run of characters that are no blanks ends where the blanks begin. -/
theorem takeWhile_append_blanks (hpost : ∀ c ∈ post, isBlank c = true) (hp : ∀ c, p c = true → isBlank c = false)
    (cs : List Char) :
    (cs ++ post).takeWhile p = cs.takeWhile p ∧ (cs ++ post).dropWhile p = cs.dropWhile p ++ post := by
  induction cs with
  | nil =>
    cases post with
    | nil => exact ⟨rfl, rfl⟩
    | cons d post =>
      have hd : p d = false := by
        cases hpd : p d with
        | false => rfl
        | true => exact absurd (hpost d List.mem_cons_self) (by rw [hp d hpd]; decide)
      simp [hd]
  | cons c cs ih =>
    cases hc : p c with
    | true => simp [hc, ih]
    | false => simp [hc]

/-- A text without the blanks at its ends is what there was between blanks. -/
theorem exists_blanks_of_trim (cs : List Char) :
    ∃ pre post, cs = pre ++ (trim cs ++ post) ∧ (∀ c ∈ pre, isBlank c = true) ∧ ∀ c ∈ post, isBlank c = true := by
  let text := cs.dropWhile isBlank
  have htext : trim cs ++ text.rtakeWhile isBlank = text := by
    show (text.reverse.dropWhile isBlank).reverse ++ (text.reverse.takeWhile isBlank).reverse = text
    rw [← List.reverse_append, List.takeWhile_append_dropWhile, List.reverse_reverse]
  refine ⟨cs.takeWhile isBlank, text.rtakeWhile isBlank, ?_, fun _ => List.mem_takeWhile_imp,
    fun _ => List.mem_rtakeWhile_imp⟩
  rw [htext, List.takeWhile_append_dropWhile]

theorem trim_trim (cs : List Char) : trim (trim cs) = trim cs := by
  have hbegins : trim cs <+: cs.dropWhile isBlank := List.rdropWhile_prefix _ _
  have hstart : (trim cs).dropWhile isBlank = trim cs := by
    rw [List.dropWhile_eq_self_iff]
    intro hlength
    rw [hbegins.getElem]
    exact List.dropWhile_get_zero_not _ _ _
  show ((trim cs).dropWhile isBlank).rdropWhile isBlank = trim cs
  rw [hstart]
  exact List.rdropWhile_idempotent _ _

end Text

namespace Expr

open Text

/-! ## One token -/

section ReadToken

variable {c quote : Char} {cs rest post taken after : List Char} {token : Token}

theorem symbol?_splits (h : symbol? cs = some (token, after)) : ∃ taken, cs = taken ++ after ∧ taken ≠ [] := by
  unfold symbol? at h
  split at h <;> cases h
  case h_11 | h_13 | h_15 | h_16 | h_18 | h_19 => exact ⟨[_, _], rfl, nofun⟩
  all_goals exact ⟨[_], rfl, nofun⟩

theorem takeWhile_ne_nil {p : Char → Bool} (h : p c = true) : (c :: rest).takeWhile p ≠ [] := by
  simp [h]

theorem startsNumber_of_ne_dot (h : c ≠ '.') (rest : List Char) : startsNumber (c :: rest) = Number.isDigit c := by
  unfold startsNumber
  split
  · next heq => exact absurd (List.cons.inj heq).1 h
  · next heq => rw [(List.cons.inj heq).1]
  · next heq => cases heq

theorem isNumberPart_of_startsNumber (h : startsNumber (c :: rest) = true) : isNumberPart c = true := by
  by_cases hdot : c = '.'
  · subst hdot
    rfl
  · rw [startsNumber_of_ne_dot hdot] at h
    simp [isNumberPart, h]

/-- A token takes a part of the text, and what comes after it is the rest. -/
theorem readToken_splits (h : readToken cs = .ok (token, taken, after)) : cs = taken ++ after ∧ taken ≠ [] := by
  unfold readToken at h
  split at h
  · cases h
  next c rest =>
  split at h
  next hnumber =>
    dsimp only at h
    split at h
    · cases h
      exact ⟨List.takeWhile_append_dropWhile.symm, takeWhile_ne_nil (isNumberPart_of_startsNumber hnumber)⟩
    · cases h
  split at h
  · dsimp only at h
    split at h
    · next close after' hclose =>
      cases h
      refine ⟨?_, nofun⟩
      rw [List.cons_append, List.cons_append, List.append_assoc, List.singleton_append, ← hclose,
        List.takeWhile_append_dropWhile]
    · cases h
  split at h
  next hname =>
    cases h
    exact ⟨List.takeWhile_append_dropWhile.symm, takeWhile_ne_nil (by simp [isNamePart, hname])⟩
  split at h
  · next hsymbol =>
    cases h
    obtain ⟨taken, hcs, hne⟩ := symbol?_splits hsymbol
    rw [hcs]
    simpa using hne
  · cases h

theorem length_lt_of_readToken (h : readToken cs = .ok (token, taken, after)) : after.length < cs.length := by
  obtain ⟨rfl, hne⟩ := readToken_splits h
  rw [List.length_append]
  exact Nat.lt_add_of_pos_left (List.length_pos_iff.mpr hne)

theorem symbol?_of_append (hpost : ∀ c ∈ post, isBlank c = true)
    (h : symbol? (c :: (rest ++ post)) = some (token, after)) :
    ∃ after', after = after' ++ post ∧ symbol? (c :: rest) = some (token, after') := by
  unfold symbol? at h
  split at h <;> cases h
  -- Signs that are symbols whatever comes next.
  case h_1 heq | h_2 heq | h_3 heq | h_4 heq | h_5 heq | h_6 heq | h_7 heq | h_8 heq | h_9 heq | h_10 heq =>
    obtain ⟨rfl, rfl⟩ := List.cons.inj heq
    exact ⟨rest, rfl, rfl⟩
  -- Two signs. The second is no blank.
  case h_11 heq | h_13 heq | h_15 heq | h_16 heq | h_18 heq | h_19 heq =>
    obtain ⟨rfl, hrest⟩ := List.cons.inj heq
    obtain ⟨rest', rfl, rfl⟩ := exists_cons_of_append hpost rfl hrest
    exact ⟨rest', rfl, rfl⟩
  -- Signs that are symbols of their own where no `=` comes next.
  case h_12 halone heq | h_14 halone heq | h_17 halone heq =>
    obtain ⟨rfl, rfl⟩ := List.cons.inj heq
    refine ⟨rest, rfl, ?_⟩
    rw [symbol?]
    rintro tail rfl
    exact halone (tail ++ post) rfl

theorem startsNumber_append (hpost : ∀ c ∈ post, isBlank c = true) :
    startsNumber (c :: (rest ++ post)) = startsNumber (c :: rest) := by
  by_cases hdot : c = '.'
  · subst hdot
    cases rest with
    | cons d rest => rfl
    | nil =>
      cases post with
      | nil => rfl
      | cons d post =>
        show Number.isDigit d = false
        cases hd : Number.isDigit d with
        | false => rfl
        | true => exact absurd (hpost d List.mem_cons_self) (by rw [isBlank_eq_false_of_isDigit hd]; decide)
  · rw [startsNumber_of_ne_dot hdot, startsNumber_of_ne_dot hdot]

/-- A quote that closes a text stands before the blanks at the end. -/
theorem exists_dropWhile_of_append {close : Char} (hpost : ∀ c ∈ post, isBlank c = true)
    (hquote : isBlank quote = false) (h : (rest ++ post).dropWhile (· ≠ quote) = close :: after) :
    ∃ after', after = after' ++ post ∧ rest.dropWhile (· ≠ quote) = close :: after' ∧
      (rest ++ post).takeWhile (· ≠ quote) = rest.takeWhile (· ≠ quote) := by
  induction rest with
  | nil =>
    have hnone : post.dropWhile (· ≠ quote) = [] := by
      rw [List.dropWhile_eq_nil_iff]
      intro c hc
      have hne : c ≠ quote := by
        rintro rfl
        exact absurd (hpost c hc) (by rw [hquote]; decide)
      simp [hne]
    rw [List.nil_append, hnone] at h
    cases h
  | cons d rest ih =>
    by_cases hd : d = quote
    · subst hd
      simp only [List.cons_append, ne_eq, not_true_eq_false, decide_false, Bool.false_eq_true, not_false_eq_true,
        List.dropWhile_cons_of_neg, List.takeWhile_cons_of_neg] at h ⊢
      cases h
      exact ⟨rest, rfl, rfl, trivial⟩
    · simp only [List.cons_append, ne_eq, hd, not_false_eq_true, decide_true, List.dropWhile_cons_of_pos,
        List.takeWhile_cons_of_pos] at h ⊢
      obtain ⟨after', hafter, hdrop, htake⟩ := ih h
      exact ⟨after', hafter, hdrop, congrArg _ htake⟩

/-- A token is read before blanks as it is read at the end. -/
theorem readToken_of_append (hpost : ∀ c ∈ post, isBlank c = true)
    (h : readToken (c :: (rest ++ post)) = .ok (token, taken, after)) :
    ∃ after', after = after' ++ post ∧ readToken (c :: rest) = .ok (token, taken, after') := by
  have hnumber := takeWhile_append_blanks hpost (fun _ => isBlank_eq_false_of_isNumberPart) (c :: rest)
  have hname := takeWhile_append_blanks hpost (fun _ => isBlank_eq_false_of_isNamePart) (c :: rest)
  rw [List.cons_append] at hnumber hname
  unfold readToken at h ⊢
  dsimp only at h ⊢
  rw [startsNumber_append hpost, hnumber.1, hnumber.2, hname.1, hname.2] at h
  split_ifs at h ⊢ with hstart hquote hletter
  · split at h
    · next x hx =>
      cases h
      rw [hx]
      exact ⟨_, rfl, rfl⟩
    · cases h
  · split at h
    · next close after' hclose =>
      have hc : isBlank c = false := by
        obtain rfl | rfl := hquote
        · rfl
        · rfl
      obtain ⟨after'', rfl, hdrop, htake⟩ := exists_dropWhile_of_append hpost hc hclose
      cases h
      rw [hdrop, htake]
      exact ⟨after'', rfl, rfl⟩
    · cases h
  · cases h
    exact ⟨_, rfl, rfl⟩
  · split at h
    · next hsymbol =>
      obtain ⟨after', rfl, hsymbol'⟩ := symbol?_of_append hpost hsymbol
      cases h
      rw [hsymbol']
      refine ⟨after', rfl, ?_⟩
      have hlength : (c :: (rest ++ post)).length - (after' ++ post).length = (c :: rest).length - after'.length := by
        simp only [List.length_cons, List.length_append]
        omega
      rw [hlength, ← List.cons_append, List.take_append_of_le_length (Nat.sub_le _ _)]
    · cases h

end ReadToken

/-- Whether a text, which starts at a byte offset, is cut into these tokens. -/
inductive Lexes : Nat → List Char → List Spot → Prop
  | done {offset : Nat} : Lexes offset [] []
  | blank {offset : Nat} {c : Char} {rest : List Char} {spots : List Spot} (hblank : isBlank c = true)
      (further : Lexes (offset + c.utf8Size) rest spots) : Lexes offset (c :: rest) spots
  | token {offset : Nat} {c : Char} {rest : List Char} {token : Token} {taken after : List Char}
      {spots : List Spot} (hblank : isBlank c = false) (hread : readToken (c :: rest) = .ok (token, taken, after))
      (further : Lexes (offset + byteLength taken) after spots) : Lexes offset (c :: rest) ((offset, token) :: spots)

section Lexes

variable {offset : Nat} {c : Char} {cs rest pre post : List Char} {spots : List Spot}

theorem lexes_nil_iff : Lexes offset [] spots ↔ spots = [] := by
  constructor
  · rintro ⟨⟩
    rfl
  · rintro rfl
    exact .done

theorem lexes_blank_iff (h : isBlank c = true) :
    Lexes offset (c :: rest) spots ↔ Lexes (offset + c.utf8Size) rest spots := by
  constructor
  · rintro (_ | ⟨_, further⟩ | ⟨hblank, _, _⟩)
    · exact further
    · rw [h] at hblank
      cases hblank
  · exact .blank h

theorem lexes_token_iff (h : isBlank c = false) :
    Lexes offset (c :: rest) spots ↔
      ∃ token taken after further, readToken (c :: rest) = .ok (token, taken, after) ∧
        Lexes (offset + byteLength taken) after further ∧ spots = (offset, token) :: further := by
  constructor
  · rintro (_ | ⟨hblank, _⟩ | ⟨_, hread, further⟩)
    · rw [h] at hblank
      cases hblank
    · exact ⟨_, _, _, _, hread, further, rfl⟩
  · rintro ⟨token, taken, after, further, hread, hfurther, rfl⟩
    exact .token h hread hfurther

/-- Cutting comes to an end, for each step takes a character at least. -/
theorem tokensFrom_eq_ok_iff {fuel : Nat} (hfuel : cs.length ≤ fuel) :
    tokensFrom fuel offset cs = .ok spots ↔ Lexes offset cs spots := by
  induction fuel generalizing offset cs spots with
  | zero =>
    obtain rfl := List.eq_nil_of_length_eq_zero (Nat.le_zero.mp hfuel)
    rw [lexes_nil_iff, tokensFrom]
    exact ⟨fun h => (Except.ok.inj h).symm, fun h => h ▸ rfl⟩
  | succ fuel ih =>
    cases cs with
    | nil =>
      rw [lexes_nil_iff, tokensFrom]
      exact ⟨fun h => (Except.ok.inj h).symm, fun h => h ▸ rfl⟩
    | cons c rest =>
      rw [tokensFrom]
      cases hblank : isBlank c with
      | true =>
        rw [lexes_blank_iff hblank]
        exact ih (Nat.le_of_succ_le_succ hfuel)
      | false =>
        rw [lexes_token_iff hblank, if_neg Bool.false_ne_true]
        cases hread : readToken (c :: rest) with
        | error e =>
          refine ⟨nofun, ?_⟩
          rintro ⟨_, _, _, _, hsame, _⟩
          cases hsame
        | ok read =>
          obtain ⟨token, taken, after⟩ := read
          -- The token took a character at least, so the fuel that is left does for what comes after it.
          have hafter : after.length ≤ fuel :=
            Nat.le_of_lt_succ (Nat.lt_of_lt_of_le (length_lt_of_readToken hread) hfuel)
          dsimp only
          constructor
          · intro h
            split at h
            · next further hfurther =>
              cases h
              exact ⟨token, taken, after, further, rfl, (ih hafter).mp hfurther, rfl⟩
            · cases h
          · rintro ⟨_, _, _, further, hsame, hfurther, rfl⟩
            cases hsame
            rw [(ih hafter).mpr hfurther]

theorem Lexes.eq_nil_of_blanks (h : Lexes offset cs spots) (hcs : ∀ c ∈ cs, isBlank c = true) : spots = [] := by
  induction h with
  | done => rfl
  | blank _ _ ih => exact ih fun c hc => hcs c (List.mem_cons_of_mem _ hc)
  | token hblank _ _ _ =>
    rw [hcs _ List.mem_cons_self] at hblank
    cases hblank

/-- Blanks at the end come to nothing. -/
theorem Lexes.of_append_blanks (h : Lexes offset (cs ++ post) spots) (hpost : ∀ c ∈ post, isBlank c = true) :
    Lexes offset cs spots := by
  generalize htext : cs ++ post = text at h
  induction h generalizing cs with
  | done =>
    rw [(List.append_eq_nil_iff.mp htext).1]
    exact .done
  | @blank offset c rest spots hblank further ih =>
    cases cs with
    | nil =>
      obtain rfl : post = c :: rest := htext
      rw [(Lexes.blank hblank further).eq_nil_of_blanks hpost]
      exact .done
    | cons d cs =>
      cases htext
      exact .blank hblank (ih rfl)
  | @token offset c rest token taken after spots hblank hread further ih =>
    obtain ⟨cs', rfl, rfl⟩ := exists_cons_of_append hpost hblank htext
    obtain ⟨after', rfl, hread'⟩ := readToken_of_append hpost hread
    exact .token hblank hread' (ih rfl)

/-- Blanks at the start are passed over. -/
theorem Lexes.of_blanks_append (h : Lexes offset (pre ++ cs) spots) (hpre : ∀ c ∈ pre, isBlank c = true) :
    Lexes (offset + byteLength pre) cs spots := by
  induction pre generalizing offset with
  | nil => exact h
  | cons c pre ih =>
    rw [List.cons_append, lexes_blank_iff (hpre c List.mem_cons_self)] at h
    have hrest := ih h fun d hd => hpre d (List.mem_cons_of_mem _ hd)
    rwa [Nat.add_assoc] at hrest

/-- Where the text begins has the tokens begin as much later. -/
theorem Lexes.unshift {shift : Nat} (h : Lexes (offset + shift) cs spots) :
    ∃ spots', Lexes offset cs spots' ∧ spots = spots'.map fun s => (s.1 + shift, s.2) := by
  generalize hstart : offset + shift = start at h
  induction h generalizing offset with
  | done => exact ⟨[], .done, rfl⟩
  | @blank start c rest spots hblank further ih =>
    obtain ⟨spots', hspots', rfl⟩ := @ih (offset + c.utf8Size) (by omega)
    exact ⟨spots', .blank hblank hspots', rfl⟩
  | @token start c rest token taken after spots hblank hread further ih =>
    obtain ⟨spots', hspots', rfl⟩ := @ih (offset + byteLength taken) (by omega)
    exact ⟨(offset, token) :: spots', .token hblank hread hspots', by rw [List.map_cons, hstart]⟩

/-- The tokens of a text without its blanks at both ends are the tokens of the text. -/
theorem Lexes.trim (h : Lexes 0 cs spots) :
    ∃ spots', Lexes 0 (Text.trim cs) spots' ∧ spots'.map Prod.snd = spots.map Prod.snd := by
  obtain ⟨pre, post, hcs, hpre, hpost⟩ := exists_blanks_of_trim cs
  rw [hcs] at h
  obtain ⟨spots', hspots', rfl⟩ := ((h.of_blanks_append hpre).of_append_blanks hpost).unshift
  exact ⟨spots', hspots', by simp⟩

end Lexes

/-! ## Sources -/

/-- A source is read as a tree if its tokens derive it. -/
theorem parse_eq_ok_iff {source : String} {e : Expr} :
    parse source = .ok e ↔
      ∃ spots, Lexes 0 source.toList spots ∧ Derives .conditional (spots.map Prod.snd) e := by
  unfold parse tokenize
  rw [bind_eq_ok]
  simp only [ofTokens_eq_ok_iff, tokensFrom_eq_ok_iff (Nat.le_refl _)]

end Expr

namespace Expression

theorem parse_eq_ok_iff {source : String} {e : Expression} :
    parse source = .ok e ↔
      Expr.parse source = .ok e.root ∧ e.source = String.ofList (Text.trim source.toList) := by
  unfold parse
  rw [bind_eq_ok]
  constructor
  · rintro ⟨root, hroot, h⟩
    cases h
    exact ⟨hroot, rfl⟩
  · obtain ⟨_, root⟩ := e
    rintro ⟨hroot, rfl⟩
    exact ⟨root, hroot, rfl⟩

/-- The source that an expression keeps is read as the expression again, and so is the document that it is written
to. What was lost of the source it was read from are blanks at both ends, which no token goes by. -/
theorem parse_source {source : String} {e : Expression} (h : parse source = .ok e) :
    parse e.source = .ok e ∧ ofDocument? e.toDocument = some e := by
  obtain ⟨hroot, hsource⟩ := parse_eq_ok_iff.mp h
  obtain ⟨spots, hlexes, hderives⟩ := Expr.parse_eq_ok_iff.mp hroot
  obtain ⟨spots', hlexes', htokens⟩ := hlexes.trim
  have hparse : parse e.source = .ok e := by
    rw [parse_eq_ok_iff, hsource, String.toList_ofList, Text.trim_trim]
    exact ⟨Expr.parse_eq_ok_iff.mpr ⟨spots', by rwa [String.toList_ofList], htokens ▸ hderives⟩, rfl⟩
  exact ⟨hparse, congrArg Except.toOption hparse⟩

/-- An ideographic space before the expression and a tabulator after it are lost. The blanks in quotes are kept. -/
theorem parse_source_blanks :
    let e : Expression :=
      ⟨"q.entity.species == ' wolf  cub '",
        .binary .eq (.path ["q", "entity", "species"]) (.literal (.text " wolf  cub "))⟩
    parse "\u3000q.entity.species == ' wolf  cub ' \t" = .ok e ∧
    parse e.source = .ok e ∧ ofDocument? e.toDocument = some e := by
  intro e
  have hparse : parse "\u3000q.entity.species == ' wolf  cub ' \t" = .ok e := eq_ok_of_toOption (by decide +kernel)
  exact ⟨hparse, parse_source hparse⟩

end Expression

end Menagerie
