import Menagerie.Proofs.Expr.Blame
import Menagerie.Proofs.Expr.Spelling

/-!
# The spans of tokens

Each token of a source takes a span of its bytes. The spans come one after the other, and nothing but blanks
stands between them: every character is in one span, unless it is a blank outside quotes, which is in none
(`Partitions`). A source that is not cut into tokens sticks where none can be read (`Sticks`), and what is
said of it is said of a place between two characters.
-/

namespace Menagerie.Expr

open Text

variable {c : Char} {cs rest pre post taken after : List Char} {token : Token} {offset : Nat}
  {spots : List Spot}

/-! ## Dividing up a text -/

/-- A token where it stands in a source: the byte offset that it begins at, and the characters that write
it. -/
structure Lexeme where
  start : Nat
  token : Token
  text : List Char

namespace Lexeme

/-- The byte offset behind the last character. -/
def stop (l : Lexeme) : Nat := l.start + byteLength l.text

def spot (l : Lexeme) : Spot := (l.start, l.token)

/-- Whether a byte is in the span of the token. -/
def covers (l : Lexeme) (offset : Nat) : Bool := l.start ≤ offset ∧ offset < l.stop

end Lexeme

/-- Whether tokens divide up a text that begins at a byte offset. Each stands in the text as it is
written, and one begins where the one before it has ended or later. Each byte of a character is in the span
of one token; only the bytes of a blank outside quotes are in none. -/
structure Partitions (offset : Nat) (cs : List Char) (lexemes : List Lexeme) : Prop where
  stands : ∀ l ∈ lexemes, ∃ pre post, cs = pre ++ (l.text ++ post) ∧ l.start = offset + byteLength pre
  written : ∀ l ∈ lexemes, l.token.WrittenAs l.text
  apart : lexemes.Pairwise fun l l' => l.stop ≤ l'.start
  covered : ∀ pre c post, cs = pre ++ c :: post → ∀ byte < c.utf8Size,
    lexemes.countP (·.covers (offset + byteLength pre + byte)) =
      if isBlank c = true ∧ openQuote pre = none then 0 else 1

namespace Partitions

variable {lexemes : List Lexeme}

theorem le_start (h : Partitions offset cs lexemes) {l : Lexeme} (hl : l ∈ lexemes) : offset ≤ l.start := by
  obtain ⟨pre, _, _, hstart⟩ := h.stands l hl
  omega

/-- No token that is still to come has a byte in what went before. -/
theorem countP_covers_eq_zero (h : Partitions offset cs lexemes) {place : Nat} (hplace : place < offset) :
    lexemes.countP (·.covers place) = 0 := by
  rw [List.countP_eq_zero]
  intro l hl
  have hstart := h.le_start hl
  simp only [Lexeme.covers, decide_eq_true_eq]
  omega

theorem nil : Partitions offset [] [] := ⟨nofun, nofun, .nil, fun _ _ _ h => by simp at h⟩

theorem blank (h : Partitions (offset + c.utf8Size) rest lexemes) (hblank : isBlank c = true) :
    Partitions offset (c :: rest) lexemes where
  stands := by
    intro l hl
    obtain ⟨pre, post, rfl, hstart⟩ := h.stands l hl
    exact ⟨c :: pre, post, rfl, by rw [hstart, byteLength_cons, Nat.add_assoc]⟩
  written := h.written
  apart := h.apart
  covered := by
    intro pre d post hcs byte hbyte
    cases pre with
    | nil =>
      cases hcs
      rw [if_pos ⟨hblank, rfl⟩]
      apply h.countP_covers_eq_zero
      exact Nat.add_lt_add_left hbyte offset
    | cons _ pre =>
      cases hcs
      rw [openQuote_cons_of_isBlank hblank, byteLength_cons, ← Nat.add_assoc]
      exact h.covered pre d post rfl byte hbyte

/-- A token at the start, before the tokens of what follows. -/
theorem cons (h : Partitions (offset + byteLength taken) after lexemes) (hwritten : token.WrittenAs taken) :
    Partitions offset (taken ++ after) (⟨offset, token, taken⟩ :: lexemes) where
  stands := by
    intro l hl
    rcases List.mem_cons.mp hl with rfl | hl
    · exact ⟨[], after, rfl, rfl⟩
    · obtain ⟨pre, post, rfl, hstart⟩ := h.stands l hl
      exact ⟨taken ++ pre, post, by simp, by rw [hstart, byteLength_append, Nat.add_assoc]⟩
  written := by
    intro l hl
    rcases List.mem_cons.mp hl with rfl | hl
    · exact hwritten
    · exact h.written l hl
  apart := List.pairwise_cons.mpr ⟨fun _ hl => h.le_start hl, h.apart⟩
  covered := by
    intro pre c post hcs byte hbyte
    -- A character that follows the token is in one of the tokens that follow it.
    have beyond (more : List Char) (hpre : pre = taken ++ more) (hafter : after = more ++ c :: post) :
        (⟨offset, token, taken⟩ :: lexemes : List Lexeme).countP (·.covers (offset + byteLength pre + byte)) =
          if isBlank c = true ∧ openQuote pre = none then 0 else 1 := by
      subst hpre
      rw [openQuote_append hwritten.openQuote_eq_none, ← h.covered more c post hafter byte hbyte,
        List.countP_cons_of_neg]
      · simp only [byteLength_append, Nat.add_assoc]
      · simp only [Lexeme.covers, Lexeme.stop, byteLength_append, decide_eq_true_eq]
        omega
    rcases List.append_eq_append_iff.mp hcs with ⟨more, hpre, hafter⟩ | ⟨more, htaken, hmore⟩
    · exact beyond more hpre hafter
    · cases more with
      | nil => exact beyond [] (by simpa using htaken.symm) hmore.symm
      | cons d more =>
        obtain ⟨rfl, -⟩ := List.cons.inj hmore
        subst htaken
        have hquoted : ¬ (isBlank c = true ∧ openQuote pre = none) :=
          fun ⟨hblank, hclosed⟩ => hwritten.openQuote_ne_none hblank hclosed
        rw [if_neg hquoted, List.countP_cons_of_pos, h.countP_covers_eq_zero]
        · simp only [byteLength_append, byteLength_cons]
          omega
        · simp only [Lexeme.covers, Lexeme.stop, byteLength_append, byteLength_cons, decide_eq_true_eq]
          omega

/-- The tokens begin one behind the other. -/
theorem pairwise_start (h : Partitions offset cs lexemes) : (lexemes.map Lexeme.start).Pairwise (· < ·) := by
  rw [List.pairwise_map]
  refine h.apart.imp_of_mem fun {l l'} hl _ hle => ?_
  have hlength := byteLength_pos (h.written l hl).ne_nil
  unfold Lexeme.stop at hle
  omega

end Partitions

/-- The tokens that a text is cut into divide it up. -/
theorem Lexes.exists_partition (h : Lexes offset cs spots) :
    ∃ lexemes, lexemes.map Lexeme.spot = spots ∧ Partitions offset cs lexemes := by
  induction h with
  | done => exact ⟨[], rfl, .nil⟩
  | blank hblank _ ih =>
    obtain ⟨lexemes, hspots, hpartitions⟩ := ih
    exact ⟨lexemes, hspots, hpartitions.blank hblank⟩
  | @token offset c rest token taken after spots hblank hread _ ih =>
    obtain ⟨lexemes, rfl, hpartitions⟩ := ih
    refine ⟨⟨offset, token, taken⟩ :: lexemes, rfl, ?_⟩
    rw [(readToken_splits hread).1]
    exact hpartitions.cons (writtenAs_of_readToken hread)

/-! ## Texts that are not cut into tokens -/

/-- Whether a text, which starts at a byte offset, has a place where no token can be read, and what is said
of it. -/
inductive Sticks : Nat → List Char → EvalError → Prop
  | blank {offset : Nat} {c : Char} {rest : List Char} {e : EvalError} (hblank : isBlank c = true)
      (further : Sticks (offset + c.utf8Size) rest e) : Sticks offset (c :: rest) e
  | token {offset : Nat} {c : Char} {rest : List Char} {token : Token} {taken after : List Char} {e : EvalError}
      (hblank : isBlank c = false) (hread : readToken (c :: rest) = .ok (token, taken, after))
      (further : Sticks (offset + byteLength taken) after e) : Sticks offset (c :: rest) e
  | here {offset : Nat} {c : Char} {rest : List Char} {bytes : Nat} {message : String}
      (hblank : isBlank c = false) (hread : readToken (c :: rest) = .error (bytes, message)) :
      Sticks offset (c :: rest) (.parse (offset + bytes) message)

theorem tokensFrom_eq_error_iff {fuel : Nat} {e : EvalError} (hfuel : cs.length ≤ fuel) :
    tokensFrom fuel offset cs = .error e ↔ Sticks offset cs e := by
  induction fuel generalizing offset cs with
  | zero =>
    obtain rfl := List.eq_nil_of_length_eq_zero (Nat.le_zero.mp hfuel)
    exact ⟨nofun, nofun⟩
  | succ fuel ih =>
    cases cs with
    | nil => exact ⟨nofun, nofun⟩
    | cons c rest =>
      rw [tokensFrom]
      cases hblank : isBlank c with
      | true =>
        rw [if_pos rfl, ih (Nat.le_of_succ_le_succ hfuel)]
        constructor
        · exact .blank hblank
        · rintro (⟨_, further⟩ | ⟨hblank', _⟩ | ⟨hblank', _⟩)
          · exact further
          all_goals
            rw [hblank] at hblank'
            cases hblank'
      | false =>
        rw [if_neg Bool.false_ne_true]
        cases hread : readToken (c :: rest) with
        | error complaint =>
          obtain ⟨bytes, message⟩ := complaint
          constructor
          · rintro ⟨⟩
            exact .here hblank hread
          · rintro (⟨hblank', _⟩ | ⟨_, hread', _⟩ | ⟨_, hread'⟩)
            · rw [hblank] at hblank'
              cases hblank'
            · cases hread.symm.trans hread'
            · cases hread.symm.trans hread'
              rfl
        | ok read =>
          obtain ⟨token, taken, after⟩ := read
          have hafter : after.length ≤ fuel :=
            Nat.le_of_lt_succ (Nat.lt_of_lt_of_le (length_lt_of_readToken hread) hfuel)
          have hfurther := @ih after (offset + byteLength taken) hafter
          dsimp only
          constructor
          · intro h
            split at h
            · cases h
            · next e' herror =>
              cases h
              exact .token hblank hread (hfurther.mp herror)
          · rintro (⟨hblank', _⟩ | ⟨_, hread', further⟩ | ⟨_, hread'⟩)
            · rw [hblank] at hblank'
              cases hblank'
            · cases hread.symm.trans hread'
              rw [hfurther.mpr further]
            · cases hread.symm.trans hread'

/-- With fuel for each character, more of it makes no difference. -/
theorem tokensFrom_eq_tokenize {fuel : Nat} (hfuel : cs.length ≤ fuel) :
    tokensFrom fuel 0 cs = tokenize cs := by
  cases h : tokenize cs with
  | ok spots => exact (tokensFrom_eq_ok_iff hfuel).mpr ((tokensFrom_eq_ok_iff (Nat.le_refl _)).mp h)
  | error e => exact (tokensFrom_eq_error_iff hfuel).mpr ((tokensFrom_eq_error_iff (Nat.le_refl _)).mp h)

/-- A complaint about a token is about its first character, or what follows the last that was taken. -/
theorem splits_of_readToken_error {bytes : Nat} {message : String}
    (h : readToken cs = .error (bytes, message)) : ∃ pre post, cs = pre ++ post ∧ bytes = byteLength pre := by
  unfold readToken at h
  split at h
  · cases h
    exact ⟨[], [], rfl, rfl⟩
  next c rest =>
  split at h
  · dsimp only at h
    split at h
    · cases h
    · cases h
      exact ⟨_, _, List.takeWhile_append_dropWhile.symm, rfl⟩
  split at h
  · dsimp only at h
    split at h
    · cases h
    · cases h
      exact ⟨c :: rest, [], (List.append_nil _).symm, rfl⟩
  split at h
  · cases h
  split at h
  · cases h
  · cases h
    exact ⟨[], c :: rest, rfl, rfl⟩

/-- A complaint is about a place between two characters, or an end of the text. -/
theorem Sticks.splits {e : EvalError} (h : Sticks offset cs e) :
    ∃ pre post message, cs = pre ++ post ∧ e = .parse (offset + byteLength pre) message := by
  induction h with
  | @blank offset c _ _ _ _ ih =>
    obtain ⟨pre, post, message, rfl, rfl⟩ := ih
    exact ⟨c :: pre, post, message, rfl, by rw [byteLength_cons, Nat.add_assoc]⟩
  | @token offset c rest token taken after e hblank hread _ ih =>
    obtain ⟨pre, post, message, rfl, rfl⟩ := ih
    refine ⟨taken ++ pre, post, message, ?_, by rw [byteLength_append, Nat.add_assoc]⟩
    rw [(readToken_splits hread).1, List.append_assoc]
  | here _ hread =>
    obtain ⟨pre, post, hcs, rfl⟩ := splits_of_readToken_error hread
    exact ⟨pre, post, _, hcs, rfl⟩

/-! ## Sources -/

/-- Cutting a source into tokens comes to an end: with more fuel than it has characters the outcome is the
same. Either the source sticks where no token can be read, and the complaint is about a place between two
characters or an end of the source; or its tokens begin one behind the other, each between two characters,
and divide it up, and if they write no expression, the complaint is about the place of one of them or about
the end of the source. -/
theorem tokenize_partitions (source : String) :
    (∀ more, tokensFrom (source.toList.length + more) 0 source.toList = tokenize source.toList) ∧
    ((∃ offset message, tokenize source.toList = .error (.parse offset message) ∧
        Sticks 0 source.toList (.parse offset message) ∧
        offset ≤ source.utf8ByteSize ∧ String.Pos.Raw.IsValid source ⟨offset⟩) ∨
      ∃ lexemes : List Lexeme, tokenize source.toList = .ok (lexemes.map Lexeme.spot) ∧
        (lexemes.map Lexeme.start).Pairwise (· < ·) ∧
        (∀ l ∈ lexemes,
          String.Pos.Raw.IsValid source ⟨l.start⟩ ∧ String.Pos.Raw.IsValid source ⟨l.stop⟩) ∧
        Partitions 0 source.toList lexemes ∧
        ∀ e, parse source = .error e → ∃ offset message, e = .parse offset message ∧
          (offset = source.utf8ByteSize ∨ offset ∈ lexemes.map Lexeme.start)) := by
  refine ⟨fun more => tokensFrom_eq_tokenize (Nat.le_add_right _ more), ?_⟩
  cases htokens : tokenize source.toList with
  | error e =>
    left
    have hsticks := (tokensFrom_eq_error_iff (Nat.le_refl _)).mp htokens
    obtain ⟨pre, post, message, hcs, rfl⟩ := hsticks.splits
    refine ⟨_, message, rfl, hsticks, ?_, ?_⟩
    · rw [utf8ByteSize_eq, hcs, byteLength_append]
      omega
    · rw [Nat.zero_add]
      exact isValid_of_append hcs
  | ok spots =>
    right
    have hlexes := (tokensFrom_eq_ok_iff (Nat.le_refl _)).mp htokens
    obtain ⟨lexemes, rfl, hpartitions⟩ := hlexes.exists_partition
    refine ⟨lexemes, rfl, hpartitions.pairwise_start, ?_, hpartitions, ?_⟩
    · intro l hl
      obtain ⟨pre, post, hcs, hstart⟩ := hpartitions.stands l hl
      rw [Nat.zero_add] at hstart
      have hcs' : source.toList = (pre ++ l.text) ++ post := by rw [hcs, List.append_assoc]
      have hstop : l.stop = byteLength (pre ++ l.text) := by rw [Lexeme.stop, hstart, byteLength_append]
      rw [hstart, hstop]
      exact ⟨isValid_of_append hcs, isValid_of_append hcs'⟩
    · intro e he
      unfold parse at he
      dsimp only at he
      rw [htokens, ok_bind] at he
      have hblames := blames_ofTokens (byteLength source.toList) (lexemes.map Lexeme.spot) e he
      rwa [← utf8ByteSize_eq, List.map_map] at hblames

/-- A text of two-byte characters with a blank in it is one token, and what follows begins behind its bytes. -/
example : (tokenize "'é à' +.5".toList).toOption =
    some [(0, .text "é à"), (8, .operator .add), (9, .number 0.5)] := by
  decide +kernel

/-- A quote that is not closed is complained about at the end. -/
example : parse "1 + 'é" = .error (.parse 7 "unterminated text literal") := by
  decide +kernel

end Menagerie.Expr
