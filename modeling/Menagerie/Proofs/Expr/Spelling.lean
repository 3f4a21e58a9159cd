import Menagerie.Proofs.Expr.Lexing

/-!
# How tokens are written

A token that is read takes of a text the characters that write it (`Token.WrittenAs`): those of a number or
of a name, a text between two like quotes, or the signs that an operator always has. A token leaves no quote
open, and has blanks in it only where one is (`openQuote`), which is counted character by character from the
start of a text and takes no notice of tokens.
-/

namespace Menagerie

/-! ## Bytes -/

namespace Text

variable {c : Char} {cs ds : List Char}

@[simp] theorem byteLength_nil : byteLength [] = 0 := rfl

@[simp] theorem byteLength_cons (c : Char) (cs : List Char) :
    byteLength (c :: cs) = c.utf8Size + byteLength cs := rfl

@[simp] theorem byteLength_append (cs ds : List Char) :
    byteLength (cs ++ ds) = byteLength cs + byteLength ds := by
  induction cs with
  | nil => simp
  | cons c cs ih => simp [ih, Nat.add_assoc]

theorem byteLength_pos (h : cs ≠ []) : 0 < byteLength cs := by
  cases cs with
  | nil => exact absurd rfl h
  | cons c cs => exact Nat.add_pos_left c.utf8Size_pos _

theorem utf8ByteSize_ofList (cs : List Char) : (String.ofList cs).utf8ByteSize = byteLength cs := by
  induction cs with
  | nil => rfl
  | cons c cs ih =>
    rw [String.ofList_cons, String.utf8ByteSize_append, String.utf8ByteSize_singleton, ih, byteLength_cons]

theorem utf8ByteSize_eq (s : String) : s.utf8ByteSize = byteLength s.toList := by
  rw [← utf8ByteSize_ofList, String.ofList_toList]

/-- The offset of what follows the first characters of a text lies between two characters. -/
theorem isValid_of_append {s : String} {pre post : List Char} (h : s.toList = pre ++ post) :
    String.Pos.Raw.IsValid s ⟨byteLength pre⟩ := by
  rw [String.Pos.Raw.isValid_iff_exists_append]
  refine ⟨String.ofList pre, String.ofList post, ?_, ?_⟩
  · rw [← String.ofList_append, ← h, String.ofList_toList]
  · exact String.Pos.Raw.ext (utf8ByteSize_ofList pre).symm

/-! ## Quotes -/

/-- What becomes of the quote that is open, or of none, at a character. Only the same quote closes it. -/
def quoteAfter : Option Char → Char → Option Char
  | none, c => if c = '\'' ∨ c = '"' then some c else none
  | some quote, c => if c = quote then none else some quote

/-- The quote that is open after a text. -/
def openQuote (cs : List Char) : Option Char := cs.foldl quoteAfter none

theorem openQuote_append (hcs : openQuote cs = none) (ds : List Char) : openQuote (cs ++ ds) = openQuote ds := by
  unfold openQuote at hcs ⊢
  rw [List.foldl_append, hcs]

theorem openQuote_of_forall (h : ∀ c ∈ cs, c ≠ '\'' ∧ c ≠ '"') : openQuote cs = none := by
  induction cs with
  | nil => rfl
  | cons c cs ih =>
    obtain ⟨hsingle, hdouble⟩ := h c List.mem_cons_self
    have hc : openQuote [c] = none := if_neg (by simp [hsingle, hdouble])
    exact (openQuote_append hc cs).trans (ih fun d hd => h d (List.mem_cons_of_mem c hd))

theorem openQuote_cons_of_isBlank (h : isBlank c = true) (cs : List Char) :
    openQuote (c :: cs) = openQuote cs := by
  refine @openQuote_append [c] (openQuote_of_forall ?_) cs
  rintro d hd
  obtain rfl := List.mem_singleton.mp hd
  constructor
  · rintro rfl
    cases h
  · rintro rfl
    cases h

/-- A quote is open until it comes again. -/
theorem openQuote_cons_of_not_mem {quote : Char} (hquote : quote = '\'' ∨ quote = '"') (h : quote ∉ cs) :
    openQuote (quote :: cs) = some quote := by
  have hopen : quoteAfter none quote = some quote := if_pos hquote
  unfold openQuote
  rw [List.foldl_cons, hopen]
  induction cs with
  | nil => rfl
  | cons c cs ih =>
    rw [List.mem_cons, not_or] at h
    have hc : quoteAfter (some quote) c = some quote := if_neg (Ne.symm h.1)
    rw [List.foldl_cons, hc]
    exact ih h.2

end Text

namespace Expr

open Text

variable {c : Char} {cs rest pre post taken after text : List Char} {token : Token} {offset : Nat}
  {spots : List Spot}

/-! ## How tokens are written -/

/-- The signs of an operator. -/
def operatorSigns : BinaryOp → List Char
  | .mul => ['*']
  | .div => ['/']
  | .rem => ['%']
  | .add => ['+']
  | .sub => ['-']
  | .lt => ['<']
  | .le => ['<', '=']
  | .gt => ['>']
  | .ge => ['>', '=']
  | .eq => ['=', '=']
  | .ne => ['!', '=']
  | .and => ['&', '&']
  | .or => ['|', '|']

/-- The signs of a token that is always written in the same way. -/
def Token.signs? : Token → Option (List Char)
  | .dot => some ['.']
  | .leftParen => some ['(']
  | .rightParen => some [')']
  | .question => some ['?']
  | .colon => some [':']
  | .bang => some ['!']
  | .operator op => some (operatorSigns op)
  | .number _ | .text _ | .ident _ => none

/-- Whether a token is written with these characters. -/
inductive Token.WrittenAs : Token → List Char → Prop
  | number {x : Float} {c : Char} {cs : List Char} (parts : ∀ d ∈ c :: cs, isNumberPart d = true)
      (value : Number.read? (c :: cs) = some x) : WrittenAs (.number x) (c :: cs)
  | text {quote : Char} {body : List Char} (hquote : quote = '\'' ∨ quote = '"') (hbody : quote ∉ body) :
      WrittenAs (.text (String.ofList body)) (quote :: (body ++ [quote]))
  | ident {c : Char} {cs : List Char} (start : isNameStart c = true) (parts : ∀ d ∈ cs, isNamePart d = true) :
      WrittenAs (.ident (String.ofList (c :: cs))) (c :: cs)
  | signs {token : Token} {signs : List Char} (h : token.signs? = some signs) : WrittenAs token signs

theorem isNamePart_of_isNameStart (h : isNameStart c = true) : isNamePart c = true := by
  simp [isNamePart, h]

theorem signs?_of_symbol? (h : symbol? cs = some (token, after)) :
    ∃ signs, token.signs? = some signs ∧ cs = signs ++ after := by
  unfold symbol? at h
  split at h <;> cases h
  all_goals exact ⟨_, rfl, rfl⟩

/-- What a token takes of a text is how it is written. -/
theorem writtenAs_of_readToken (h : readToken cs = .ok (token, taken, after)) : token.WrittenAs taken := by
  unfold readToken at h
  split at h
  · cases h
  next c rest =>
  split at h
  next hnumber =>
    have hc : isNumberPart c = true := isNumberPart_of_startsNumber hnumber
    dsimp only at h
    split at h
    · next x hx =>
      cases h
      rw [List.takeWhile_cons_of_pos hc] at hx ⊢
      refine .number (fun d hd => ?_) hx
      rw [← List.takeWhile_cons_of_pos hc] at hd
      exact List.mem_takeWhile_imp hd
    · cases h
  split at h
  next hquote =>
    dsimp only at h
    split at h
    · next close after' hclose =>
      cases h
      -- What stops the body of the text is the quote that it began with.
      obtain rfl : close = c := by
        have hstop := List.head?_dropWhile_not (fun d => decide (d ≠ c)) rest
        rw [hclose] at hstop
        simpa using hstop
      refine .text hquote fun hmem => ?_
      have hkept := List.mem_takeWhile_imp hmem
      simp at hkept
    · cases h
  split at h
  next hname =>
    cases h
    have hc : isNamePart c = true := isNamePart_of_isNameStart hname
    rw [List.takeWhile_cons_of_pos hc]
    exact .ident hname fun d hd => List.mem_takeWhile_imp hd
  split at h
  · next hsymbol =>
    cases h
    obtain ⟨signs, hsigns, hcs⟩ := signs?_of_symbol? hsymbol
    rw [hcs, List.length_append, Nat.add_sub_cancel, List.take_left]
    exact .signs hsigns
  · cases h

theorem plain_of_signs? (h : token.signs? = some text) :
    text.all (fun c => !isBlank c && (c != '\'' && c != '"')) = true := by
  cases token with
  | operator op => cases op <;> cases h <;> rfl
  | number | text | ident => cases h
  | _ => cases h; rfl

/-- Outside quotes a token has neither a blank nor a quote. -/
theorem Token.WrittenAs.text_or_plain (h : token.WrittenAs text) :
    (∃ quote body, (quote = '\'' ∨ quote = '"') ∧ quote ∉ body ∧ text = quote :: (body ++ [quote])) ∨
      ∀ c ∈ text, isBlank c = false ∧ c ≠ '\'' ∧ c ≠ '"' := by
  have plain_of_part {p : Char → Bool} {c : Char} (hblank : isBlank c = false) (hc : p c = true)
      (hsingle : p '\'' = false) (hdouble : p '"' = false) : isBlank c = false ∧ c ≠ '\'' ∧ c ≠ '"' := by
    refine ⟨hblank, ?_, ?_⟩
    · rintro rfl
      rw [hsingle] at hc
      cases hc
    · rintro rfl
      rw [hdouble] at hc
      cases hc
  cases h with
  | number parts _ =>
    right
    intro c hc
    exact plain_of_part (isBlank_eq_false_of_isNumberPart (parts c hc)) (parts c hc) rfl rfl
  | text hquote hbody => exact .inl ⟨_, _, hquote, hbody, rfl⟩
  | ident start parts =>
    right
    intro c hc
    have hpart : isNamePart c = true := by
      rcases List.mem_cons.mp hc with rfl | hc
      · exact isNamePart_of_isNameStart start
      · exact parts c hc
    exact plain_of_part (isBlank_eq_false_of_isNamePart hpart) hpart rfl rfl
  | signs hsigns =>
    right
    intro c hc
    have hplain := List.all_eq_true.mp (plain_of_signs? hsigns) c hc
    rwa [Bool.and_eq_true, Bool.and_eq_true, Bool.not_eq_true', bne_iff_ne, bne_iff_ne] at hplain

theorem Token.WrittenAs.ne_nil (h : token.WrittenAs text) : text ≠ [] := by
  cases h with
  | number | text | ident => exact List.cons_ne_nil _ _
  | signs hsigns =>
    rintro rfl
    cases token with
    | operator op => cases op <;> cases hsigns
    | _ => cases hsigns

/-- No quote is left open by a token. -/
theorem Token.WrittenAs.openQuote_eq_none (h : token.WrittenAs text) : openQuote text = none := by
  obtain ⟨quote, body, hquote, hbody, rfl⟩ | hplain := h.text_or_plain
  · have hopen := openQuote_cons_of_not_mem hquote hbody
    unfold openQuote at hopen ⊢
    rw [← List.cons_append, List.foldl_append, hopen]
    exact if_pos rfl
  · exact openQuote_of_forall fun c hc => (hplain c hc).2

/-- A blank in a token stands within quotes. -/
theorem Token.WrittenAs.openQuote_ne_none (h : token.WrittenAs (pre ++ c :: post)) (hc : isBlank c = true) :
    openQuote pre ≠ none := by
  obtain ⟨quote, body, hquote, hbody, htext⟩ | hplain := h.text_or_plain
  · have hne : c ≠ quote := by
      rintro rfl
      obtain rfl | rfl := hquote <;> cases hc
    cases pre with
    | nil => exact absurd (List.cons.inj htext).1 hne
    | cons d pre =>
      obtain ⟨rfl, htext⟩ := List.cons.inj htext
      have hpre : d ∉ pre := by
        rcases List.append_eq_append_iff.mp htext with ⟨more, rfl, hlast⟩ | ⟨more, rfl, hlast⟩
        · exact fun hmem => hbody (List.mem_append_left _ hmem)
        · cases more with
          | nil => simpa using hbody
          | cons _ more => cases more <;> simp_all
      rw [openQuote_cons_of_not_mem hquote hpre]
      exact nofun
  · have hplain := (hplain c (by simp)).1
    rw [hc] at hplain
    cases hplain

end Expr

end Menagerie
