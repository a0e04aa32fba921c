import Mathlib.Data.List.Basic

/-!
# SQL text and its tokens

Names and strings in quotes, words, and single characters. A quote inside a
quoted text is written twice. Text made of tokens with blanks between them
reads back as the same tokens, whatever stands inside the quotes.
-/

set_option autoImplicit false

namespace SqlText

/-! ## Tokens -/

inductive Quote where
  | name
  | literal
  deriving DecidableEq, Repr

def Quote.char : Quote → Char
  | .name => '"'
  | .literal => '\''

inductive Token where
  | word (text : String)
  | quoted (q : Quote) (text : String)
  | symbol (c : Char)
  deriving DecidableEq, Repr

def isSpace (c : Char) : Bool := c.isWhitespace

def isWordChar (c : Char) : Bool := c.isAlphanum || c == '_'

def isQuote (c : Char) : Bool := c == '"' || c == '\''

/-- A quoted text, with the quotes inside it doubled. -/
def quote (q : Char) (text : List Char) : List Char :=
  q :: (text.flatMap fun c ↦ if c = q then [q, q] else [c]) ++ [q]

def Token.text : Token → List Char
  | .word text => text.toList
  | .quoted q text => quote q.char text.toList
  | .symbol c => [c]

/-! ## Reading tokens -/

/-- Where the reader is; behind a quote it does not know yet whether the text has ended. -/
inductive Mode where
  | between
  | word (read : List Char)
  | quoted (q : Quote) (read : List Char)
  | closing (q : Quote) (read : List Char)

/-- A character that starts something new. -/
def start (c : Char) : Mode × List Token :=
  if isSpace c then (.between, [])
  else if c = '"' then (.quoted .name [], [])
  else if c = '\'' then (.quoted .literal [], [])
  else if isWordChar c then (.word [c], [])
  else (.between, [.symbol c])

def step : Mode → Char → Mode × List Token
  | .between, c => start c
  | .word read, c =>
      if isWordChar c then (.word (read ++ [c]), [])
      else ((start c).1, .word (String.ofList read) :: (start c).2)
  | .quoted q read, c =>
      if c = q.char then (.closing q read, []) else (.quoted q (read ++ [c]), [])
  | .closing q read, c =>
      if c = q.char then (.quoted q (read ++ [c]), [])
      else ((start c).1, .quoted q (String.ofList read) :: (start c).2)

def feed : Mode → List Char → Mode × List Token
  | m, [] => (m, [])
  | m, c :: cs => ((feed (step m c).1 cs).1, (step m c).2 ++ (feed (step m c).1 cs).2)

/-- The token that ends with the text; a quoted text must have ended before. -/
def Mode.last : Mode → Option (List Token)
  | .between => some []
  | .word read => some [.word (String.ofList read)]
  | .quoted _ _ => none
  | .closing q read => some [.quoted q (String.ofList read)]

def lex (cs : List Char) : Option (List Token) :=
  (feed .between cs).1.last.map ((feed .between cs).2 ++ ·)

theorem feed_cons (m : Mode) (c : Char) (cs : List Char) :
    feed m (c :: cs) = ((feed (step m c).1 cs).1, (step m c).2 ++ (feed (step m c).1 cs).2) := rfl

theorem feed_append (m : Mode) (xs ys : List Char) :
    feed m (xs ++ ys) =
      ((feed (feed m xs).1 ys).1, (feed m xs).2 ++ (feed (feed m xs).1 ys).2) := by
  induction xs generalizing m with
  | nil => rfl
  | cons c xs ih =>
      rw [List.cons_append, feed, ih]
      simp only [feed, List.append_assoc]

/-! ## One token -/

variable {q : Quote} {read cs : List Char} {c : Char} {t : Token}

theorem feed_spaces (h : ∀ c ∈ cs, isSpace c = true) : feed .between cs = (.between, []) := by
  induction cs with
  | nil => rfl
  | cons c cs ih =>
      have hstep : step .between c = (.between, []) := if_pos (h c List.mem_cons_self)
      rw [feed, hstep, ih fun d hd ↦ h d (List.mem_cons_of_mem c hd)]
      rfl

theorem feed_word (h : ∀ c ∈ cs, isWordChar c = true) :
    feed (.word read) cs = (.word (read ++ cs), []) := by
  induction cs generalizing read with
  | nil => rw [List.append_nil, feed]
  | cons c cs ih =>
      have hstep : step (.word read) c = (.word (read ++ [c]), []) :=
        if_pos (h c List.mem_cons_self)
      rw [feed, hstep, ih fun d hd ↦ h d (List.mem_cons_of_mem c hd)]
      simp

/-- Inside the quotes every character is text. -/
theorem feed_quoted (text : List Char) :
    feed (.quoted q read) (text.flatMap fun c ↦ if c = q.char then [q.char, q.char] else [c]) =
      (.quoted q (read ++ text), []) := by
  induction text generalizing read with
  | nil => rw [List.append_nil, List.flatMap_nil, feed]
  | cons c text ih =>
      rw [List.flatMap_cons, feed_append]
      by_cases hc : c = q.char
      · have hfeed : feed (.quoted q read) [q.char, q.char] =
            (.quoted q (read ++ [c]), []) := by
          simp [feed, step, hc]
        rw [if_pos hc, hfeed, ih]
        simp
      · have hfeed : feed (.quoted q read) [c] = (.quoted q (read ++ [c]), []) := by
          simp [feed, step, hc]
        rw [if_neg hc, hfeed, ih]
        simp

theorem start_quote (q : Quote) : start q.char = (.quoted q [], []) := by
  cases q <;> rfl

theorem feed_quote (text : List Char) :
    feed .between (quote q.char text) = (.closing q text, []) := by
  have hopen : feed .between (quote q.char text) = feed (.quoted q [])
      ((text.flatMap fun c ↦ if c = q.char then [q.char, q.char] else [c]) ++ [q.char]) := by
    rw [quote, List.cons_append, feed, show step .between q.char = _ from start_quote q]
    simp
  have hclose : feed (.quoted q text) [q.char] = (.closing q text, []) := by
    simp [feed, step]
  rw [hopen, feed_append, feed_quoted, List.nil_append, hclose]
  rfl

/-! ## Tokens with blanks between them -/

/-- A word is made of letters, digits and underscores; a symbol is neither that nor a blank nor a
quote. -/
def Token.Valid : Token → Prop
  | .word text => text.toList ≠ [] ∧ text.toList.all isWordChar = true
  | .quoted _ _ => True
  | .symbol c => isSpace c = false ∧ isQuote c = false ∧ isWordChar c = false

/-- Where a token leaves the reader. -/
def Token.mode : Token → Mode
  | .word text => .word text.toList
  | .quoted q text => .closing q text.toList
  | .symbol _ => .between

/-- The token that the reader has and has not put out. -/
def Mode.pending : Mode → List Token
  | .between => []
  | .word read => [.word (String.ofList read)]
  | .quoted _ _ => []
  | .closing q read => [.quoted q (String.ofList read)]

/-- The token may come next: a word behind a word, or a quote behind the same quote, would read
as one. -/
def Mode.Admits : Mode → Token → Prop
  | .between, _ => True
  | .word _, .word _ => False
  | .word _, _ => True
  | .quoted _ _, _ => False
  | .closing q _, .quoted q' _ => q' ≠ q
  | .closing _ _, _ => True

/-- Tokens, each with the blanks behind it. -/
abbrev Spaced := List (Token × List Char)

def render (ts : Spaced) : List Char := ts.flatMap fun t ↦ t.1.text ++ t.2

def tokens (ts : Spaced) : List Token := ts.map Prod.fst

def modeBehind (t : Token × List Char) : Mode := if t.2 = [] then t.1.mode else .between

def endMode : Mode → Spaced → Mode
  | m, [] => m
  | _, t :: ts => endMode (modeBehind t) ts

/-- The tokens are valid, and each may come where it stands. -/
def Legible : Mode → Spaced → Prop
  | _, [] => True
  | m, t :: ts => t.1.Valid ∧ m.Admits t.1 ∧ t.2.all isSpace = true ∧
      Legible (modeBehind t) ts

variable {m : Mode} {ts us : Spaced}

@[simp] theorem render_append (ts us : Spaced) : render (ts ++ us) = render ts ++ render us :=
  List.flatMap_append

@[simp] theorem tokens_append (ts us : Spaced) : tokens (ts ++ us) = tokens ts ++ tokens us :=
  List.map_append

theorem endMode_append (m : Mode) (ts us : Spaced) :
    endMode m (ts ++ us) = endMode (endMode m ts) us := by
  induction ts generalizing m with
  | nil => rfl
  | cons t ts ih => exact ih _

theorem legible_append : Legible m (ts ++ us) ↔ Legible m ts ∧ Legible (endMode m ts) us := by
  induction ts generalizing m with
  | nil => exact (and_iff_right trivial).symm
  | cons t ts ih =>
      have hrest := ih (m := modeBehind t)
      simp only [List.cons_append, Legible, endMode, hrest, and_assoc]

/-- A quoted text of any kind is valid. -/
@[simp] theorem valid_quoted (q : Quote) (text : String) : (Token.quoted q text).Valid := trivial

theorem start_of_word (h : isWordChar c = true) : start c = (.word [c], []) := by
  have hspace : isSpace c = false := by
    rw [isSpace, Bool.eq_false_iff]
    intro hwhite
    simp only [Char.isWhitespace, Bool.or_eq_true, decide_eq_true_eq] at hwhite
    rcases hwhite with ((rfl | rfl) | rfl) | rfl <;> revert h <;> decide
  have hname : c ≠ '"' := by
    rintro rfl
    revert h
    decide
  have hliteral : c ≠ '\'' := by
    rintro rfl
    revert h
    decide
  simp [start, hspace, hname, hliteral, h]

theorem start_of_symbol (h : (Token.symbol c).Valid) : start c = (.between, [.symbol c]) := by
  obtain ⟨hspace, hquote, hword⟩ := h
  simp only [isQuote, Bool.or_eq_false_iff, beq_eq_false_iff_ne] at hquote
  simp [start, hspace, hquote, hword]

theorem isWordChar_quote (q : Quote) : isWordChar q.char = false := by
  cases q <;> decide

theorem isQuote_quote (q : Quote) : isQuote q.char = true := by
  cases q <;> decide

theorem feed_text (ht : t.Valid) : ∃ out, feed .between t.text = (t.mode, out) ∧
    out ++ t.mode.pending = [t] := by
  cases t with
  | word text =>
      obtain ⟨hne, hword⟩ := ht
      refine ⟨[], ?_, by simp [Token.mode, Mode.pending]⟩
      change feed .between text.toList = (.word text.toList, [])
      cases hchars : text.toList with
      | nil => exact absurd hchars hne
      | cons c cs =>
          rw [hchars, List.all_eq_true] at hword
          have hstep : step .between c = (.word [c], []) :=
            start_of_word (hword c List.mem_cons_self)
          rw [feed, hstep, feed_word fun d hd ↦ hword d (List.mem_cons_of_mem c hd)]
          rfl
  | quoted q text =>
      refine ⟨[], feed_quote text.toList, ?_⟩
      simp [Token.mode, Mode.pending]
  | symbol c =>
      have hstep : step .between c = (.between, [.symbol c]) := start_of_symbol ht
      refine ⟨[.symbol c], ?_, rfl⟩
      simp only [Token.text, feed, hstep]
      rfl

/-- A character that ends what the reader has and starts something new. -/
theorem feed_of_step (h : step m c = ((start c).1, m.pending ++ (start c).2)) :
    feed m (c :: cs) = ((feed .between (c :: cs)).1, m.pending ++ (feed .between (c :: cs)).2) := by
  rw [feed_cons, feed_cons, h, List.append_assoc]
  rfl

theorem step_word_of (h : isWordChar c = false) :
    step (.word read) c = ((start c).1, (Mode.word read).pending ++ (start c).2) := by
  simp [step, h, Mode.pending]

theorem step_closing_of (h : c ≠ q.char) :
    step (.closing q read) c = ((start c).1, (Mode.closing q read).pending ++ (start c).2) := by
  simp [step, h, Mode.pending]

/-- Behind what the reader has, an admitted token reads as it does alone. -/
theorem feed_admitted (hadmits : m.Admits t) (ht : t.Valid) :
    feed m t.text = ((feed .between t.text).1, m.pending ++ (feed .between t.text).2) := by
  cases m with
  | between => rfl
  | quoted q read => exact absurd hadmits id
  | word read =>
      cases t with
      | word text => exact absurd hadmits id
      | quoted q text => exact feed_of_step (step_word_of (isWordChar_quote q))
      | symbol c => exact feed_of_step (step_word_of ht.2.2)
  | closing q read =>
      cases t with
      | word text =>
          obtain ⟨hne, hword⟩ := ht
          simp only [Token.text]
          cases hchars : text.toList with
          | nil => exact absurd hchars hne
          | cons c cs =>
              apply feed_of_step
              apply step_closing_of
              rintro rfl
              rw [hchars, List.all_eq_true] at hword
              have hquote := hword _ List.mem_cons_self
              rw [isWordChar_quote] at hquote
              cases hquote
      | quoted q' text =>
          apply feed_of_step
          apply step_closing_of
          intro hsame
          apply hadmits
          cases q <;> cases q' <;> first | rfl | exact absurd hsame (by decide)
      | symbol c =>
          apply feed_of_step
          apply step_closing_of
          rintro rfl
          have hquote := ht.2.1
          rw [isQuote_quote] at hquote
          cases hquote

/-- Blanks end what the reader has. -/
theorem feed_blanks (hm : ∀ q read, m ≠ .quoted q read) (hne : cs ≠ [])
    (h : ∀ c ∈ cs, isSpace c = true) : feed m cs = (.between, m.pending) := by
  cases cs with
  | nil => exact absurd rfl hne
  | cons c cs =>
      have hspace := h c List.mem_cons_self
      have hword : isWordChar c = false := by
        rw [Bool.eq_false_iff]
        intro hword
        have hstart := start_of_word hword
        rw [start, if_pos hspace] at hstart
        cases hstart
      have hblank := feed_spaces h
      have hstep : step m c = ((start c).1, m.pending ++ (start c).2) := by
        cases m with
        | between => rfl
        | word read => exact step_word_of hword
        | quoted q read => exact absurd rfl (hm q read)
        | closing q read =>
            apply step_closing_of
            rintro rfl
            cases q <;> revert hspace <;> decide
      rw [feed_of_step hstep, hblank, List.append_nil]

theorem mode_ne_quoted (t : Token) (q : Quote) (read : List Char) : t.mode ≠ .quoted q read := by
  cases t <;> simp [Token.mode]

theorem feed_render (h : Legible m ts) : ∃ out, feed m (render ts) = (endMode m ts, out) ∧
    out ++ (endMode m ts).pending = m.pending ++ tokens ts := by
  induction ts generalizing m with
  | nil => exact ⟨[], rfl, (List.append_nil _).symm⟩
  | cons t ts ih =>
      obtain ⟨hvalid, hadmits, hblanks, hrest⟩ := h
      obtain ⟨out, hfeed, hout⟩ := feed_text hvalid
      have hbehind : ∃ more, feed m (t.1.text ++ t.2) = (modeBehind t, more) ∧
          more ++ (modeBehind t).pending = m.pending ++ [t.1] := by
        rw [feed_append, feed_admitted hadmits hvalid, hfeed]
        unfold modeBehind
        by_cases hnone : t.2 = []
        · refine ⟨m.pending ++ out, ?_, ?_⟩
          · rw [if_pos hnone, hnone]
            simp [feed]
          · rw [if_pos hnone, List.append_assoc, hout]
        · refine ⟨m.pending ++ out ++ t.1.mode.pending, ?_, ?_⟩
          · rw [if_neg hnone, feed_blanks (mode_ne_quoted t.1) hnone (List.all_eq_true.mp hblanks)]
          · rw [if_neg hnone, Mode.pending, List.append_nil, List.append_assoc, hout]
      obtain ⟨more, hmore, hsum⟩ := hbehind
      obtain ⟨last, hlast, hend⟩ := ih hrest
      refine ⟨more ++ last, ?_, ?_⟩
      · rw [render, List.flatMap_cons, feed_append, hmore]
        exact congrArg₂ Prod.mk (congrArg Prod.fst hlast) (congrArg (more ++ ·)
          (congrArg Prod.snd hlast))
      · rw [endMode, List.append_assoc, hend, ← List.append_assoc, hsum]
        simp [tokens]

theorem modeBehind_ne_quoted (t : Token × List Char) (q : Quote) (read : List Char) :
    modeBehind t ≠ .quoted q read := by
  unfold modeBehind
  split_ifs
  · exact mode_ne_quoted t.1 q read
  · exact fun h ↦ (by cases h)

theorem last_endMode (ts : Spaced) :
    (endMode .between ts).last = some (endMode .between ts).pending := by
  have hlast : ∀ m : Mode, (∀ q read, m ≠ .quoted q read) → m.last = some m.pending := by
    intro m hm
    cases m with
    | quoted q read => exact absurd rfl (hm q read)
    | between | word read | closing q read => rfl
  have hend : ∀ m : Mode, (∀ q read, m ≠ .quoted q read) →
      ∀ q read, endMode m ts ≠ .quoted q read := by
    induction ts with
    | nil => exact fun _ hm ↦ hm
    | cons t ts ih => exact fun _ _ ↦ ih _ (modeBehind_ne_quoted t)
  apply hlast
  exact hend _ fun _ _ h ↦ (by cases h)

/-- Legible text reads as its tokens. -/
theorem lex_render (h : Legible .between ts) : lex (render ts) = some (tokens ts) := by
  obtain ⟨out, hfeed, hout⟩ := feed_render h
  unfold lex
  rw [hfeed]
  dsimp only
  rw [last_endMode, Option.map_some, hout]
  rfl

/-- Legible text that ends in a blank or a symbol leaves the text behind it alone. -/
theorem lex_render_append (h : Legible .between ts) (hend : endMode .between ts = .between)
    (rest : List Char) : lex (render ts ++ rest) = (lex rest).map (tokens ts ++ ·) := by
  obtain ⟨out, hfeed, hout⟩ := feed_render h
  rw [hend] at hfeed hout
  simp only [Mode.pending, List.append_nil, List.nil_append] at hout
  unfold lex
  rw [feed_append, hfeed, Option.map_map]
  dsimp only
  rw [hout]
  congr 1
  funext last
  exact List.append_assoc _ _ _

/-! ## Writing tokens down -/

/-- The token with nothing behind it. -/
def Token.tight (t : Token) : Token × List Char := (t, [])

/-- The token with a blank behind it. -/
def Token.blank (t : Token) : Token × List Char := (t, [' '])

instance (t : Token) : Decidable t.Valid := by
  cases t <;> unfold Token.Valid <;> infer_instance

@[simp] theorem render_nil : render [] = [] := rfl

@[simp] theorem render_tight (t : Token) (ts : Spaced) :
    render (t.tight :: ts) = t.text ++ render ts := by
  simp [render, Token.tight]

@[simp] theorem render_blank (t : Token) (ts : Spaced) :
    render (t.blank :: ts) = t.text ++ ' ' :: render ts := by
  simp [render, Token.blank]

@[simp] theorem tokens_nil : tokens [] = [] := rfl

@[simp] theorem tokens_tight (t : Token) (ts : Spaced) :
    tokens (t.tight :: ts) = t :: tokens ts := rfl

@[simp] theorem tokens_blank (t : Token) (ts : Spaced) :
    tokens (t.blank :: ts) = t :: tokens ts := rfl

@[simp] theorem legible_nil (m : Mode) : Legible m [] := trivial

@[simp] theorem legible_tight :
    Legible m (t.tight :: ts) ↔ t.Valid ∧ m.Admits t ∧ Legible t.mode ts := by
  simp [Legible, Token.tight, modeBehind]

@[simp] theorem legible_blank :
    Legible m (t.blank :: ts) ↔ t.Valid ∧ m.Admits t ∧ Legible .between ts := by
  have hblank : isSpace ' ' = true := by decide
  simp [Legible, Token.blank, modeBehind, hblank]

theorem isWordChar_of_isDigit (h : c.isDigit = true) : isWordChar c = true := by
  simp [isWordChar, Char.isAlphanum, h]

/-- A number in decimal digits is a word. -/
theorem valid_repr (n : ℕ) : (Token.word n.repr).Valid := by
  have hdigits : n.repr.toList = Nat.toDigits 10 n := Nat.toList_repr
  constructor
  · rw [hdigits]
    exact List.ne_nil_of_length_pos Nat.length_toDigits_pos
  · rw [hdigits, List.all_eq_true]
    intro c hc
    exact isWordChar_of_isDigit (Nat.isDigit_of_mem_toDigits (by decide) (by decide) hc)

/-- Text without the quote is written as it is. -/
theorem quote_of_notMem {q : Char} {text : List Char} (h : q ∉ text) :
    quote q text = q :: text ++ [q] := by
  have hsame : (text.flatMap fun c ↦ if c = q then [q, q] else [c]) = text := by
    induction text with
    | nil => rfl
    | cons c text ih =>
        have hne : c ≠ q := fun hc ↦ h (hc ▸ List.mem_cons_self)
        rw [List.flatMap_cons, if_neg hne, ih fun hmem ↦ h (List.mem_cons_of_mem c hmem)]
        rfl
  rw [quote, hsame]

/-! ## Phrases -/

/-- Some tokens and a last one, which takes the blanks that follow. -/
structure Phrase where
  init : Spaced
  last : Token

namespace Phrase

def spaced (ph : Phrase) (blanks : List Char) : Spaced := ph.init ++ [(ph.last, blanks)]

def text (ph : Phrase) : List Char := render (ph.spaced [])

def tokens (ph : Phrase) : List Token := SqlText.tokens (ph.spaced [])

def Legible (ph : Phrase) : Prop := SqlText.Legible .between (ph.spaced [])

variable {ph : Phrase} {blanks : List Char}

theorem legible_iff : ph.Legible ↔ SqlText.Legible .between (ph.init ++ [ph.last.tight]) := Iff.rfl

theorem text_eq (ph : Phrase) : ph.text = render ph.init ++ ph.last.text := by
  simp [text, spaced, render]

theorem tokens_eq (ph : Phrase) : ph.tokens = SqlText.tokens ph.init ++ [ph.last] := by
  simp [tokens, spaced, SqlText.tokens]

theorem render_spaced (ph : Phrase) (blanks : List Char) :
    render (ph.spaced blanks) = ph.text ++ blanks := by
  simp [spaced, text, render]

theorem tokens_spaced (ph : Phrase) (blanks : List Char) :
    SqlText.tokens (ph.spaced blanks) = ph.tokens := by
  simp [spaced, tokens, SqlText.tokens]

theorem Legible.spaced (h : ph.Legible) (hblanks : blanks.all isSpace = true) :
    SqlText.Legible .between (ph.spaced blanks) := by
  obtain ⟨hinit, hvalid, hadmits, -, -⟩ := legible_append.mp h
  exact legible_append.mpr ⟨hinit, hvalid, hadmits, hblanks, trivial⟩

theorem endMode_spaced (m : Mode) (ph : Phrase) (blanks : List Char) :
    endMode m (ph.spaced blanks) = if blanks = [] then ph.last.mode else .between := by
  rw [Phrase.spaced, endMode_append]
  rfl

end Phrase

theorem admits_symbol (t : Token) (c : Char) : t.mode.Admits (.symbol c) := by
  cases t <;> exact trivial

/-- Phrases with a comma and a blank between any two. -/
def spacedCommas (blanks : List Char) : List Phrase → Spaced
  | [] => []
  | [ph] => ph.spaced blanks
  | ph :: next :: rest =>
      ph.spaced [] ++ (.symbol ',', [' ']) :: spacedCommas blanks (next :: rest)

/-- Lists of tokens with a comma between any two. -/
def commas : List (List Token) → List Token
  | [] => []
  | [ts] => ts
  | ts :: us :: rest => ts ++ .symbol ',' :: commas (us :: rest)

/-- Texts with `, ` between any two. -/
def commaText : List (List Char) → List Char
  | [] => []
  | [cs] => cs
  | cs :: ds :: rest => cs ++ ',' :: ' ' :: commaText (ds :: rest)

section Commas

theorem commaText_cons (cs : List Char) (css : List (List Char)) :
    commaText (cs :: css) = cs ++ css.flatMap fun ds ↦ ',' :: ' ' :: ds := by
  induction css generalizing cs with
  | nil => simp [commaText]
  | cons ds css ih =>
      rw [commaText, ih, List.flatMap_cons]
      rfl

theorem commaText_append {css dss : List (List Char)} (hcss : css ≠ []) (hdss : dss ≠ []) :
    commaText (css ++ dss) = commaText css ++ ',' :: ' ' :: commaText dss := by
  cases css with
  | nil => exact absurd rfl hcss
  | cons cs css =>
      cases dss with
      | nil => exact absurd rfl hdss
      | cons ds dss => simp [commaText_cons]

variable {phs : List Phrase} {blanks : List Char}

theorem tokens_spacedCommas (blanks : List Char) (phs : List Phrase) :
    tokens (spacedCommas blanks phs) = commas (phs.map Phrase.tokens) := by
  induction phs with
  | nil => rfl
  | cons ph rest ih =>
      cases rest with
      | nil => exact ph.tokens_spaced blanks
      | cons next rest =>
          rw [spacedCommas, tokens_append, ph.tokens_spaced]
          exact congrArg (ph.tokens ++ .symbol ',' :: ·) ih

theorem render_spacedCommas (hne : phs ≠ []) (blanks : List Char) :
    render (spacedCommas blanks phs) = commaText (phs.map Phrase.text) ++ blanks := by
  induction phs with
  | nil => exact absurd rfl hne
  | cons ph rest ih =>
      cases rest with
      | nil => exact ph.render_spaced blanks
      | cons next rest =>
          have hrest := ih (List.cons_ne_nil _ _)
          have hcomma : render ((Token.symbol ',', [' ']) :: spacedCommas blanks (next :: rest)) =
              ',' :: ' ' :: render (spacedCommas blanks (next :: rest)) := rfl
          rw [spacedCommas, render_append, ph.render_spaced, hcomma, hrest]
          simp [commaText]

theorem legible_spacedCommas (h : ∀ ph ∈ phs, ph.Legible)
    (hblanks : blanks.all isSpace = true) :
    Legible .between (spacedCommas blanks phs) := by
  induction phs with
  | nil => exact trivial
  | cons ph rest ih =>
      have hph := h ph List.mem_cons_self
      cases rest with
      | nil => exact hph.spaced hblanks
      | cons next rest =>
          refine legible_append.mpr ⟨hph.spaced (by simp), ⟨by decide, by decide, by decide⟩, ?_,
            by decide, ih fun ph hmem ↦ h ph (List.mem_cons_of_mem _ hmem)⟩
          rw [Phrase.endMode_spaced, if_pos rfl]
          exact admits_symbol ph.last ','

theorem endMode_spacedCommas (hne : phs ≠ []) (hblanks : blanks ≠ []) (m : Mode) :
    endMode m (spacedCommas blanks phs) = .between := by
  induction phs generalizing m with
  | nil => exact absurd rfl hne
  | cons ph rest ih =>
      cases rest with
      | nil => exact (ph.endMode_spaced m blanks).trans (if_neg hblanks)
      | cons next rest =>
          rw [spacedCommas, endMode_append]
          exact ih (List.cons_ne_nil _ _) _

end Commas

/-! ## Reading a statement -/

def expect (t : Token) : List Token → Option (List Token)
  | u :: rest => if u = t then some rest else none
  | [] => none

def readQuoted (q : Quote) : List Token → Option (String × List Token)
  | .quoted q' text :: rest => if q' = q then some (text, rest) else none
  | _ => none

def readWord : List Token → Option (String × List Token)
  | .word text :: rest => some (text, rest)
  | _ => none

@[simp] theorem expect_self (t : Token) (rest : List Token) : expect t (t :: rest) = some rest :=
  if_pos rfl

@[simp] theorem readQuoted_self (q : Quote) (text : String) (rest : List Token) :
    readQuoted q (.quoted q text :: rest) = some (text, rest) :=
  if_pos rfl

@[simp] theorem readWord_self (text : String) (rest : List Token) :
    readWord (.word text :: rest) = some (text, rest) := rfl

/-- What `read` reads, once or more, with commas between. -/
def readList {α : Type} (read : List Token → Option (α × List Token)) :
    ℕ → List Token → Option (List α × List Token)
  | 0, _ => none
  | n + 1, ts => do
      let (x, ts) ← read ts
      match expect (.symbol ',') ts with
      | some ts =>
          let (xs, ts) ← readList read n ts
          return (x :: xs, ts)
      | none => return ([x], ts)

theorem readList_commas {α : Type} {read : List Token → Option (α × List Token)}
    {write : α → List Token} {xs : List α} (hxs : xs ≠ [])
    (hread : ∀ x ∈ xs, ∀ rest, read (write x ++ rest) = some (x, rest)) {n : ℕ}
    (hn : xs.length ≤ n) {rest : List Token} (hrest : rest.head? ≠ some (.symbol ',')) :
    readList read n (commas (xs.map write) ++ rest) = some (xs, rest) := by
  induction xs generalizing n with
  | nil => exact absurd rfl hxs
  | cons x xs ih =>
      obtain ⟨n, rfl⟩ : ∃ k, n = k + 1 := Nat.exists_eq_succ_of_ne_zero (by simp at hn; omega)
      have hx := hread x List.mem_cons_self
      cases xs with
      | nil =>
          have hnone : expect (.symbol ',') rest = none := by
            cases rest with
            | nil => rfl
            | cons t rest => exact if_neg fun h ↦ hrest (congrArg some h)
          have hlast : readList read (n + 1) (write x ++ rest) = some ([x], rest) := by
            rw [readList, hx]
            dsimp only [bind, Option.bind]
            rw [hnone]
            rfl
          exact hlast
      | cons y ys =>
          have hall := ih (List.cons_ne_nil _ _) (fun z hz ↦ hread z (List.mem_cons_of_mem x hz))
            (Nat.le_of_succ_le_succ hn)
          have hsplit : commas ((x :: y :: ys).map write) ++ rest =
              write x ++ (.symbol ',' :: (commas ((y :: ys).map write) ++ rest)) := by
            simp [commas]
          rw [hsplit, readList, hx]
          dsimp only [bind, Option.bind]
          rw [expect_self]
          dsimp only
          rw [hall]
          rfl

theorem length_le_commas {tss : List (List Token)} (h : ∀ ts ∈ tss, ts ≠ []) :
    tss.length ≤ (commas tss).length := by
  induction tss with
  | nil => exact Nat.le_refl _
  | cons ts rest ih =>
      have hts : 0 < ts.length := List.length_pos_iff.mpr (h ts List.mem_cons_self)
      have hrest := ih fun us hus ↦ h us (List.mem_cons_of_mem ts hus)
      cases rest with
      | nil => exact hts
      | cons us rest =>
          have hcommas : (commas (ts :: us :: rest)).length =
              ts.length + ((commas (us :: rest)).length + 1) := List.length_append
          rw [hcommas, List.length_cons]
          omega

/-! ## `SELECT items FROM source` -/

def selectText (items : List (List Char)) (source : List Char) : List Char :=
  "SELECT ".toList ++ (commaText items ++ (" FROM ".toList ++ source))

def readSelect {α : Type} (read : List Token → Option (α × List Token)) (ts : List Token) :
    Option (List α × List Token) := do
  let ts ← expect (.word "SELECT") ts
  let (items, ts) ← readList read ts.length ts
  let ts ← expect (.word "FROM") ts
  return (items, ts)

theorem lex_keyword {text : String} (h : (Token.word text).Valid) (rest : List Char) :
    lex (text.toList ++ ' ' :: rest) = (lex rest).map (.word text :: ·) := by
  have hblank : [' '].all isSpace = true := by decide
  have hone : Legible .between [(Token.word text, [' '])] := ⟨h, trivial, hblank, trivial⟩
  have htext : render [(Token.word text, [' '])] ++ rest = text.toList ++ ' ' :: rest := by
    simp [render, Token.text]
  rw [← htext]
  exact lex_render_append hone rfl rest

theorem lex_commaText {phs : List Phrase} (hne : phs ≠ []) (h : ∀ ph ∈ phs, ph.Legible)
    (rest : List Char) : lex (commaText (phs.map Phrase.text) ++ ' ' :: rest) =
      (lex rest).map (commas (phs.map Phrase.tokens) ++ ·) := by
  have hitems : Legible .between (spacedCommas [' '] phs) := legible_spacedCommas h (by decide)
  have hend : endMode .between (spacedCommas [' '] phs) = .between :=
    endMode_spacedCommas hne (List.cons_ne_nil _ _) _
  have hlex := lex_render_append hitems hend rest
  rw [tokens_spacedCommas, render_spacedCommas hne, List.append_assoc] at hlex
  exact hlex

/-- The items read one by one; the source reads as it does alone. -/
theorem lex_selectText {phs : List Phrase} (hne : phs ≠ []) (h : ∀ ph ∈ phs, ph.Legible)
    (source : List Char) : lex (selectText (phs.map Phrase.text) source) =
      (lex source).map fun ts ↦
        .word "SELECT" :: (commas (phs.map Phrase.tokens) ++ .word "FROM" :: ts) := by
  have htext : selectText (phs.map Phrase.text) source = "SELECT".toList ++ ' ' ::
      (commaText (phs.map Phrase.text) ++ ' ' :: ("FROM".toList ++ ' ' :: source)) := rfl
  rw [htext, lex_keyword ⟨by decide, by decide⟩, lex_commaText hne h,
    lex_keyword ⟨by decide, by decide⟩, Option.map_map, Option.map_map]
  rfl

theorem readSelect_selectText {α : Type} {read : List Token → Option (α × List Token)}
    {phrase : α → Phrase} {xs : List α} (hxs : xs ≠ []) (h : ∀ x ∈ xs, (phrase x).Legible)
    (hread : ∀ x ∈ xs, ∀ rest, read ((phrase x).tokens ++ rest) = some (x, rest))
    (source : List Char) :
    (lex (selectText (xs.map fun x ↦ (phrase x).text) source)).bind (readSelect read) =
      (lex source).map (xs, ·) := by
  have hphrases : ∀ ph ∈ xs.map phrase, ph.Legible := by
    intro ph hph
    obtain ⟨x, hx, rfl⟩ := List.mem_map.mp hph
    exact h x hx
  have hsome : ∀ ts ∈ xs.map fun x ↦ (phrase x).tokens, ts ≠ [] := by
    intro ts hts
    obtain ⟨x, -, rfl⟩ := List.mem_map.mp hts
    simp [Phrase.tokens, Phrase.spaced, tokens]
  have hlex := lex_selectText (List.map_eq_nil_iff.not.mpr hxs) hphrases source
  rw [List.map_map, List.map_map] at hlex
  have hread_tokens : ∀ ts, readSelect read (.word "SELECT" ::
      (commas (xs.map fun x ↦ (phrase x).tokens) ++ .word "FROM" :: ts)) = some (xs, ts) := by
    intro ts
    have hlength := length_le_commas hsome
    rw [List.length_map] at hlength
    have hfuel : xs.length ≤
        (commas (xs.map fun x ↦ (phrase x).tokens) ++ .word "FROM" :: ts).length := by
      rw [List.length_append]
      omega
    have hfrom : (Token.word "FROM" :: ts).head? ≠ some (.symbol ',') := by simp
    have hlist := readList_commas hxs hread hfuel hfrom
    rw [readSelect, expect_self]
    dsimp only [bind, Option.bind]
    rw [hlist]
    dsimp only
    rw [expect_self]
    rfl
  have htokens : readSelect read ∘ (fun ts ↦ .word "SELECT" ::
      (commas (xs.map fun x ↦ (phrase x).tokens) ++ .word "FROM" :: ts)) =
      fun ts ↦ some (xs, ts) := funext hread_tokens
  refine (congrArg (Option.bind · (readSelect read)) hlex).trans ?_
  cases lex source with
  | none => rfl
  | some ts => exact congrFun htokens ts

end SqlText
