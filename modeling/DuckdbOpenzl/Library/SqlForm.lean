import Mathlib.Data.Int.Notation
import DuckdbOpenzl.Library.SqlText

/-!
# Forms of statements

A form writes a value into a statement and reads it back from there. Whether its
tokens can be told apart depends on the tokens alone and never on the value, so
a form says once behind what it may stand.
-/

set_option autoImplicit false

namespace SqlText

variable {α β : Type} {m : Mode} {t : Token} {ts us : Spaced}

/-! ## Where a reader stands -/

/-- A mode without the text that was read. -/
inductive Shape where
  | between
  | word
  | inside
  | closed (q : Quote)
  deriving DecidableEq

def Mode.shape : Mode → Shape
  | .between => .between
  | .word _ => .word
  | .quoted _ _ => .inside
  | .closing q _ => .closed q

def Token.shape : Token → Shape
  | .word _ => .word
  | .quoted q _ => .closed q
  | .symbol _ => .between

def Shape.admits : Shape → Token → Bool
  | .between, _ => true
  | .word, .word _ => false
  | .word, _ => true
  | .inside, _ => false
  | .closed q, .quoted q' _ => q' != q
  | .closed _, _ => true

def shapeBehind (t : Token × List Char) : Shape := if t.2 = [] then t.1.shape else .between

def endShape : Shape → Spaced → Shape
  | sh, [] => sh
  | _, t :: ts => endShape (shapeBehind t) ts

/-- `Legible`, as far as it can be seen from the shapes. -/
def follows : Shape → Spaced → Bool
  | _, [] => true
  | sh, t :: ts =>
      decide t.1.Valid && sh.admits t.1 && t.2.all isSpace && follows (shapeBehind t) ts

@[simp] theorem shape_mode (t : Token) : t.mode.shape = t.shape := by
  cases t <;> rfl

theorem shape_modeBehind (t : Token × List Char) : (modeBehind t).shape = shapeBehind t := by
  unfold modeBehind shapeBehind
  split_ifs
  · exact shape_mode t.1
  · rfl

theorem Mode.admits_of_shape (h : m.shape.admits t = true) : m.Admits t := by
  cases m with
  | between => exact trivial
  | word read =>
      cases t with
      | word text => cases h
      | quoted | symbol => exact trivial
  | quoted q read => cases h
  | closing q read =>
      cases t with
      | quoted q' text => exact bne_iff_ne.mp h
      | word | symbol => exact trivial

theorem shape_endMode (m : Mode) (ts : Spaced) : (endMode m ts).shape = endShape m.shape ts := by
  induction ts generalizing m with
  | nil => rfl
  | cons t ts ih =>
      rw [endMode, endShape, ← shape_modeBehind]
      exact ih _

theorem legible_of_follows (h : follows m.shape ts = true) : Legible m ts := by
  induction ts generalizing m with
  | nil => exact trivial
  | cons t ts ih =>
      rw [follows, ← shape_modeBehind] at h
      simp only [Bool.and_eq_true, decide_eq_true_eq] at h
      obtain ⟨⟨⟨hvalid, hadmits⟩, hblanks⟩, hrest⟩ := h
      exact ⟨hvalid, Mode.admits_of_shape hadmits, hblanks, ih hrest⟩

theorem endShape_of_ne_nil (h : ts ≠ []) (sh sh' : Shape) : endShape sh ts = endShape sh' ts := by
  cases ts with
  | nil => exact absurd rfl h
  | cons t ts => rfl

/-! ## Fixed text -/

/-- One more character; the latest token comes first, and a blank belongs to it. -/
def spacedStep (st : Mode × Spaced) (c : Char) : Mode × Spaced :=
  let out := step st.1 c
  let done := out.2.foldl (fun ts t ↦ (t, []) :: ts) st.2
  match out.1, done with
  | .between, t :: ts => (.between, if isSpace c then (t.1, t.2 ++ [c]) :: ts else t :: ts)
  | m, done => (m, done)

/-- The tokens of a text, with the blanks between them. -/
def fixed (text : String) : Spaced :=
  let st := text.toList.foldl spacedStep (.between, [])
  st.2.reverse ++ st.1.pending.map (·, [])

/-! ## Forms -/

structure Form (α : Type) where
  write : α → Spaced
  read : List Token → Option (α × List Token)
  /-- What it may stand behind. -/
  fits : Shape → Bool
  /-- Where it leaves a reader. -/
  leaves : Shape
  read_write : ∀ a rest, read (tokens (write a) ++ rest) = some (a, rest)
  legible : ∀ a m, fits m.shape = true → Legible m (write a)
  shape : ∀ a m, (endMode m (write a)).shape = leaves

def expectAll : List Token → List Token → Option (List Token)
  | [], ts => some ts
  | t :: fixed, ts => (expect t ts).bind (expectAll fixed)

theorem expectAll_append (fixed rest : List Token) :
    expectAll fixed (fixed ++ rest) = some rest := by
  induction fixed with
  | nil => rfl
  | cons t fixed ih =>
      rw [List.cons_append, expectAll, expect_self, Option.bind_some, ih]

def differ (ts us : List Token) : Bool := (ts.zip us).any fun p ↦ p.1 != p.2

theorem expectAll_of_differ {ts us : List Token} (h : differ ts us = true) (rest : List Token) :
    expectAll ts (us ++ rest) = none := by
  induction ts generalizing us with
  | nil => cases h
  | cons t ts ih =>
      cases us with
      | nil => cases h
      | cons u us =>
          by_cases hu : u = t
          · subst hu
            have hrest : differ ts us = true := by simpa [differ] using h
            rw [List.cons_append, expectAll, expect_self, Option.bind_some, ih hrest]
          · have hnone : expect t (u :: (us ++ rest)) = none := if_neg hu
            rw [List.cons_append, expectAll, hnone, Option.bind_none]

namespace Form

def behind (blank : Bool) : List Char := if blank then [' '] else []

theorem all_behind (blank : Bool) : (behind blank).all isSpace = true := by
  cases blank <;> decide

/-- A text in quotes. -/
def quoted (q : Quote) (blank : Bool) : Form String where
  write text := [(.quoted q text, behind blank)]
  read := readQuoted q
  fits sh := sh.admits (.quoted q "")
  leaves := if blank then .between else .closed q
  read_write text rest := readQuoted_self q text rest
  legible := by
    intro text m h
    refine ⟨trivial, Mode.admits_of_shape ?_, all_behind blank, trivial⟩
    cases hm : m.shape <;> rw [hm] at h <;> exact h
  shape := by
    intro text m
    cases blank <;> rfl

def readNatural (ts : List Token) : Option (ℕ × List Token) :=
  (readWord ts).map fun word ↦ (Nat.ofDigitChars 10 word.1.toList 0, word.2)

theorem readNatural_repr (n : ℕ) (rest : List Token) :
    readNatural (.word n.repr :: rest) = some (n, rest) := by
  rw [readNatural, readWord_self, Option.map_some, Nat.toList_repr, Nat.ofDigitChars_ten_toDigits]

def writeInt (blank : Bool) (i : ℤ) : Spaced :=
  (if i < 0 then [(Token.symbol '-').tight] else []) ++ [(.word i.natAbs.repr, behind blank)]

def readInt (ts : List Token) : Option (ℤ × List Token) :=
  (expect (.symbol '-') ts).elim ((readNatural ts).map fun n ↦ ((n.1 : ℤ), n.2))
    fun us ↦ (readNatural us).map fun n ↦ (-(n.1 : ℤ), n.2)

theorem readInt_writeInt (blank : Bool) (i : ℤ) (rest : List Token) :
    readInt (tokens (writeInt blank i) ++ rest) = some (i, rest) := by
  by_cases hi : i < 0
  · have hneg : -(i.natAbs : ℤ) = i := by omega
    rw [writeInt, if_pos hi]
    simp only [readInt, List.cons_append, List.nil_append, Token.tight, tokens, List.map_cons,
      List.map_nil, expect_self, Option.elim_some, readNatural_repr, Option.map_some, hneg]
  · have hpos : (i.natAbs : ℤ) = i := by omega
    have hnone : expect (.symbol '-') (.word i.natAbs.repr :: rest) = none := rfl
    rw [writeInt, if_neg hi]
    simp only [readInt, List.nil_append, tokens, List.map_cons, List.map_nil, List.cons_append,
      hnone, Option.elim_none, readNatural_repr, Option.map_some, hpos]

theorem legible_writeInt (blank : Bool) (i : ℤ)
    (h : (m.shape.admits (.word "") && m.shape.admits (.symbol '-')) = true) :
    Legible m (writeInt blank i) := by
  rw [Bool.and_eq_true] at h
  by_cases hi : i < 0
  · rw [writeInt, if_pos hi]
    refine legible_tight.mpr ⟨by decide, Mode.admits_of_shape h.2, ?_⟩
    exact ⟨valid_repr _, trivial, all_behind blank, trivial⟩
  · rw [writeInt, if_neg hi]
    refine ⟨valid_repr _, Mode.admits_of_shape ?_, all_behind blank, trivial⟩
    cases hm : m.shape <;> rw [hm] at h <;> exact h.1

theorem shape_writeInt (blank : Bool) (i : ℤ) (m : Mode) :
    (endMode m (writeInt blank i)).shape = if blank then .between else .word := by
  rw [writeInt, endMode_append]
  cases blank <;> rfl

/-- A number, with its sign. -/
def int (blank : Bool) : Form ℤ where
  write := writeInt blank
  read := readInt
  fits sh := sh.admits (.word "") && sh.admits (.symbol '-')
  leaves := if blank then .between else .word
  read_write := readInt_writeInt blank
  legible i _ h := legible_writeInt blank i h
  shape := shape_writeInt blank

variable (f : Form α) (g : Form β)

/-- The same tokens, for other values. -/
def map (pack : α → β) (unpack : β → α) (h : ∀ b, pack (unpack b) = b) : Form β where
  write b := f.write (unpack b)
  read ts := (f.read ts).map fun a ↦ (pack a.1, a.2)
  fits := f.fits
  leaves := f.leaves
  read_write b rest := by rw [f.read_write, Option.map_some, h]
  legible b m := f.legible (unpack b) m
  shape b m := f.shape (unpack b) m

/-- Behind fixed tokens. -/
def before (ts : Spaced) (h : ts ≠ [] ∧ f.fits (endShape .between ts) = true) : Form α where
  write a := ts ++ f.write a
  read us := (expectAll (tokens ts) us).bind f.read
  fits sh := follows sh ts
  leaves := f.leaves
  read_write a rest := by
    rw [tokens_append, List.append_assoc, expectAll_append, Option.bind_some, f.read_write]
  legible a m hm := by
    refine legible_append.mpr ⟨legible_of_follows hm, f.legible a _ ?_⟩
    rw [shape_endMode, endShape_of_ne_nil h.1 m.shape .between]
    exact h.2
  shape a m := by rw [endMode_append, f.shape]

/-- Before fixed tokens. -/
def after (ts : Spaced) (h : ts ≠ [] ∧ follows f.leaves ts = true) : Form α where
  write a := f.write a ++ ts
  read us := do
    let (a, us) ← f.read us
    let us ← expectAll (tokens ts) us
    return (a, us)
  fits := f.fits
  leaves := endShape .between ts
  read_write a rest := by
    rw [tokens_append, List.append_assoc, f.read_write]
    simp [expectAll_append]
  legible a m hm := by
    refine legible_append.mpr ⟨f.legible a m hm, legible_of_follows ?_⟩
    rw [f.shape]
    exact h.2
  shape a m := by
    rw [endMode_append, shape_endMode]
    exact endShape_of_ne_nil h.1 _ _

/-- One form behind another. -/
def seq (h : g.fits f.leaves = true) : Form (α × β) where
  write x := f.write x.1 ++ g.write x.2
  read us := do
    let (a, us) ← f.read us
    let (b, us) ← g.read us
    return ((a, b), us)
  fits := f.fits
  leaves := g.leaves
  read_write x rest := by
    rw [tokens_append, List.append_assoc, f.read_write]
    simp [g.read_write]
  legible x m hm := by
    refine legible_append.mpr ⟨f.legible x.1 m hm, g.legible x.2 _ ?_⟩
    rw [f.shape]
    exact h
  shape x m := by rw [endMode_append, g.shape]

/-- The form reads nothing that starts like this. -/
def Rejects (ts : Spaced) : Prop := ∀ rest, f.read (tokens ts ++ rest) = none

/-- Whatever the form writes starts in one of these ways. -/
def OpensWith (tss : List Spaced) : Prop := ∀ a, ∃ ts ∈ tss, ts <+: f.write a

/-- One of two forms, which their first tokens tell apart. -/
def choose {tss : List Spaced} (hleaves : g.leaves = f.leaves) (hopens : g.OpensWith tss)
    (hrejects : ∀ ts ∈ tss, f.Rejects ts) : Form (α ⊕ β) where
  write x := x.elim f.write g.write
  read ts :=
    match f.read ts with
    | some (a, us) => some (.inl a, us)
    | none => (g.read ts).map fun b ↦ (.inr b.1, b.2)
  fits sh := f.fits sh && g.fits sh
  leaves := f.leaves
  read_write x rest := by
    cases x with
    | inl a => simp only [Sum.elim_inl, f.read_write]
    | inr b =>
        obtain ⟨ts, hts, more, hmore⟩ := hopens b
        have hnone : f.read (tokens (g.write b) ++ rest) = none := by
          rw [← hmore, tokens_append, List.append_assoc]
          exact hrejects ts hts _
        simp only [Sum.elim_inr, hnone, g.read_write, Option.map_some]
  legible x m hm := by
    rw [Bool.and_eq_true] at hm
    cases x with
    | inl a => exact f.legible a m hm.1
    | inr b => exact g.legible b m hm.2
  shape x m := by
    cases x with
    | inl a => exact f.shape a m
    | inr b => exact (g.shape b m).trans hleaves

section Openings

variable {f : Form α} {g : Form β} {tss uss : List Spaced}

theorem opensWith_before {h : ts ≠ [] ∧ f.fits (endShape .between ts) = true} :
    (f.before ts h).OpensWith [ts] :=
  fun a ↦ ⟨ts, List.mem_singleton.mpr rfl, List.prefix_append ts (f.write a)⟩

theorem OpensWith.after (hopens : f.OpensWith tss) {h : us ≠ [] ∧ follows f.leaves us = true} :
    (f.after us h).OpensWith tss := by
  intro a
  obtain ⟨ts, hts, hstart⟩ := hopens a
  exact ⟨ts, hts, hstart.trans (List.prefix_append _ us)⟩

theorem OpensWith.seq (hopens : f.OpensWith tss) {h : g.fits f.leaves = true} :
    (f.seq g h).OpensWith tss := by
  intro x
  obtain ⟨ts, hts, hstart⟩ := hopens x.1
  exact ⟨ts, hts, hstart.trans (List.prefix_append _ (g.write x.2))⟩

theorem OpensWith.choose (hf : f.OpensWith uss) (hg : g.OpensWith tss)
    {hleaves : g.leaves = f.leaves} {hrejects : ∀ ts ∈ tss, f.Rejects ts} :
    (f.choose g hleaves hg hrejects).OpensWith (uss ++ tss) := by
  intro x
  cases x with
  | inl a =>
      obtain ⟨ts, hts, hstart⟩ := hf a
      exact ⟨ts, List.mem_append_left tss hts, hstart⟩
  | inr b =>
      obtain ⟨ts, hts, hstart⟩ := hg b
      exact ⟨ts, List.mem_append_right uss hts, hstart⟩

theorem rejects_before {hts : ts ≠ [] ∧ f.fits (endShape .between ts) = true}
    (h : differ (tokens ts) (tokens us) = true) : (f.before ts hts).Rejects us := by
  intro rest
  have hnone := expectAll_of_differ h rest
  exact (congrArg (Option.bind · f.read) hnone).trans (Option.bind_none _)

theorem Rejects.after (hrejects : f.Rejects ts) {h : us ≠ [] ∧ follows f.leaves us = true} :
    (f.after us h).Rejects ts := by
  intro rest
  have hnone := hrejects rest
  simp [Form.after, hnone]

theorem Rejects.seq (hrejects : f.Rejects ts) {h : g.fits f.leaves = true} :
    (f.seq g h).Rejects ts := by
  intro rest
  have hnone := hrejects rest
  simp [Form.seq, hnone]

end Openings

/-! ## Lists in braces -/

def writeList (write : α → Spaced) : List α → Spaced
  | [] => []
  | [a] => write a
  | a :: b :: rest => write a ++ (Token.symbol ',').blank :: writeList write (b :: rest)

theorem tokens_writeList (write : α → Spaced) (xs : List α) :
    tokens (writeList write xs) = commas (xs.map fun a ↦ tokens (write a)) := by
  induction xs with
  | nil => rfl
  | cons a rest ih =>
      cases rest with
      | nil => rfl
      | cons b rest =>
          rw [writeList, tokens_append, tokens_blank, ih]
          rfl

theorem render_writeList (write : α → Spaced) (xs : List α) :
    render (writeList write xs) = commaText (xs.map fun a ↦ render (write a)) := by
  induction xs with
  | nil => rfl
  | cons a rest ih =>
      cases rest with
      | nil => rfl
      | cons b rest =>
          rw [writeList, render_append, render_blank, ih]
          rfl

theorem legible_writeList (hfits : f.fits .between = true)
    (hcomma : f.leaves.admits (.symbol ',') = true) (xs : List α) :
    Legible .between (writeList f.write xs) := by
  induction xs with
  | nil => exact trivial
  | cons a rest ih =>
      cases rest with
      | nil => exact f.legible a .between hfits
      | cons b rest =>
          refine legible_append.mpr ⟨f.legible a .between hfits,
            legible_blank.mpr ⟨by decide, ?_, ih⟩⟩
          apply Mode.admits_of_shape
          rw [f.shape]
          exact hcomma

theorem shape_writeList {xs : List α} (hne : xs ≠ []) (m : Mode) :
    (endMode m (writeList f.write xs)).shape = f.leaves := by
  induction xs generalizing m with
  | nil => exact absurd rfl hne
  | cons a rest ih =>
      cases rest with
      | nil => exact f.shape a m
      | cons b rest =>
          rw [writeList, endMode_append]
          exact ih (List.cons_ne_nil _ _) _

/-- A form always writes something, as it leaves the reader in one shape. -/
theorem tokens_write_ne_nil (a : α) : tokens (f.write a) ≠ [] := by
  intro hnil
  have hempty : f.write a = [] := List.map_eq_nil_iff.mp hnil
  have hbetween := f.shape a .between
  have hword := f.shape a (.word [])
  rw [hempty] at hbetween hword
  cases hbetween.trans hword.symm

theorem readList_writeList {xs : List α} (hne : xs ≠ []) {rest : List Token}
    (hrest : rest.head? ≠ some (.symbol ',')) :
    readList f.read (tokens (writeList f.write xs) ++ rest).length
      (tokens (writeList f.write xs) ++ rest) = some (xs, rest) := by
  have hsome : ∀ ts ∈ xs.map fun a ↦ tokens (f.write a), ts ≠ [] := by
    intro ts hts
    obtain ⟨a, -, rfl⟩ := List.mem_map.mp hts
    exact f.tokens_write_ne_nil a
  have hlength := length_le_commas hsome
  rw [List.length_map] at hlength
  rw [tokens_writeList]
  apply readList_commas hne (fun a _ ↦ f.read_write a) _ hrest
  rw [List.length_append]
  omega

theorem head?_writeList (a : α) (rest : List α) :
    (tokens (writeList f.write (a :: rest))).head? = (tokens (f.write a)).head? := by
  cases rest with
  | nil => rfl
  | cons b rest =>
      rw [writeList, tokens_append, List.head?_append_of_ne_nil _ (f.tokens_write_ne_nil a)]

/-- Any number of values in braces, with commas between. -/
def braced (hfits : f.fits .between = true) (hcomma : f.leaves.admits (.symbol ',') = true)
    (hclose : f.leaves.admits (.symbol '\x7d') = true)
    (hfirst : ∀ a, (tokens (f.write a)).head? ≠ some (.symbol '\x7d')) : Form (List α) where
  write xs := (Token.symbol '\x7b').tight ::
    (writeList f.write xs ++ [(Token.symbol '\x7d').tight])
  read ts := do
    let ts ← expect (.symbol '\x7b') ts
    match expect (.symbol '\x7d') ts with
    | some ts => return ([], ts)
    | none =>
        let (xs, ts) ← readList f.read ts.length ts
        let ts ← expect (.symbol '\x7d') ts
        return (xs, ts)
  fits sh := sh.admits (.symbol '\x7b')
  leaves := .between
  read_write xs rest := by
    cases xs with
    | nil => simp [writeList]
    | cons a xs =>
        have hbrace : (Token.symbol '\x7d' :: rest).head? ≠ some (.symbol ',') := by simp
        have hlist := f.readList_writeList (List.cons_ne_nil a xs) hbrace
        rw [List.length_append, List.length_cons] at hlist
        have hopen : expect (.symbol '\x7d')
            (tokens (writeList f.write (a :: xs)) ++ .symbol '\x7d' :: rest) = none := by
          have hhead := f.head?_writeList a xs
          cases hts : tokens (writeList f.write (a :: xs)) with
          | nil =>
              rw [hts] at hhead
              exact absurd (List.head?_eq_none_iff.mp hhead.symm) (f.tokens_write_ne_nil a)
          | cons t ts =>
              rw [hts] at hhead
              exact if_neg fun ht ↦ hfirst a (hhead.symm.trans (congrArg some ht))
        simp [hopen, hlist]
  legible xs m hm := by
    refine legible_tight.mpr ⟨by decide, Mode.admits_of_shape hm, legible_append.mpr
      ⟨f.legible_writeList hfits hcomma xs, legible_tight.mpr ⟨by decide, ?_, trivial⟩⟩⟩
    apply Mode.admits_of_shape
    cases xs with
    | nil => rfl
    | cons a xs =>
        rw [f.shape_writeList (List.cons_ne_nil a xs)]
        exact hclose
  shape xs m := by
    rw [endMode, endMode_append]
    rfl

/-- What was written down as a whole statement reads back. -/
theorem lex_write (h : f.fits .between = true) (a : α) :
    lex (render (f.write a)) = some (tokens (f.write a)) :=
  lex_render (f.legible a .between h)

end Form

end SqlText
