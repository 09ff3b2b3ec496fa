import Prodosfs.General.Screen
import Prodosfs.MultiScribe

/-!
# What MultiScribe texts look like

`wpf2txt` prints the same text with escape codes and without. On a terminal the codes show the style
of the text: a bit of the style is a pair of codes around the text, one for each bit, and a font is
a colour.

For a style all pairs are put around one another, with the text in the middle. The codes that end
what is bold and what is faint are the same one, so that behind an inner pair less is on than there
was before it. There is no text there, and what is meant to be on is on where the text is.

A text of wide letters gets a blank on both sides of each of its characters. By then the codes for
the colour are already around it, and they get their blanks as well. An `ESC` with a blank behind it
begins some other sequence, and what is left of the code is shown on the terminal.

## Main definitions

* `Formatting.pen` — how the text of a code is meant to be shown
* `Formatting.Broken` — a font for wide letters
* `Meant` — what is meant to be seen of a file

## Main results

* `wpf2txt_shows` — what is seen of a file, with codes, is what is printed without them, if and only
  if there are no wide letters in another font
-/

namespace Prodosfs.MultiScribe

open Perl

/-! ### Meaning -/

/-- How the text of a code is meant to be shown, but for its font. -/
def Formatting.stylePen (f : Formatting) : Pen where
  bold := f.style &&& 0x01 ≠ 0 ∨ f.style &&& 0x10 ≠ 0
  faint := f.style &&& 0x08 ≠ 0
  italic := f.style &&& 0x02 ≠ 0
  under := f.style &&& 0x04 ≠ 0
  inverse := f.style &&& 0x80 ≠ 0

/-- Another font is a colour. -/
def fontPen (p : Pen) : Pen := { p with bold := true, colour := some 6 }

/-- How the text of a code is meant to be shown. -/
def Formatting.pen (f : Formatting) : Pen := if 0 < f.font then fontPen f.stylePen else f.stylePen

/-- Wide letters in another font. -/
def Formatting.Broken (f : Formatting) : Prop := 0 < f.font ∧ f.size = 0x02

instance (f : Formatting) : Decidable f.Broken := inferInstanceAs (Decidable (_ ∧ _))

/-- What is meant to be seen of a round, which was done without codes. -/
def Round.meant (r : Round) : List Cell :=
  r.lead.map (·, { faint := true }) ++
    r.styled.map (·, (r.formatting.map Formatting.pen).getD .normal)

/-- The rounds for a file, without codes. -/
def rounds (debug : Bool) (file : Str) : List Round :=
  mainLoop ⟨.plain, debug⟩ {} (((file.take (2 ^ 24 - 1)).drop 0x100).drop 0x27)

/-- What is meant to be seen of a file. -/
def Meant (debug : Bool) (file : Str) : List Cell :=
  (rounds debug file).flatMap Round.meant ++ [(10, .normal)]

/-! ### Codes -/

section
variable {text : Str} {shown : Pen → List Cell}

/-- A pair of codes for a bit of the style. -/
theorem closed_wrapped (condition : Prop) [Decidable condition] {on off : Str}
    (change : Bool → Pen → Pen) (hpair : Screen.Pair on off (change true))
    (hfalse : ∀ p, change false p = p) (h : Screen.Closed text shown) :
    Screen.Closed (wrapped condition on off text) (fun p => shown (change condition p)) := by
  by_cases hcondition : condition
  · simp only [wrapped, if_pos hcondition, decide_eq_true hcondition]
    exact h.between hpair
  · simp only [wrapped, if_neg hcondition, decide_eq_false hcondition, hfalse]
    exact h

theorem widen_append (text rest : Str) : widen (text ++ rest) = widen text ++ widen rest :=
  List.flatMap_append

theorem not_mem_widen (h : 0x1B ∉ text) : 0x1B ∉ widen text := by
  intro hmem
  obtain ⟨c, hc, hmem⟩ := List.mem_flatMap.mp hmem
  have hne : (0x1B : UInt8) ≠ c := fun heq => h (heq ▸ hc)
  split at hmem <;> simp [hne] at hmem

/-- What is seen of the codes for the colour, when they have been made wide. -/
def Remains (text : Str) : Str :=
  ascii "  " ++ widen (ascii "1;36m") ++ text ++ (ascii "  " ++ widen (ascii "22;39m"))

theorem shows_widen_colour (h : 0x1B ∉ text) (p : Pen) :
    Screen.Shows (widen (Codes.color.colorOn ++ text ++ Codes.color.colorOff)) p p
      ((Remains (widen text)).map (·, p)) := by
  have hon : Screen.Shows (widen Codes.color.colorOn) p p
      ((ascii "  " ++ widen (ascii "1;36m")).map (·, p)) := rfl
  have hoff : Screen.Shows (widen Codes.color.colorOff) p p
      ((ascii "  " ++ widen (ascii "22;39m")).map (·, p)) := rfl
  rw [widen_append, widen_append, Remains, List.map_append, List.map_append]
  exact (hon.append (.text (not_mem_widen h) p)).append hoff

/-- What is printed for a text without codes. -/
theorem applyStyle_plain (f : Formatting) (text : Str) :
    applyStyle .plain f text = if f.size = 0x02 then widen text else text := by
  have hwrapped : ∀ (condition : Prop) [Decidable condition] (text : Str),
      wrapped condition [] [] text = text := by
    intro condition _ text
    rw [wrapped, List.nil_append, List.append_nil, ite_self]
  simp only [applyStyle, Codes.plain, hwrapped]

/-- What is seen of a text, once its font and its size have been seen to. -/
def Formatting.seen (f : Formatting) (text : Str) (p : Pen) : List Cell :=
  if f.Broken then (Remains (widen text)).map (·, p)
  else (applyStyle .plain f text).map (·, if 0 < f.font then fontPen p else p)

theorem closed_seen (f : Formatting) (h : 0x1B ∉ text) :
    let coloured := wrapped (0 < f.font) Codes.color.colorOn Codes.color.colorOff text
    Screen.Closed (if f.size = 0x02 then widen coloured else coloured) (f.seen text) := by
  intro coloured
  by_cases hfont : 0 < f.font
  · have hwrapped : coloured = Codes.color.colorOn ++ text ++ Codes.color.colorOff := if_pos hfont
    rw [hwrapped]
    by_cases hsize : f.size = 0x02
    · refine .of_shows fun p => ?_
      rw [if_pos hsize, Formatting.seen, if_pos ⟨hfont, hsize⟩]
      exact shows_widen_colour h p
    · have hclosed : Screen.Closed text (fun p => text.map (·, p)) := .of_shows (.text h)
      have hseen : f.seen text = (fun p => text.map (·, p)) ∘ fontPen := by
        funext p
        rw [Formatting.seen, if_neg fun hbroken : f.Broken => hsize hbroken.2, if_pos hfont,
          applyStyle_plain, if_neg hsize]
        rfl
      rw [if_neg hsize, hseen]
      exact hclosed.between Screen.pair_colour
  · have hwrapped : coloured = text := if_neg hfont
    refine .of_shows fun p => ?_
    rw [hwrapped, Formatting.seen, if_neg fun hbroken : f.Broken => hfont hbroken.1, if_neg hfont,
      applyStyle_plain]
    split
    · exact .text (not_mem_widen h) p
    · exact .text h p

/-- What a bit of the style changes, if it is set. -/
def bold (b : Bool) (p : Pen) : Pen := { p with bold := b || p.bold }
def faint (b : Bool) (p : Pen) : Pen := { p with faint := b || p.faint }
def italic (b : Bool) (p : Pen) : Pen := { p with italic := b || p.italic }
def under (b : Bool) (p : Pen) : Pen := { p with under := b || p.under }
def inverse (b : Bool) (p : Pen) : Pen := { p with inverse := b || p.inverse }

/-- **What is seen of a text in its style.** -/
theorem shows_applyStyle (f : Formatting) (h : 0x1B ∉ text) :
    Screen.Shows (applyStyle .color f text) .normal .normal (f.seen text f.stylePen) := by
  have hclosed : Screen.Closed (applyStyle .color f text) _ :=
    closed_wrapped (f.style &&& 0x80 ≠ 0) inverse Screen.pair_inverse (fun _ => rfl)
      (closed_wrapped (f.style &&& 0x10 ≠ 0) bold Screen.pair_bold (fun _ => rfl)
        (closed_wrapped (f.style &&& 0x08 ≠ 0) faint Screen.pair_faint (fun _ => rfl)
          (closed_wrapped (f.style &&& 0x04 ≠ 0) under Screen.pair_under (fun _ => rfl)
            (closed_wrapped (f.style &&& 0x02 ≠ 0) italic Screen.pair_italic (fun _ => rfl)
              (closed_wrapped (f.style &&& 0x01 ≠ 0) bold Screen.pair_bold (fun _ => rfl)
                (closed_seen f h))))))
  have hpen : bold (f.style &&& 0x01 ≠ 0) (italic (f.style &&& 0x02 ≠ 0)
      (under (f.style &&& 0x04 ≠ 0) (faint (f.style &&& 0x08 ≠ 0) (bold (f.style &&& 0x10 ≠ 0)
        (inverse (f.style &&& 0x80 ≠ 0) .normal))))) = f.stylePen := by
    simp only [bold, italic, under, faint, inverse, Pen.normal, Formatting.stylePen, Bool.or_false,
      Bool.decide_or]
  have hnormal := hclosed.normal
  rwa [hpen] at hnormal

end

/-! ### Rounds -/

/-- No `ESC` is left of a text. -/
theorem not_mem_clean (text : Str) : 0x1B ∉ clean text := not_mem_whileMatching (by decide) _

theorem not_mem_leadByte (byte last : UInt8) : 0x1B ∉ leadByte byte last := by
  have hformat : ∀ b : UInt8, 0x1B ∉ ascii "\\x" ++ format02X b.toNat :=
    forall_byte (by decide +kernel)
  rw [leadByte]
  split
  · decide
  · exact hformat byte

/-- What is seen of the code of a round. -/
theorem shows_lead (last f : Formatting) :
    Screen.Shows (lead .color last f) .normal .normal
      ((lead .plain last f).map (·, { faint := true })) := by
  have hnot : 0x1B ∉ lead .plain last f := by
    simp only [lead, Codes.plain, List.nil_append, List.append_nil, List.mem_append, not_or]
    refine ⟨⟨by decide, ?_⟩, by decide⟩
    split
    · exact List.not_mem_nil
    · simp only [List.mem_append, not_or]
      exact ⟨⟨not_mem_leadByte _ _, not_mem_leadByte _ _⟩, not_mem_leadByte _ _⟩
  have hclosed : Screen.Closed (lead .plain last f) (fun p => (lead .plain last f).map (·, p)) :=
    .of_shows (.text hnot)
  have hcodes : lead .color last f
      = Codes.color.faintOn ++ lead .plain last f ++ Codes.color.faintOff := by
    simp only [lead, Codes.plain, List.nil_append, List.append_nil, List.append_assoc]
  rw [hcodes]
  exact (hclosed.between Screen.pair_faint).normal

/-- What is seen of a round, which was done without codes. -/
def Round.seen (r : Round) : List Cell :=
  r.lead.map (·, { faint := true }) ++
    match r.formatting with
    | some f => f.seen (clean r.text) f.stylePen
    | none => r.styled.map (·, .normal)

/-- The same round, done without codes and with them. -/
structure Round.Coloured (r r' : Round) : Prop where
  formatting : r'.formatting = r.formatting
  text : r'.text = r.text
  styled : ∀ f ∈ r.formatting, r.styled = applyStyle .plain f (clean r.text)
  shows : Screen.Shows (r'.lead ++ r'.styled) .normal .normal r.seen

variable {debug : Bool}

theorem round_coloured (m : Memory) (content : Str) :
    ((round ⟨.plain, debug⟩ m content).1).Coloured (round ⟨.color, debug⟩ m content).1 := by
  simp only [round]
  rcases strip content with ⟨matched, content'⟩
  rcases hformatting : (matched <|> m.captured) with _ | f
  · exact ⟨rfl, rfl, fun f hf => absurd hf (Option.not_mem_none f),
      (Screen.Shows.nil .normal).append (.text (not_mem_clean _) .normal)⟩
  · refine ⟨rfl, rfl, fun f' hf => Option.some.inj hf ▸ rfl, ?_⟩
    cases debug with
    | true => exact (shows_lead m.lastByte f).append (shows_applyStyle f (not_mem_clean _))
    | false => exact (Screen.Shows.nil .normal).append (shows_applyStyle f (not_mem_clean _))

/-- **Both loops do the same rounds.** The induction is on what a round leaves of the content. -/
theorem mainLoop_coloured (n : ℕ) : ∀ (m : Memory) {content : Str}, content.length ≤ n →
    List.Forall₂ Round.Coloured (mainLoop ⟨.plain, debug⟩ m content)
      (mainLoop ⟨.color, debug⟩ m content) := by
  induction n with
  | zero =>
    intro m content hlen
    rw [List.length_eq_zero_iff.mp (Nat.le_zero.mp hlen), mainLoop_nil, mainLoop_nil]
    exact .nil
  | succ n ih =>
    intro m content hlen
    by_cases hne : content = []
    · rw [hne, mainLoop_nil, mainLoop_nil]
      exact .nil
    · have hround : ((round ⟨.plain, debug⟩ m content).1).Coloured _ := round_coloured m content
      have hlt := length_round_lt ⟨.plain, debug⟩ m hne
      have hnext : m.next ⟨.color, debug⟩ (round ⟨.color, debug⟩ m content).1
          = m.next ⟨.plain, debug⟩ (round ⟨.plain, debug⟩ m content).1 := by
        simp only [Memory.next, hround.formatting, hround.text]
      have hrest : (round ⟨.color, debug⟩ m content).2 = (round ⟨.plain, debug⟩ m content).2 := by
        rw [round_snd, round_snd]
      rw [mainLoop_of_ne _ m hne, mainLoop_of_ne _ m hne, hnext, hrest]
      exact .cons hround (ih _ (by omega))

/-! ### Files -/

section
variable {rs rs' : List Round}

/-- What is seen of all the rounds. -/
theorem shows_rounds (h : List.Forall₂ Round.Coloured rs rs') :
    Screen.Shows (rs'.flatMap fun r => r.lead ++ r.styled) .normal .normal
      (rs.flatMap Round.seen) := by
  induction h with
  | nil => exact .nil .normal
  | cons hround _ ih =>
    rw [List.flatMap_cons, List.flatMap_cons]
    exact hround.shows.append ih

/-- The remains of the codes are seen besides what is printed without codes. -/
theorem length_seen (f : Formatting) (text : Str) (p : Pen) : (f.seen text p).length
    = (applyStyle .plain f text).length + if f.Broken then 37 else 0 := by
  rw [Formatting.seen]
  by_cases hbroken : f.Broken
  · have hon : (ascii "  " ++ widen (ascii "1;36m")).length = 17 := rfl
    have hoff : (ascii "  " ++ widen (ascii "22;39m")).length = 20 := rfl
    rw [if_pos hbroken, if_pos hbroken, List.length_map, applyStyle_plain, if_pos hbroken.2,
      Remains, List.length_append, List.length_append, hon, hoff]
    omega
  · rw [if_neg hbroken, if_neg hbroken, List.length_map, Nat.add_zero]

theorem Round.Coloured.length_seen {r r' : Round} (h : r.Coloured r') :
    (r.lead ++ r.styled).length ≤ r.seen.length ∧
      ((∃ f ∈ r.formatting, f.Broken) → (r.lead ++ r.styled).length < r.seen.length) := by
  rw [Round.seen, List.length_append, List.length_append, List.length_map]
  rcases hformatting : r.formatting with _ | f
  · simp
  · rw [h.styled f hformatting, MultiScribe.length_seen]
    refine ⟨by omega, ?_⟩
    rintro ⟨f', hf', hbroken⟩
    cases hf'
    rw [if_pos hbroken]
    omega

/-- With its codes whole, a round is seen as it is meant. -/
theorem Round.Coloured.seen_eq {r r' : Round} (h : r.Coloured r')
    (hbroken : ∀ f ∈ r.formatting, ¬ f.Broken) : r.seen = r.meant := by
  rw [Round.seen, Round.meant]
  rcases hformatting : r.formatting with _ | f
  · rfl
  · have hpen : (if 0 < f.font then fontPen f.stylePen else f.stylePen) = f.pen := rfl
    simp only [Formatting.seen, if_neg (hbroken f hformatting), hpen, h.styled f hformatting]
    rfl

theorem map_meant (r : Round) : r.meant.map Prod.fst = r.lead ++ r.styled := by
  simp [Round.meant, List.map_map, Function.comp_def]

/-- Nothing is missing from what is seen, and with a broken code there is more. -/
theorem length_seen_rounds (h : List.Forall₂ Round.Coloured rs rs') :
    (rs.flatMap fun r => r.lead ++ r.styled).length ≤ (rs.flatMap Round.seen).length ∧
      ((∃ r ∈ rs, ∃ f ∈ r.formatting, f.Broken) →
        (rs.flatMap fun r => r.lead ++ r.styled).length < (rs.flatMap Round.seen).length) := by
  induction h with
  | nil => exact ⟨le_rfl, fun ⟨r, hr, _⟩ => absurd hr List.not_mem_nil⟩
  | cons hround _ ih =>
    obtain ⟨hle, hlt⟩ := hround.length_seen
    obtain ⟨hrest, hrest'⟩ := ih
    simp only [List.flatMap_cons, List.length_append] at *
    refine ⟨by omega, ?_⟩
    rintro ⟨r, hr, hbroken⟩
    rcases List.mem_cons.mp hr with rfl | hr
    · have := hlt hbroken
      omega
    · have := hrest' ⟨r, hr, hbroken⟩
      omega

theorem seen_eq_meant (h : List.Forall₂ Round.Coloured rs rs')
    (hbroken : ∀ r ∈ rs, ∀ f ∈ r.formatting, ¬ f.Broken) :
    rs.flatMap Round.seen = rs.flatMap Round.meant := by
  induction h with
  | nil => rfl
  | cons hround _ ih =>
    rw [List.forall_mem_cons] at hbroken
    rw [List.flatMap_cons, List.flatMap_cons, hround.seen_eq hbroken.1, ih hbroken.2]

end

/-- **What a file looks like.** With codes, all of it is seen as it is meant, and the characters
that are seen are those that are printed without codes, if and only if there are no wide letters in
another font. In any case the terminal is left as it was. -/
theorem wpf2txt_shows (strerror : String) {file text : Str}
    (h : wpf2txt ⟨.plain, debug⟩ strerror file = .ok text) :
    ∃ coloured cells, wpf2txt ⟨.color, debug⟩ strerror file = .ok coloured ∧
      Screen.Shows coloured .normal .normal cells ∧
      (cells.map Prod.fst = text ↔ ∀ r ∈ rounds debug file, ∀ f ∈ r.formatting, ¬ f.Broken) ∧
      ((∀ r ∈ rounds debug file, ∀ f ∈ r.formatting, ¬ f.Broken) → cells = Meant debug file) := by
  rw [wpf2txt] at h
  split at h
  · cases h
  split at h
  · cases h
  rename_i hne hheader
  obtain rfl := Except.ok.inj h
  have hrounds := @mainLoop_coloured debug _ {} _
    (le_refl (((file.take (2 ^ 24 - 1)).drop 0x100).drop 0x27).length)
  have hnewline : Screen.Shows (ascii "\n") .normal .normal [(10, .normal)] := rfl
  refine ⟨_, _, ?_, (shows_rounds hrounds).append hnewline, ⟨fun hsame => ?_, fun hbroken => ?_⟩,
    fun hbroken => ?_⟩
  · rw [wpf2txt]
    simp only [if_neg hne, if_neg hheader]
  · by_contra hbroken
    simp only [not_forall, not_not, exists_prop] at hbroken
    have hlt := (length_seen_rounds hrounds).2 hbroken
    have hlen := congrArg List.length hsame
    have hone : (ascii "\n").length = 1 := rfl
    rw [List.length_map, List.length_append, List.length_append, List.length_singleton,
      hone] at hlen
    exact hlt.ne (Nat.add_right_cancel hlen).symm
  · rw [seen_eq_meant hrounds hbroken, List.map_append, List.map_flatMap]
    simp only [map_meant]
    rfl
  · rw [seen_eq_meant hrounds hbroken]
    rfl

/-- The start of a file. -/
def smallHeader : Str :=
  [0x80, 0x19, 0x00, 0x00, 0x01, 0x00, 0x19, 0x01, 0x86, 0x19, 0x0A, 0x01, 0x14, 0x14]
    ++ List.replicate 242 0

/-- An `A` in bold. -/
def boldLetter : Segment :=
  ⟨⟨0, 0, 1⟩, ascii "A", fun h => absurd (List.mem_singleton.mp h) (by decide)⟩

theorem styled_bold :
    applyStyle .plain boldLetter.formatting (clean boldLetter.text) = ascii "A" := by
  have hprintable : ∀ c ∈ boldLetter.text, 32 ≤ c := by
    intro c hc
    rw [List.mem_singleton.mp (show c ∈ [65] from hc)]
    decide
  rw [clean_of_printable hprintable]
  rfl

/-- A file with this letter. -/
def boldFile : Str := smallHeader ++ (List.replicate 0x27 0 ++ body [boldLetter])

theorem length_smallHeader : smallHeader.length = 0x100 := by
  rw [smallHeader, List.length_append, List.length_replicate]
  rfl

theorem length_boldFile : boldFile.length < 2 ^ 24 := by
  rw [boldFile, List.length_append, length_smallHeader, List.length_append, List.length_replicate]
  decide

theorem rounds_bold : rounds false boldFile
    = [⟨some boldLetter.formatting, boldLetter.text, [], ascii "A"⟩] := by
  have hround : round ⟨.plain, false⟩ {} (body [boldLetter]) = (⟨some boldLetter.formatting,
      boldLetter.text, [], applyStyle .plain boldLetter.formatting (clean boldLetter.text)⟩, []) :=
    rfl
  rw [rounds, List.take_of_length_le (Nat.le_sub_one_of_lt length_boldFile), boldFile,
    List.drop_left' length_smallHeader, List.drop_left' List.length_replicate,
    mainLoop_of_ne _ _ (by decide), hround, mainLoop_nil, styled_bold]

/-- The `A` is printed, and it is seen in bold. -/
theorem wpf2txt_shows_bold : wpf2txt ⟨.plain, false⟩ "" boldFile = .ok (ascii "A\n") ∧
    ∃ coloured, wpf2txt ⟨.color, false⟩ "" boldFile = .ok coloured ∧
      Screen.Shows coloured .normal .normal [(65, { bold := true }), (10, .normal)] := by
  have hdocument : wpf2txt ⟨.plain, false⟩ "" boldFile = .ok (_ ++ ascii "\n") :=
    wpf2txt_document rfl "" length_smallHeader rfl List.length_replicate length_boldFile (by decide)
  rw [List.flatMap_cons, List.flatMap_nil, List.append_nil,
    show boldLetter.styled ⟨.plain, false⟩ = ascii "A" from styled_bold] at hdocument
  have hbroken : ∀ r ∈ rounds false boldFile, ∀ f ∈ r.formatting, ¬ f.Broken := by
    rw [rounds_bold]
    decide
  obtain ⟨coloured, cells, hcoloured, hshows, -, hmeant⟩ := wpf2txt_shows "" hdocument
  have hcells : cells = [(65, { bold := true }), (10, .normal)] := by
    rw [hmeant hbroken, Meant, rounds_bold]
    rfl
  exact ⟨hdocument, coloured, hcoloured, hcells ▸ hshows⟩

end Prodosfs.MultiScribe
