import Prodosfs.General.Lockstep
import Prodosfs.General.Screen
import Prodosfs.Documents

/-!
# What AppleWorks documents look like

`awp2txt` prints the same document with escape codes and without. The two runs do the same: they
read the same records, they keep the same lines for headers and footers, and they print the same
pieces, but for the codes in them.

A terminal shows the same characters for both, with one exception. The line that a new page record
prints is filled up with dashes to the width of the page, and the code at its beginning counts as
if it had a width. With codes there are fewer dashes, if there is room for any.

The substitutions in a line are done one after the other for the whole line. None of them finds
anything in what another one has put there, so that they might as well be done character by
character.

## Main definitions

* `State.Coloured` — the states of the two runs
* `Printed.IsNewPage` — the line of a new page

## Main results

* `awp2txt_shows_iff` — the same is seen with and without codes if and only if no new page is begun
  that has room for dashes, and there is no `ESC` in the document that is printed
-/

namespace Prodosfs.AppleWorks

open Perl

/-- A terminal shows the first text when it is sent the second one. -/
def SameText (text text' : Str) : Prop := 0x1B ∉ text → Screen.Reads text' text

section
variable {text text' more more' : Str}

theorem SameText.refl (text : Str) : SameText text text := .text

theorem SameText.append (h : SameText text text') (hmore : SameText more more') :
    SameText (text ++ more) (text' ++ more') := by
  intro hnot
  rw [List.mem_append, not_or] at hnot
  exact (h hnot.1).append (hmore hnot.2)

theorem sameText_of_selects {code : Str} {change : Pen → Pen} (h : Screen.Selects code change) :
    SameText [] code := fun _ => h.reads

/-- A text between the codes for faint characters. -/
theorem SameText.faint (h : SameText text text') :
    SameText text (Codes.color.faintOn ++ text' ++ Codes.color.faintOff) := by
  have hoff := sameText_of_selects Screen.selects_bold_off
  have hall := ((sameText_of_selects Screen.pair_faint.on).append h).append hoff
  rwa [List.nil_append, List.append_nil] at hall

end

/-! ### Lines -/

theorem substituted_append (c : Codes) (line rest : Str) :
    substituted c (line ++ rest) = substituted c line ++ substituted c rest := by
  let pass (line : Str) (x : UInt8 × UInt8 × Str) : Str :=
    substitute (fun b => x.1 ≤ b ∧ b ≤ x.2.1) x.2.2 line
  have hfoldl : ∀ (table : List (UInt8 × UInt8 × Str)) (line rest : Str),
      table.foldl pass (line ++ rest) = table.foldl pass line ++ table.foldl pass rest := by
    intro table
    induction table with
    | nil => exact fun line rest => rfl
    | cons x table ih =>
      intro line rest
      have hpass : pass (line ++ rest) x = pass line x ++ pass rest x := List.flatMap_append
      rw [List.foldl_cons, List.foldl_cons, List.foldl_cons, ← ih, hpass]
  exact hfoldl _ line rest

/-- What becomes of one character. -/
theorem sameText_character : ∀ b : UInt8,
    SameText (substituted .plain [b]) (substituted .color [b]) := by
  have hcases : ∀ b : UInt8,
      (substituted .color [b] = substituted .plain [b]) ∨
      (substituted .plain [b] = [] ∧ substituted .color [b] ∈
        [Codes.color.boldOn, Codes.color.boldOff, Codes.color.underOn, Codes.color.underOff]) ∨
      substituted .color [b]
        = Codes.color.faintOn ++ substituted .plain [b] ++ Codes.color.faintOff :=
    forall_byte (by decide +kernel)
  intro b
  rcases hcases b with heq | ⟨hplain, hcode⟩ | hfaint
  · rw [heq]
    exact .refl _
  · rw [hplain]
    simp only [List.mem_cons, List.not_mem_nil, or_false] at hcode
    rcases hcode with hcode | hcode | hcode | hcode <;> rw [hcode]
    · exact sameText_of_selects Screen.pair_bold.on
    · exact sameText_of_selects Screen.selects_bold_off
    · exact sameText_of_selects Screen.pair_under.on
    · exact sameText_of_selects Screen.selects_under_off
  · rw [hfaint]
    exact (SameText.refl _).faint

/-- **A line, after the substitutions.** The induction is on the characters. -/
theorem sameText_substituted (line : Str) :
    SameText (substituted .plain line) (substituted .color line) := by
  induction line with
  | nil => exact .refl []
  | cons b line ih =>
    have hcons : ∀ c, substituted c (b :: line) = substituted c [b] ++ substituted c line :=
      fun c => substituted_append c [b] line
    rw [hcons, hcons]
    exact (sameText_character b).append ih

section
variable {width : ℤ}

/-- The output of a record of text. -/
theorem sameText_output (alignment : Alignment) (indent : Str) (b2 b3 : UInt8) (line : Str) :
    SameText (output ⟨.plain, width⟩ alignment indent b2 b3 line)
      (output ⟨.color, width⟩ alignment indent b2 b3 line) := by
  have hline := sameText_substituted line
  simp only [output]
  refine (SameText.refl _).append ?_
  split
  · exact hline.append (.refl _)
  · exact hline

theorem sameText_ruler (line : Str) :
    SameText (ruler ⟨.plain, width⟩ line) (ruler ⟨.color, width⟩ line) := by
  have hplain : ruler ⟨.plain, width⟩ line = line ++ ascii "\n" := by
    simp [ruler, Codes.plain]
  rw [hplain, ruler]
  exact (SameText.refl line).faint.append (.refl _)

/-! ### Pieces -/

/-- The line of a new page. -/
def Printed.IsNewPage (p : Printed) : Prop :=
  p.source = none ∧ p.text = ascii "---[ PAGE BREAK ]---"

instance (p : Printed) : Decidable p.IsNewPage := inferInstanceAs (Decidable (_ ∧ _))

/-- What a new page record prints. -/
def newPagePieces (o : Options) (offset : ℕ) : List Printed :=
  let line := o.codes.faintOn ++ ascii "---[ PAGE BREAK ]---"
  [⟨offset, none, line⟩, ⟨offset, none, times (ascii "-") (o.width - line.length - 1)⟩,
    ⟨offset, none, o.codes.faintOff ++ ascii "\n"⟩]

/-- A piece that is the same, but for its codes. -/
structure SamePiece (p p' : Printed) : Prop where
  offset : p'.offset = p.offset
  source : p'.source = p.source
  text : SameText p.text p'.text

/-- What the two runs have printed. The line of a new page is apart from the rest. -/
inductive Pieces (width : ℤ) : List Printed → List Printed → Prop
  | nil : Pieces width [] []
  | piece {p p' : Printed} {ps ps' : List Printed} (same : SamePiece p p') (other : ¬ p.IsNewPage)
      (rest : Pieces width ps ps') : Pieces width (p :: ps) (p' :: ps')
  | newPage {ps ps' : List Printed} (offset : ℕ) (rest : Pieces width ps ps') :
      Pieces width (newPagePieces ⟨.plain, width⟩ offset ++ ps)
        (newPagePieces ⟨.color, width⟩ offset ++ ps')

section
variable {ps ps' qs qs' : List Printed}

theorem Pieces.append (h : Pieces width ps ps') (hrest : Pieces width qs qs') :
    Pieces width (ps ++ qs) (ps' ++ qs') := by
  induction h with
  | nil => exact hrest
  | piece same other _ ih => exact .piece same other ih
  | newPage offset _ ih =>
    rw [List.append_assoc, List.append_assoc]
    exact .newPage offset ih

/-- Pieces without the line of a new page. -/
theorem Pieces.of_forall₂ (h : List.Forall₂ SamePiece ps ps') (hother : ∀ p ∈ ps, ¬ p.IsNewPage) :
    Pieces width ps ps' := by
  induction h with
  | nil => exact .nil
  | cons same _ ih =>
    rw [List.forall_mem_cons] at hother
    exact .piece same hother.1 (ih hother.2)

end

/-! ### States -/

/-- The same line, but for its codes. -/
structure SameLine (l l' : Line) : Prop where
  offset : l'.offset = l.offset
  text : SameText l.text l'.text

/-- The state of a run without codes and the state of a run with codes. -/
structure State.Coloured (width : ℤ) (s s' : State) : Prop where
  unread : s'.unread = s.unread
  position : s'.position = s.position
  offset : s'.offset = s.offset
  alignment : s'.alignment = s.alignment
  currentSection : s'.currentSection = s.currentSection
  header : List.Forall₂ SameLine s.header s'.header
  footer : List.Forall₂ SameLine s.footer s'.footer
  indent : s'.indent = s.indent
  stdout : Pieces width s.stdout s'.stdout
  stderr : s'.stderr = s.stderr

namespace State.Coloured

variable {s s' : State}

theorem print (h : s.Coloured width s') {ps ps' : List Printed} (hps : Pieces width ps ps') :
    (s.print ps).Coloured width (s'.print ps') :=
  { h with stdout := h.stdout.append hps }

theorem samePiece_line (h : s.Coloured width s') {l l' : Line} (hl : SameLine l l') :
    SamePiece (s.line l) (s'.line l') where
  offset := h.offset
  source := congrArg some hl.offset
  text := hl.text

theorem samePiece_added (h : s.Coloured width s') {text text' : Str} (ht : SameText text text') :
    SamePiece (s.added text) (s'.added text') where
  offset := h.offset
  source := rfl
  text := ht

/-- A line that is printed is not the line of a new page, whatever is in it. -/
theorem not_isNewPage_line (s : State) (l : Line) : ¬ (s.line l).IsNewPage :=
  fun h => Option.some_ne_none _ h.1

/-- Lines that are printed as they are. -/
theorem pieces_lines (h : s.Coloured width s') {ls ls' : List Line}
    (hlines : List.Forall₂ SameLine ls ls') : Pieces width (ls.map s.line) (ls'.map s'.line) := by
  refine .of_forall₂ ?_ ?_
  · induction hlines with
    | nil => exact .nil
    | cons hl _ ih => exact .cons (h.samePiece_line hl) ih
  · intro p hp
    obtain ⟨l, -, rfl⟩ := List.mem_map.mp hp
    exact not_isNewPage_line s l

theorem samePiece_faintOn (h : s.Coloured width s') :
    SamePiece (s.added Codes.plain.faintOn) (s'.added Codes.color.faintOn) :=
  h.samePiece_added (sameText_of_selects Screen.pair_faint.on)

theorem samePiece_faintOff (h : s.Coloured width s') :
    SamePiece (s.added Codes.plain.faintOff) (s'.added Codes.color.faintOff) :=
  h.samePiece_added (sameText_of_selects Screen.selects_bold_off)

theorem not_isNewPage_code (s : State) : ¬ (s.added []).IsNewPage := fun h => by cases h.2

/-- Lines that are printed between codes. -/
theorem pieces_faint (h : s.Coloured width s') {ls ls' : List Line}
    (hlines : List.Forall₂ SameLine ls ls') :
    Pieces width (ls.flatMap (s.faint ⟨.plain, width⟩))
      (ls'.flatMap (s'.faint ⟨.color, width⟩)) := by
  induction hlines with
  | nil => exact .nil
  | @cons l l' _ _ hl _ ih =>
    have hline : Pieces width (s.faint ⟨.plain, width⟩ l) (s'.faint ⟨.color, width⟩ l') :=
      .piece h.samePiece_faintOn (not_isNewPage_code s)
        (.piece (h.samePiece_line hl) (not_isNewPage_line s l)
          (.piece h.samePiece_faintOff (not_isNewPage_code s) .nil))
    exact hline.append ih

/-! ### Records -/

theorem emit (h : s.Coloured width s') {text text' : Str} (ht : SameText text text') :
    (s.emit ⟨.plain, width⟩ text).Coloured width (s'.emit ⟨.color, width⟩ text') := by
  have hl : SameLine ⟨s.offset, text⟩ ⟨s'.offset, text'⟩ := ⟨h.offset, ht⟩
  have hsection := h.currentSection
  cases hcase : s.currentSection with
  | header =>
    rw [emit_of_header hcase, emit_of_header (hsection.trans hcase)]
    exact { h with header := List.rel_append h.header (.cons hl .nil) }
  | footer =>
    rw [emit_of_footer hcase, emit_of_footer (hsection.trans hcase)]
    exact { h with footer := List.rel_append h.footer (.cons hl .nil) }
  | bodyTop =>
    rw [emit_of_bodyTop hcase, emit_of_bodyTop (hsection.trans hcase)]
    have hline : Pieces width [s.line ⟨s.offset, text⟩] [s'.line ⟨s'.offset, text'⟩] :=
      .piece (h.samePiece_line hl) (not_isNewPage_line s _) .nil
    exact { h with
      currentSection := rfl
      stdout := h.stdout.append ((h.pieces_faint h.header).append hline) }
  | body =>
    rw [emit_of_body hcase, emit_of_body (hsection.trans hcase)]
    exact h.print (.piece (h.samePiece_line hl) (not_isNewPage_line s _) .nil)

theorem textRecord (h : s.Coloured width s') (b2 b3 : UInt8) (line : Str) :
    (s.textRecord ⟨.plain, width⟩ b2 b3 line).Coloured width
      (s'.textRecord ⟨.color, width⟩ b2 b3 line) := by
  rw [State.textRecord, State.textRecord, h.alignment, h.indent]
  split
  · exact h.print (.piece (h.samePiece_line ⟨h.offset, sameText_ruler line⟩)
      (not_isNewPage_line s _) .nil)
  · exact h.emit (sameText_output _ _ _ _ _)

theorem newPage (h : s.Coloured width s') :
    (s.newPage ⟨.plain, width⟩).Coloured width (s'.newPage ⟨.color, width⟩) := by
  have hpieces : Pieces width (newPagePieces ⟨.plain, width⟩ s.offset)
      (newPagePieces ⟨.color, width⟩ s'.offset) := by
    rw [h.offset]
    exact .newPage s.offset .nil
  exact h.print hpieces

/-- The line at a page break has a number where the other one has a word. -/
theorem pieces_pageLine (h : s.Coloured width s') (arg : UInt8) :
    Pieces width (s.pageLine ⟨.plain, width⟩ arg) (s'.pageLine ⟨.color, width⟩ arg) := by
  have hline : ∀ b : UInt8, ascii "---[ PAGE " ++ digits 10 b.toNat ++ ascii " ]---"
      ≠ ascii "---[ PAGE BREAK ]---" := forall_byte (by decide +kernel)
  have hdashes : ∀ count, times (ascii "-") count ≠ ascii "---[ PAGE BREAK ]---" := by
    intro count heq
    have hmem : (91 : UInt8) ∈ times (ascii "-") count := heq ▸ by decide
    obtain ⟨dash, hdash, hmem⟩ := List.mem_flatten.mp hmem
    rw [List.eq_of_mem_replicate hdash] at hmem
    exact absurd hmem (by decide)
  have hend : ascii "\n" ≠ ascii "---[ PAGE BREAK ]---" := by decide
  have hnewline : SameText (Codes.plain.faintOff ++ ascii "\n")
      (Codes.color.faintOff ++ ascii "\n") :=
    h.samePiece_faintOff.text.append (.refl _)
  exact .piece h.samePiece_faintOn (not_isNewPage_code s)
    (.piece (h.samePiece_added (.refl _)) (fun hpage => hline arg hpage.2)
      (.piece (h.samePiece_added (.refl _)) (fun hpage => hdashes _ hpage.2)
        (.piece (h.samePiece_added hnewline) (fun hpage => hend hpage.2) .nil)))

theorem pageBreak (h : s.Coloured width s') (arg : UInt8) :
    (s.pageBreak ⟨.plain, width⟩ arg).Coloured width (s'.pageBreak ⟨.color, width⟩ arg) := by
  have hfooter : Pieces width (s.added Codes.plain.faintOn :: s.footer.map s.line
      ++ [s.added Codes.plain.faintOff]) (s'.added Codes.color.faintOn :: s'.footer.map s'.line
        ++ [s'.added Codes.color.faintOff]) :=
    .piece h.samePiece_faintOn (not_isNewPage_code s) ((h.pieces_lines h.footer).append
      (.piece h.samePiece_faintOff (not_isNewPage_code s) .nil))
  have hfirst := h.print hfooter
  have hsecond := hfirst.print (hfirst.pieces_faint hfirst.footer)
  exact { hsecond.print (hsecond.pieces_pageLine arg) with currentSection := rfl }

theorem command (h : s.Coloured width s') (command : Command) (arg : UInt8) :
    (s.command ⟨.plain, width⟩ command arg).Coloured width
      (s'.command ⟨.color, width⟩ command arg) := by
  cases command with
  | text => exact h
  | carriageReturn => exact h.emit (.refl _)
  | sectionEnd => exact { h with currentSection := rfl }
  | indent => exact { h with indent := rfl }
  | justify => exact { h with alignment := rfl }
  | unjustify => exact { h with alignment := rfl }
  | center => exact { h with alignment := rfl }
  | newPage => exact h.newPage
  | pageHeader => exact { h with currentSection := rfl, header := .nil }
  | pageFooter => exact { h with currentSection := rfl, footer := .nil }
  | pageBreak => exact h.pageBreak arg
  | ignored => exact h

end State.Coloured

/-! ### Runs -/

theorem lockstep_sysread (n : ℕ) :
    Call.Lockstep (State.Coloured width) (sysread n) (sysread n) := by
  refine .get_bind fun s s' h => ?_
  rw [Call.set_bind_apply, Call.set_bind_apply, h.unread, h.position]
  exact ⟨rfl, { h with unread := rfl, position := rfl }⟩

theorem lockstep_readText (arg : UInt8) :
    Call.Lockstep (State.Coloured width) (readText ⟨.plain, width⟩ arg)
      (readText ⟨.color, width⟩ arg) := by
  refine (lockstep_sysread _).bind fun buffer => .get_bind fun s s' h => ?_
  rw [h.alignment]
  simp only [Call.ite_apply]
  split
  · exact ⟨rfl, h⟩
  · exact ⟨rfl, h.textRecord _ _ _⟩

theorem lockstep_handleRecord (arg cmd : UInt8) :
    Call.Lockstep (State.Coloured width) (handleRecord ⟨.plain, width⟩ arg cmd)
      (handleRecord ⟨.color, width⟩ arg cmd) :=
  .ite (fun _ => lockstep_readText arg) fun _ => .modify fun _ _ h => h.command _ arg

/-- The induction is on the rounds. -/
theorem lockstep_recordLoop (rounds : ℕ) :
    Call.Lockstep (State.Coloured width) (recordLoop ⟨.plain, width⟩ rounds)
      (recordLoop ⟨.color, width⟩ rounds) := by
  induction rounds with
  | zero => exact .timeout
  | succ rounds ih =>
    refine (lockstep_sysread 2).bind fun buffer => ?_
    split
    · refine .bind (.modify fun s s' h => ?_) fun _ => .ite (fun _ => .modify fun s s' h => ?_)
        fun _ => (lockstep_handleRecord _ _).bind fun _ => ih
      · exact { h with offset := congrArg (· - 2) h.position }
      · rw [h.unread]
        split
        · exact h
        · exact { h with unread := rfl, stderr := congrArg (· ++ _) h.stderr }
    · exact .pure _

/-- **The two runs.** -/
theorem lockstep_awp2txt :
    Call.Lockstep (State.Coloured width) (awp2txt ⟨.plain, width⟩) (awp2txt ⟨.color, width⟩) := by
  refine (lockstep_sysread 300).bind fun buffer => .ite (fun _ => .throw _) fun _ =>
    .get_bind fun s s' h => ?_
  rw [h.unread]
  exact lockstep_recordLoop _ s s' h

/-! ### What is seen -/

/-- What pieces have in them. -/
def printed (pieces : List Printed) : Str := pieces.flatMap Printed.text

theorem printed_append (ps qs : List Printed) : printed (ps ++ qs) = printed ps ++ printed qs :=
  List.flatMap_append

theorem times_dash (count : ℤ) : times (ascii "-") count = List.replicate count.toNat 45 :=
  List.flatten_replicate_singleton

/-- The line of a new page, with dashes behind so many characters. -/
def newPageLine (width : ℤ) (taken : ℕ) : Str :=
  ascii "---[ PAGE BREAK ]---" ++ times (ascii "-") (width - taken) ++ ascii "\n"

theorem length_newPageLine (width : ℤ) (taken : ℕ) :
    (newPageLine width taken).length = 21 + (width - taken).toNat := by
  have hline : (ascii "---[ PAGE BREAK ]---").length = 20 := rfl
  have hend : (ascii "\n").length = 1 := rfl
  rw [newPageLine, List.length_append, List.length_append, times_dash, List.length_replicate, hline,
    hend]
  omega

/-- The code at its beginning takes the place of four dashes. -/
theorem reads_newPage (offset : ℕ) :
    printed (newPagePieces ⟨.plain, width⟩ offset) = newPageLine width 21 ∧
      Screen.Reads (printed (newPagePieces ⟨.color, width⟩ offset)) (newPageLine width 25) := by
  have hplain : width - (20 : ℕ) - 1 = width - (21 : ℕ) := by omega
  have hcolor : width - (24 : ℕ) - 1 = width - (25 : ℕ) := by omega
  have hdashes : 0x1B ∉ times (ascii "-") (width - (25 : ℕ)) := by
    rw [times_dash]
    exact fun hmem => absurd (List.eq_of_mem_replicate hmem) (by decide)
  constructor
  · simp only [printed, newPagePieces, List.flatMap_cons, List.flatMap_nil, List.append_nil,
      List.append_assoc, newPageLine, ← hplain]
    rfl
  · have hon : Screen.Reads (Codes.color.faintOn ++ ascii "---[ PAGE BREAK ]---")
        (ascii "---[ PAGE BREAK ]---") := Screen.pair_faint.on.reads.append (.text (by decide))
    have hall := (hon.append (.text hdashes)).append
      (Screen.selects_bold_off.reads.append (.text (show 0x1B ∉ ascii "\n" by decide)))
    rw [← hcolor, List.append_assoc] at hall
    rw [newPageLine, List.append_assoc, ← hcolor]
    exact hall

/-- **What is seen of the pieces.** A line of a new page may be shorter with codes than it is
without. -/
theorem Pieces.shows {ps ps' : List Printed} (h : Pieces width ps ps') (hesc : 0x1B ∉ printed ps) :
    ∃ text, Screen.Reads (printed ps') text ∧ text.length ≤ (printed ps).length ∧
      (21 < width → (∃ p ∈ ps, p.IsNewPage) → text.length < (printed ps).length) ∧
      ((21 < width → ∀ p ∈ ps, ¬ p.IsNewPage) → text = printed ps) := by
  induction h with
  | nil => exact ⟨[], .nil, le_rfl, fun _ ⟨p, hp, _⟩ => absurd hp List.not_mem_nil, fun _ => rfl⟩
  | @piece p p' ps ps' same other _ ih =>
    have hcons : ∀ (p : Printed) ps, printed (p :: ps) = p.text ++ printed ps := fun _ _ => rfl
    rw [hcons, List.mem_append, not_or] at hesc
    obtain ⟨text, hreads, hle, hlt, heq⟩ := ih hesc.2
    refine ⟨p.text ++ text, (same.text hesc.1).append hreads, ?_, fun hwidth hpage => ?_,
      fun hpage => ?_⟩
    · rw [hcons, List.length_append, List.length_append]
      omega
    · rw [List.exists_mem_cons_iff] at hpage
      have := hlt hwidth (hpage.resolve_left other)
      rw [hcons, List.length_append, List.length_append]
      omega
    · rw [hcons, heq fun hwidth => (List.forall_mem_cons.mp (hpage hwidth)).2]
  | @newPage ps ps' offset _ ih =>
    obtain ⟨hplain, hcolor⟩ := @reads_newPage width offset
    have hlines := length_newPageLine width 21
    have hlines' := length_newPageLine width 25
    rw [printed_append, hplain, List.mem_append, not_or] at hesc
    obtain ⟨text, hreads, hle, hlt, heq⟩ := ih hesc.2
    refine ⟨newPageLine width 25 ++ text, ?_, ?_, fun hwidth _ => ?_, fun hpage => ?_⟩
    · rw [printed_append]
      exact hcolor.append hreads
    · rw [printed_append, hplain, List.length_append, List.length_append]
      omega
    · rw [printed_append, hplain, List.length_append, List.length_append]
      omega
    · have hnarrow : width ≤ 21 := by
        by_contra hwide
        exact hpage (by omega) _ (List.mem_cons_self) ⟨rfl, rfl⟩
      have hsame : newPageLine width 25 = newPageLine width 21 := by
        rw [newPageLine, newPageLine, times_dash, times_dash, Int.toNat_of_nonpos (by omega),
          Int.toNat_of_nonpos (by omega)]
      rw [printed_append, hplain, hsame, heq fun hwidth => absurd hwidth (by omega)]

theorem coloured_start (width : ℤ) (file : Str) :
    (State.start file).Coloured width (State.start file) where
  unread := rfl
  position := rfl
  offset := rfl
  alignment := rfl
  currentSection := rfl
  header := .nil
  footer := .nil
  indent := rfl
  stdout := .nil
  stderr := rfl

end

/-- **What a document looks like.** With codes, the script ends as it does without, and the terminal
shows the characters that are printed without codes, if and only if these have no `ESC` among them
and, where there is room for dashes, no line of a new page. -/
theorem awp2txt_shows_iff (width : ℤ) (file : Str) :
    let plain := awp2txt ⟨.plain, width⟩ (.start file)
    let coloured := awp2txt ⟨.color, width⟩ (.start file)
    coloured.1 = plain.1 ∧
      (((⟨.normal, .text⟩ : Screen).run (printed coloured.2.stdout)).1.map Prod.fst
          = printed plain.2.stdout ↔
        0x1B ∉ printed plain.2.stdout ∧ (21 < width → ∀ p ∈ plain.2.stdout, ¬ p.IsNewPage)) := by
  intro plain coloured
  obtain ⟨hsame, hcoloured⟩ := lockstep_awp2txt _ _ (coloured_start width file)
  refine ⟨hsame, fun hseen => ?_, fun ⟨hesc, hpage⟩ => ?_⟩
  · have hesc : 0x1B ∉ printed plain.2.stdout := hseen ▸ Screen.not_mem_run _ _
    refine ⟨hesc, fun hwidth p hp hpage => ?_⟩
    obtain ⟨text, hreads, -, hlt, -⟩ := hcoloured.stdout.shows hesc
    obtain ⟨q, cells, hshows, htext⟩ := hreads .normal
    have hrun : ((⟨.normal, .text⟩ : Screen).run (printed coloured.2.stdout)).1 = cells :=
      congrArg Prod.fst hshows
    rw [hrun, htext] at hseen
    exact (hlt hwidth ⟨p, hp, hpage⟩).ne (congrArg List.length hseen)
  · obtain ⟨text, hreads, -, -, heq⟩ := hcoloured.stdout.shows hesc
    obtain ⟨q, cells, hshows, htext⟩ := hreads .normal
    have hrun : ((⟨.normal, .text⟩ : Screen).run (printed coloured.2.stdout)).1 = cells :=
      congrArg Prod.fst hshows
    rw [hrun, htext]
    exact heq hpage

end Prodosfs.AppleWorks
