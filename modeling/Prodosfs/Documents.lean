import Prodosfs.AppleWorks
import Mathlib.Data.List.Nodup

/-!
# AppleWorks documents

What `awp2txt` should print for a document, and when it does.

Every record of a document has a *context*, which the records before it give it: whether it belongs
to the body of the document, to a header or to a footer, how its text is laid out, and the lines of
the footer that holds at its place. That is all a record's output depends on, and all that its place
in the output depends on, so that the output can be said without the script: the records of the body
are printed once each, where they are, and the lines of the footer once each at every page break.

The script keeps the first half of this. At a page break it prints the footer twice, once as a whole
and once line by line as it does with the header, so that the second half holds of the documents
that never come to a page break with a footer.

## Main definitions

* `Record`, `Document` — well-formed records, and the files of documents
* `Context`, `placed` — the context of every record
* `EmitsOnce` — every line of the body once, and every line of the footer once at each page break

## Main results

* `Sim.next` — the variables of the script follow the context
* `awp2txt_document` — the script handles the records one after the other
* `awp2txt_emitsOnce_iff` — the documents whose lines are printed once
-/

namespace Prodosfs.AppleWorks

open Perl

/-! ### Documents -/

/-- A well-formed record. -/
inductive Record where
  /-- A line of text, which fits into a record. -/
  | text (b2 b3 : UInt8) (line : Str) (fits : line.length ≤ 253)
  /-- A command with its argument, other than the one for a line of text, and than the end of the
  document. -/
  | command (arg cmd : UInt8) (not_text : Command.ofByte cmd ≠ .text)
    (not_end : ¬ (cmd = 0xFF ∧ arg = 0xFF))

namespace Record

/-- A record in the file. -/
def bytes : Record → Str
  | text b2 b3 line _ => UInt8.ofNat (line.length + 2) :: 0x00 :: b2 :: b3 :: line
  | command arg cmd _ _ => [arg, cmd]

/-- A record with a given command. -/
def Is (c : Command) : Record → Prop
  | text _ _ _ _ => c = .text
  | command _ cmd _ _ => c = Command.ofByte cmd

instance (c : Command) : (r : Record) → Decidable (r.Is c)
  | text _ _ _ _ => inferInstanceAs (Decidable (c = .text))
  | command _ cmd _ _ => inferInstanceAs (Decidable (c = Command.ofByte cmd))

theorem two_le_length_bytes (r : Record) : 2 ≤ r.bytes.length := by
  cases r with
  | text b2 b3 line _ => exact Nat.le_add_left 2 (line.length + 2)
  | command arg cmd _ _ => exact le_rfl

end Record

/-- The file of a document. -/
structure Document where
  header : Str
  length_header : header.length = 300
  magic : (header.drop 2).take 3 = [0x00, 0x00, 0x4F]
  records : List Record
  /-- Nothing, or the end-of-document record and whatever may be behind it. -/
  ending : Str
  ends : ending.length < 2 ∨ ending.take 2 = [0xFF, 0xFF]

/-- What is in the file. -/
def Document.bytes (d : Document) : Str :=
  d.header ++ (d.records.flatMap Record.bytes ++ d.ending)

/-! ### Contexts -/

/-- The parts of a document. -/
inductive Part where
  | body
  | header
  | footer
  deriving DecidableEq, Repr

/-- What the records before a record say about it. -/
structure Context where
  offset : ℕ
  part : Part
  alignment : Alignment
  indent : Str
  /-- The lines of the footer that holds here. -/
  footer : List Line

/-- The context of the first record. -/
def Context.start : Context := ⟨300, .body, .none, [], []⟩

/-- The output of a line of text or of a carriage return. -/
def Record.output (o : Options) (c : Context) : Record → Option Str
  | text b2 b3 line _ =>
    some (if b2 = 0xFF then ruler o line
      else AppleWorks.output o c.alignment c.indent b2 b3 line)
  | command arg cmd _ _ =>
    if Command.ofByte cmd = .carriageReturn then some (emptyLine arg) else none

/-- The line that a record adds to a header or a footer. Rulers are not kept. -/
def Record.kept (o : Options) (c : Context) : Record → Option Str
  | text b2 b3 line _ =>
    if b2 = 0xFF then none else some (AppleWorks.output o c.alignment c.indent b2 b3 line)
  | command arg cmd _ _ =>
    if Command.ofByte cmd = .carriageReturn then some (emptyLine arg) else none

namespace Context

/-- The context behind a command. -/
def command (c : Context) (command : Command) (arg : UInt8) : Context :=
  match command with
  | .sectionEnd => { c with part := .body }
  | .indent => { c with indent := times (ascii " ") arg.toNat }
  | .justify => { c with alignment := .justify }
  | .unjustify => { c with alignment := .none }
  | .center => { c with alignment := .center }
  | .pageHeader => { c with part := .header }
  | .pageFooter => { c with part := .footer, footer := [] }
  | .pageBreak => { c with part := .body }
  | _ => c

/-- A line of a footer. -/
def add (c : Context) (text : Option Str) : Context :=
  if c.part = .footer then
    { c with footer := c.footer ++ (text.map (Line.mk c.offset)).toList }
  else c

/-- The context behind a record. -/
def next (o : Options) (c : Context) (r : Record) : Context :=
  let c' := c.add (r.kept o c)
  let c' := match r with
    | .text _ _ _ _ => c'
    | .command arg cmd _ _ => c'.command (Command.ofByte cmd) arg
  { c' with offset := c.offset + r.bytes.length }

/-- A text of the body, as a line. -/
def place (c : Context) (text : Str) : Option Line :=
  if c.part = .body then some ⟨c.offset, text⟩ else none

/-- The line of a record of the body. -/
def bodyLine (o : Options) (c : Context) (r : Record) : Option Line := (r.output o c).bind c.place

end Context

/-- The records, each with its context. -/
def placed (o : Options) : Context → List Record → List (Context × Record)
  | _, [] => []
  | c, r :: records => (c, r) :: placed o (c.next o r) records

/-- The lines of the records of the body, in order. -/
def bodyLines (o : Options) (c : Context) (records : List Record) : List Line :=
  (placed o c records).filterMap fun x => x.1.bodyLine o x.2

/-! ### What should be printed -/

/-- The piece of output is the output of one of the records at certain offsets. -/
def Printed.isOf (p : Printed) (among : ℕ → Bool) : Bool := p.source.any among

/-- A line, printed at its own record. -/
def Line.printed (l : Line) : Printed := ⟨l.offset, some l.offset, l.text⟩

/-- Every line of the body is printed once, at its own record, and so in the order of the
records. -/
def BodyOnce (o : Options) (records : List Record) (stdout : List Printed) : Prop :=
  (stdout.filter fun p => p.isOf fun offset =>
      offset ∈ (bodyLines o .start records).map Line.offset)
    = (bodyLines o .start records).map Line.printed

/-- **Every line of the body is printed once**, and at every page break, every line of the footer
that holds there is printed once. -/
structure EmitsOnce (o : Options) (records : List Record) (stdout : List Printed) : Prop where
  body : BodyOnce o records stdout
  footer : ∀ x ∈ placed o .start records, x.2.Is .pageBreak → ∀ l ∈ x.1.footer,
    (stdout.countP fun p => p.offset = x.1.offset ∧ p.source = some l.offset) = 1

/-! ### The script follows the context -/

/-- The part of a document that a section belongs to. -/
def Section.part : Section → Part
  | .body => .body
  | .bodyTop => .body
  | .header => .header
  | .footer => .footer

/-- The variables of the script are those of a context. -/
structure Agrees (c : Context) (s : State) : Prop where
  part : s.currentSection.part = c.part
  alignment : s.alignment = c.alignment
  indent : s.indent = c.indent
  footer : s.footer = c.footer

/-- The script is about to read the record of a context. -/
structure Sim (c : Context) (s : State) : Prop extends Agrees c s where
  position : s.position = c.offset

/-- Having read a record. -/
def State.read (s : State) (r : Record) : State :=
  { s with
    offset := s.position
    position := s.position + r.bytes.length
    unread := s.unread.drop r.bytes.length }

/-- Having handled a record. -/
def State.next (o : Options) (s : State) (r : Record) : State :=
  match r with
  | .text b2 b3 line _ => (s.read r).textRecord o b2 b3 line
  | .command arg cmd _ _ => (s.read r).command o (Command.ofByte cmd) arg

section
variable {o : Options} {c : Context} {s : State} {r : Record}

/-- A line goes to where it belongs. -/
theorem Agrees.emit (h : Agrees c s) (hoffset : s.offset = c.offset) (text : Str) :
    Agrees (c.add (some text)) (s.emit o text) := by
  have hpart := h.part
  cases hsection : s.currentSection with
  | header =>
    rw [hsection] at hpart
    rw [State.emit_of_header hsection, Context.add, ← hpart]
    exact ⟨h.part, h.alignment, h.indent, h.footer⟩
  | footer =>
    rw [hsection] at hpart
    have hfooter : s.footer ++ [⟨s.offset, text⟩] = c.footer ++ [⟨c.offset, text⟩] := by
      rw [h.footer, hoffset]
    rw [State.emit_of_footer hsection, Context.add, if_pos (show c.part = .footer from hpart.symm)]
    exact ⟨h.part, h.alignment, h.indent, hfooter⟩
  | bodyTop =>
    rw [hsection] at hpart
    rw [State.emit_of_bodyTop hsection, Context.add, ← hpart]
    exact ⟨hpart, h.alignment, h.indent, h.footer⟩
  | body =>
    rw [hsection] at hpart
    rw [State.emit_of_body hsection, Context.add, ← hpart]
    exact ⟨h.part, h.alignment, h.indent, h.footer⟩

theorem Context.add_none (c : Context) : c.add none = c := by
  rw [add]
  split
  · exact congrArg (fun footer => { c with footer := footer }) (List.append_nil c.footer)
  · rfl

/-- Reading a record. -/
theorem Sim.read (h : Sim c s) (r : Record) :
    Agrees c (s.read r) ∧ (s.read r).offset = c.offset ∧
      (s.read r).position = c.offset + r.bytes.length :=
  ⟨⟨h.part, h.alignment, h.indent, h.footer⟩, h.position, congrArg (· + _) h.position⟩

/-- A command that emits nothing. -/
theorem Agrees.command (h : Agrees c s) {command : Command} (hne : command ≠ .carriageReturn)
    (arg : UInt8) : Agrees (c.command command arg) (s.command o command arg) := by
  obtain ⟨hpart, halignment, hindent, hfooter⟩ := h
  cases command with
  | carriageReturn => exact absurd rfl hne
  | text | newPage | ignored => exact ⟨hpart, halignment, hindent, hfooter⟩
  | sectionEnd | pageHeader | pageBreak => exact ⟨rfl, halignment, hindent, hfooter⟩
  | indent => exact ⟨hpart, halignment, rfl, hfooter⟩
  | justify | unjustify | center => exact ⟨hpart, rfl, hindent, hfooter⟩
  | pageFooter => exact ⟨rfl, halignment, hindent, rfl⟩

/-- Where a context is does not matter to the variables. -/
theorem Agrees.moved (h : Agrees c s) (offset : ℕ) : Agrees { c with offset := offset } s :=
  ⟨h.part, h.alignment, h.indent, h.footer⟩

theorem emit_file (o : Options) (s : State) (text : Str) :
    (s.emit o text).unread = s.unread ∧ (s.emit o text).position = s.position := by
  rw [State.emit]
  split <;> exact ⟨rfl, rfl⟩

/-- Handling a record reads nothing more. -/
theorem next_file (o : Options) (s : State) (r : Record) :
    (s.next o r).unread = (s.read r).unread ∧ (s.next o r).position = (s.read r).position := by
  cases r with
  | text b2 b3 line fits =>
    rw [State.next, State.textRecord]
    split
    · exact ⟨rfl, rfl⟩
    · exact emit_file o _ _
  | command arg cmd not_text not_end =>
    rw [State.next]
    cases Command.ofByte cmd with
    | carriageReturn => exact emit_file o _ _
    | _ => exact ⟨rfl, rfl⟩

/-- **The variables of the script follow the context.** -/
theorem Sim.next (h : Sim c s) (r : Record) : Sim (c.next o r) (s.next o r) := by
  obtain ⟨hagrees, hoffset, hposition⟩ := h.read r
  refine ⟨?_, (next_file o s r).2.trans hposition⟩
  cases r with
  | text b2 b3 line fits =>
    rw [Context.next, State.next, State.textRecord, Record.kept]
    by_cases hruler : b2 = 0xFF
    · rw [if_pos hruler, if_pos hruler, Context.add_none]
      exact ⟨hagrees.part, hagrees.alignment, hagrees.indent, hagrees.footer⟩
    · rw [if_neg hruler, if_neg hruler, ← h.alignment, ← h.indent]
      exact (hagrees.emit hoffset _).moved _
  | command arg cmd not_text not_end =>
    rw [Context.next, State.next, Record.kept]
    by_cases hreturn : Command.ofByte cmd = .carriageReturn
    · rw [if_pos hreturn, hreturn]
      exact (hagrees.emit hoffset _).moved _
    · rw [if_neg hreturn, Context.add_none]
      exact (hagrees.command hreturn arg).moved _

end

/-! ### What a record prints -/

/-- The lines that the script keeps have none of certain offsets. -/
def Clean (among : ℕ → Bool) (s : State) : Prop :=
  (∀ l ∈ s.header, among l.offset = false) ∧ ∀ l ∈ s.footer, among l.offset = false

/-- What a record may print: of the output of certain records, its own, if it is one of them, and
no other that is still kept. -/
def PrintsOf (among : ℕ → Bool) (s : State) (offset : ℕ) (line : Option Line)
    (printed : List Printed) : Prop :=
  Clean among s → among offset = line.isSome →
    (printed.filter fun p => p.isOf among) = line.toList.map Line.printed

section
variable {o : Options} {c : Context} {s : State} {r : Record} {among : ℕ → Bool}

theorem isOf_line (l : Line) : (s.line l).isOf among = among l.offset := rfl

theorem filter_line (lines : List Line) (h : ∀ l ∈ lines, among l.offset = false) :
    ((lines.map s.line).filter fun p => p.isOf among) = [] := by
  rw [List.filter_eq_nil_iff, List.forall_mem_map]
  intro l hl
  rw [isOf_line, h l hl]
  decide

theorem filter_faint (lines : List Line) (h : ∀ l ∈ lines, among l.offset = false) :
    ((lines.flatMap (s.faint o)).filter fun p => p.isOf among) = [] := by
  rw [List.filter_eq_nil_iff]
  intro p hp
  obtain ⟨l, hl, hp⟩ := List.mem_flatMap.mp hp
  simp only [State.faint, List.mem_cons, List.not_mem_nil, or_false] at hp
  rcases hp with rfl | rfl | rfl
  · exact Bool.false_ne_true
  · rw [isOf_line, h l hl]
    exact Bool.false_ne_true
  · exact Bool.false_ne_true

/-- The output of the record at hand. -/
theorem filter_own (hoffset : s.offset = c.offset) {text : Str}
    (hamong : among c.offset = (c.place text).isSome) :
    ([s.line ⟨s.offset, text⟩].filter fun p => p.isOf among)
      = (c.place text).toList.map Line.printed := by
  rw [List.filter_singleton, isOf_line, hoffset, hamong]
  cases hplace : c.place text with
  | none => rfl
  | some l =>
    rw [Context.place, Option.ite_none_right_eq_some, Option.some.injEq] at hplace
    rw [← hplace.2, State.line, hoffset]
    rfl

/-- A line that is emitted is printed if it belongs to the body, along with the header at the top of
a page. -/
theorem emit_prints (h : Agrees c s) (hoffset : s.offset = c.offset) (text : Str) :
    ∃ printed, (s.emit o text).stdout = s.stdout ++ printed ∧
      ∀ among, PrintsOf among s c.offset (c.place text) printed := by
  have hkept : c.part ≠ .body → ∀ among, PrintsOf among s c.offset (c.place text) [] := by
    intro hne among _ _
    rw [Context.place, if_neg hne]
    rfl
  have hpart := h.part
  cases hsection : s.currentSection with
  | header =>
    rw [hsection] at hpart
    rw [State.emit_of_header hsection]
    exact ⟨[], (List.append_nil _).symm, hkept (hpart ▸ by decide)⟩
  | footer =>
    rw [hsection] at hpart
    rw [State.emit_of_footer hsection]
    exact ⟨[], (List.append_nil _).symm, hkept (hpart ▸ by decide)⟩
  | bodyTop =>
    rw [State.emit_of_bodyTop hsection]
    refine ⟨_, rfl, fun among hclean hamong => ?_⟩
    rw [List.filter_append, filter_faint _ hclean.1, List.nil_append, filter_own hoffset hamong]
  | body =>
    rw [State.emit_of_body hsection]
    exact ⟨_, rfl, fun among _ hamong => filter_own hoffset hamong⟩

/-- A line that is kept does not belong to the body. -/
theorem clean_emit (h : Agrees c s) (hoffset : s.offset = c.offset) {text : Str}
    (hclean : Clean among s) (hamong : among c.offset = (c.place text).isSome) :
    Clean among (s.emit o text) := by
  have hpart := h.part
  have hown : c.part ≠ .body → ∀ l ∈ [Line.mk s.offset text], among l.offset = false := by
    intro hne l hl
    rw [List.mem_singleton.mp hl, hoffset, hamong, Context.place, if_neg hne]
    rfl
  cases hsection : s.currentSection with
  | header =>
    rw [hsection] at hpart
    rw [State.emit_of_header hsection]
    exact ⟨List.forall_mem_append.mpr ⟨hclean.1, hown (hpart ▸ by decide)⟩, hclean.2⟩
  | footer =>
    rw [hsection] at hpart
    rw [State.emit_of_footer hsection]
    exact ⟨hclean.1, List.forall_mem_append.mpr ⟨hclean.2, hown (hpart ▸ by decide)⟩⟩
  | bodyTop =>
    rw [State.emit_of_bodyTop hsection]
    exact hclean
  | body =>
    rw [State.emit_of_body hsection]
    exact hclean

/-- What a page break prints for the footer. -/
def State.footers (o : Options) (s : State) : List Printed :=
  s.added o.codes.faintOn :: s.footer.map s.line ++ [s.added o.codes.faintOff] ++
    s.footer.flatMap (s.faint o)

theorem stdout_pageBreak (o : Options) (arg : UInt8) (s : State) :
    (s.pageBreak o arg).stdout = s.stdout ++ (s.footers o ++ s.pageLine o arg) := by
  rw [State.footers, ← List.append_assoc, ← List.append_assoc]
  rfl

/-- A page break prints the lines of the footer, which is kept, and no others. -/
theorem filter_footers (hclean : Clean among s) :
    ((s.footers o).filter fun p => p.isOf among) = [] := by
  have hfaint := filter_faint (o := o) (s := s) s.footer hclean.2
  have hline := filter_line (s := s) s.footer hclean.2
  rw [State.footers, List.filter_append, hfaint, List.append_nil, List.cons_append,
    List.filter_cons_of_neg Bool.false_ne_true, List.filter_append, hline]
  rfl

/-- **A page break prints every line of the footer twice.** -/
theorem two_le_countP_footers {l : Line} (hl : l ∈ s.footer) :
    2 ≤ (s.footers o).countP fun p => p.offset = s.offset ∧ p.source = some l.offset := by
  have hone : 1 ≤ (s.footer.map s.line).countP
      fun p => p.offset = s.offset ∧ p.source = some l.offset :=
    List.countP_pos_iff.mpr ⟨s.line l, List.mem_map_of_mem hl, by simp [State.line]⟩
  have hagain : 1 ≤ (s.footer.flatMap (s.faint o)).countP
      fun p => p.offset = s.offset ∧ p.source = some l.offset :=
    List.countP_pos_iff.mpr ⟨s.line l, List.mem_flatMap.mpr ⟨l, hl, by simp [State.faint]⟩,
      by simp [State.line]⟩
  rw [State.footers, List.countP_append, List.cons_append, List.countP_cons, List.countP_append]
  omega

/-- What a record prints: of the lines of the body its own, and at a page break, the footer
twice. -/
structure Prints (o : Options) (c : Context) (s : State) (r : Record) (printed : List Printed) :
    Prop where
  body : ∀ among, PrintsOf among s c.offset (c.bodyLine o r) printed
  footer : r.Is .pageBreak → ∀ l ∈ c.footer,
    2 ≤ printed.countP fun p => p.offset = c.offset ∧ p.source = some l.offset

/-- A command that emits nothing has no line. -/
theorem bodyLine_of_ne {arg cmd : UInt8} {not_text : Command.ofByte cmd ≠ .text}
    {not_end : ¬ (cmd = 0xFF ∧ arg = 0xFF)} (hne : Command.ofByte cmd ≠ .carriageReturn) :
    c.bodyLine o (.command arg cmd not_text not_end) = none := by
  rw [Context.bodyLine, Record.output, if_neg hne]
  rfl

theorem prints_nil (hline : c.bodyLine o r = none) (hbreak : ¬ r.Is .pageBreak) :
    Prints o c s r [] where
  body among _ _ := by
    rw [hline]
    rfl
  footer h := absurd h hbreak

theorem exists_prints (h : Sim c s) (r : Record) :
    ∃ printed, (s.next o r).stdout = s.stdout ++ printed ∧ Prints o c s r printed := by
  obtain ⟨hagrees, hoffset, -⟩ := h.read r
  cases r with
  | text b2 b3 line fits =>
    have hno : ¬ (Record.text b2 b3 line fits).Is .pageBreak := by
      intro hbreak
      cases hbreak
    rw [State.next, State.textRecord]
    by_cases hruler : b2 = 0xFF
    · rw [if_pos hruler]
      refine ⟨_, rfl, fun among hclean hamong => ?_, fun hbreak => absurd hbreak hno⟩
      rw [Context.bodyLine, Record.output, if_pos hruler] at hamong ⊢
      exact filter_own hoffset hamong
    · rw [if_neg hruler]
      obtain ⟨printed, hstdout, hprints⟩ := emit_prints (o := o) hagrees hoffset
        (AppleWorks.output o s.alignment s.indent b2 b3 line)
      refine ⟨printed, hstdout, fun among hclean hamong => ?_, fun hbreak => absurd hbreak hno⟩
      rw [Context.bodyLine, Record.output, if_neg hruler, ← h.alignment, ← h.indent] at hamong ⊢
      exact hprints among hclean hamong
  | command arg cmd not_text not_end =>
    rw [State.next]
    have hno : ∀ {command}, Command.ofByte cmd = command → command ≠ .pageBreak →
        ¬ (Record.command arg cmd not_text not_end).Is .pageBreak :=
      fun hcmd hne hbreak => hne (hcmd.symm.trans hbreak.symm)
    cases hcmd : Command.ofByte cmd with
    | text => exact absurd hcmd not_text
    | carriageReturn =>
      obtain ⟨printed, hstdout, hprints⟩ := emit_prints (o := o) hagrees hoffset (emptyLine arg)
      refine ⟨printed, hstdout, fun among hclean hamong => ?_,
        fun hbreak => absurd hbreak (hno hcmd (by decide))⟩
      rw [Context.bodyLine, Record.output, if_pos hcmd] at hamong ⊢
      exact hprints among hclean hamong
    | newPage =>
      refine ⟨_, rfl, fun among _ _ => ?_, fun hbreak => absurd hbreak (hno hcmd (by decide))⟩
      rw [bodyLine_of_ne (hcmd ▸ by decide)]
      rfl
    | pageBreak =>
      refine ⟨_, stdout_pageBreak o arg _, fun among hclean _ => ?_, fun _ l hl => ?_⟩
      · have hread : Clean among (s.read (.command arg cmd not_text not_end)) := hclean
        rw [bodyLine_of_ne (hcmd ▸ by decide), List.filter_append, filter_footers hread]
        rfl
      · rw [List.countP_append, ← hoffset]
        exact (two_le_countP_footers (hagrees.footer.symm ▸ hl)).trans (Nat.le_add_right _ _)
    | sectionEnd | indent | justify | unjustify | center | pageHeader | pageFooter | ignored =>
      exact ⟨[], (List.append_nil _).symm,
        prints_nil (bodyLine_of_ne (hcmd ▸ by decide)) (hno hcmd (by decide))⟩

/-- The lines that are kept are clean, if those of the body are the ones that are not. -/
theorem clean_next (h : Sim c s) (hclean : Clean among s)
    (hamong : among c.offset = (c.bodyLine o r).isSome) : Clean among (s.next o r) := by
  obtain ⟨hagrees, hoffset, -⟩ := h.read r
  have hread : Clean among (s.read r) := hclean
  cases r with
  | text b2 b3 line fits =>
    rw [State.next, State.textRecord]
    by_cases hruler : b2 = 0xFF
    · rw [if_pos hruler]
      exact hread
    · rw [if_neg hruler]
      rw [Context.bodyLine, Record.output, if_neg hruler, ← h.alignment, ← h.indent] at hamong
      exact clean_emit hagrees hoffset hread hamong
  | command arg cmd not_text not_end =>
    rw [State.next]
    cases hcmd : Command.ofByte cmd with
    | carriageReturn =>
      rw [Context.bodyLine, Record.output, if_pos hcmd] at hamong
      exact clean_emit hagrees hoffset hread hamong
    | pageHeader => exact ⟨fun _ hl => absurd hl List.not_mem_nil, hclean.2⟩
    | pageFooter => exact ⟨hclean.1, fun _ hl => absurd hl List.not_mem_nil⟩
    | text | sectionEnd | indent | justify | unjustify | center | newPage | pageBreak | ignored =>
      exact hclean

/-- **What a sequence of records prints.** The induction is on the records. -/
theorem exists_prints_records (records : List Record) : ∀ {c : Context} {s : State}, Sim c s →
    ∃ printed, (records.foldl (State.next o) s).stdout = s.stdout ++ printed ∧
      (∀ among, Clean among s →
        (∀ x ∈ placed o c records, among x.1.offset = (x.1.bodyLine o x.2).isSome) →
          (printed.filter fun p => p.isOf among) = (bodyLines o c records).map Line.printed) ∧
      ∀ x ∈ placed o c records, x.2.Is .pageBreak → ∀ l ∈ x.1.footer,
        2 ≤ printed.countP fun p => p.offset = x.1.offset ∧ p.source = some l.offset := by
  induction records with
  | nil =>
    intro c s _
    exact ⟨[], (List.append_nil _).symm, fun _ _ _ => rfl, fun _ hx => absurd hx List.not_mem_nil⟩
  | cons r records ih =>
    intro c s h
    obtain ⟨printed, hstdout, hprints⟩ := exists_prints (o := o) h r
    obtain ⟨rest, hrest, hbody, hfooter⟩ := ih (h.next r)
    refine ⟨printed ++ rest, ?_, fun among hclean hamong => ?_, fun x hx hbreak l hl => ?_⟩
    · rw [List.foldl_cons, hrest, hstdout, List.append_assoc]
    · rw [placed, List.forall_mem_cons] at hamong
      have hown := hprints.body among hclean hamong.1
      have hlater := hbody among (clean_next h hclean hamong.1) hamong.2
      rw [List.filter_append, hown, hlater, bodyLines, bodyLines, placed, List.filterMap_cons]
      cases c.bodyLine o r <;> rfl
    · rw [List.countP_append]
      rcases List.mem_cons.mp hx with rfl | hx
      · exact (hprints.footer hbreak l hl).trans (Nat.le_add_right _ _)
      · exact (hfooter x hx hbreak l hl).trans (Nat.le_add_left _ _)

end

/-! ### Offsets -/

section
variable {o : Options}

theorem offset_next (c : Context) (r : Record) :
    (c.next o r).offset = c.offset + r.bytes.length := rfl

theorem le_offset_of_mem_placed (records : List Record) : ∀ {c : Context},
    ∀ x ∈ placed o c records, c.offset ≤ x.1.offset := by
  induction records with
  | nil =>
    intro c x hx
    cases hx
  | cons r records ih =>
    intro c x hx
    rcases List.mem_cons.mp hx with rfl | hx
    · exact le_rfl
    · exact (Nat.le_add_right _ _).trans (ih x hx)

/-- Every record has an offset of its own. -/
theorem pairwise_placed (records : List Record) : ∀ c : Context,
    (placed o c records).Pairwise fun x y => x.1.offset < y.1.offset := by
  induction records with
  | nil =>
    intro c
    exact List.Pairwise.nil
  | cons r records ih =>
    intro c
    refine List.Pairwise.cons (fun y hy => ?_) (ih _)
    have hle := le_offset_of_mem_placed records y hy
    have htwo := r.two_le_length_bytes
    rw [offset_next] at hle
    exact show c.offset < y.1.offset by omega

theorem offset_of_bodyLine {c : Context} {r : Record} {l : Line} (h : c.bodyLine o r = some l) :
    l.offset = c.offset := by
  obtain ⟨text, -, hplace⟩ := Option.bind_eq_some_iff.mp h
  rw [Context.place, Option.ite_none_right_eq_some, Option.some.injEq] at hplace
  exact congrArg Line.offset hplace.2.symm

/-- The offsets of the lines of the body are those of the records of the body. -/
theorem mem_offsets_iff {records : List Record} {c : Context} {x : Context × Record}
    (hx : x ∈ placed o c records) :
    x.1.offset ∈ (bodyLines o c records).map Line.offset ↔ (x.1.bodyLine o x.2).isSome := by
  rw [List.mem_map]
  constructor
  · rintro ⟨l, hl, hoffset⟩
    obtain ⟨y, hy, hline⟩ := List.mem_filterMap.mp hl
    have hxy : x.1.offset = y.1.offset := hoffset.symm.trans (offset_of_bodyLine hline)
    have hnodup : ((placed o c records).map fun x => x.1.offset).Nodup :=
      List.pairwise_map.mpr ((pairwise_placed records c).imp Nat.ne_of_lt)
    have hsame : x = y := List.inj_on_of_nodup_map hnodup hx hy hxy
    rw [hsame, hline]
    rfl
  · intro h
    obtain ⟨l, hl⟩ := Option.isSome_iff_exists.mp h
    exact ⟨l, List.mem_filterMap.mpr ⟨x, hx, hl⟩, offset_of_bodyLine hl⟩

end

/-! ### The script, on a document -/

section
variable {o : Options} {s : State} {rest : Str}

theorem read_of_unread {r : Record} (h : s.unread = r.bytes ++ rest) :
    s.read r = { s with
      offset := s.position
      position := s.position + r.bytes.length
      unread := rest } := by
  rw [State.read, h, List.drop_left]

/-- **The record loop handles a record** and goes on behind it. -/
theorem recordLoop_record {rounds : ℕ} {r : Record} (h : s.unread = r.bytes ++ rest)
    (halignment : s.alignment ≠ .justify) :
    recordLoop o (rounds + 1) s = recordLoop o rounds (s.next o r) := by
  have hread := read_of_unread h
  cases r with
  | text b2 b3 line fits =>
    have hfront : s.unread
        = UInt8.ofNat (line.length + 2) :: 0x00 :: ((b2 :: b3 :: line) ++ rest) := h
    have harg : line.length + 2 = (UInt8.ofNat (line.length + 2)).toNat := by
      rw [UInt8.toNat_ofNat', Nat.mod_eq_of_lt (by omega)]
    have hposition : s.position + 2 + (line.length + 2)
        = s.position + (Record.text b2 b3 line fits).bytes.length := by
      simp only [Record.bytes, List.length_cons]
      omega
    have hzero : Command.ofByte 0x00 = .text := rfl
    have htext := readText_append (o := o) (s := { s with
      unread := (b2 :: b3 :: line) ++ rest
      position := s.position + 2
      offset := s.position }) rfl harg halignment
    rw [recordLoop_of_unread hfront (by simp), handleRecord, if_pos hzero, Call.bind_of_ret htext,
      State.next, hread, ← hposition]
  | command arg cmd not_text not_end =>
    have hfront : s.unread = arg :: cmd :: rest := h
    rw [recordLoop_of_unread hfront not_end, handleRecord, if_neg not_text, Call.modify_bind_apply,
      State.next, hread]
    rfl

/-- Only a justify record sets the alignment to the one that the script cannot handle. -/
theorem alignment_next {c : Context} {r : Record} (h : c.alignment ≠ .justify)
    (hr : ¬ r.Is .justify) : (c.next o r).alignment ≠ .justify := by
  have hadd : (c.add (r.kept o c)).alignment = c.alignment := by
    rw [Context.add]
    split <;> rfl
  cases r with
  | text b2 b3 line fits => exact fun hjustify => h (hadd.symm.trans hjustify)
  | command arg cmd not_text not_end =>
    rw [Context.next]
    cases hcmd : Command.ofByte cmd with
    | justify => exact absurd hcmd.symm hr
    | unjustify | center => exact fun hjustify => Alignment.noConfusion hjustify
    | text | carriageReturn | sectionEnd | indent | newPage | pageHeader | pageFooter | pageBreak
    | ignored => exact fun hjustify => h (hadd.symm.trans hjustify)

/-- **The record loop handles the records of a document** one after the other. -/
theorem recordLoop_records (records : List Record) (rounds : ℕ) : ∀ {c : Context} {s : State},
    Sim c s → c.alignment ≠ .justify → (∀ r ∈ records, ¬ r.Is .justify) →
    s.unread = records.flatMap Record.bytes ++ rest →
      recordLoop o (records.length + rounds) s
        = recordLoop o rounds (records.foldl (State.next o) s) ∧
      (records.foldl (State.next o) s).unread = rest := by
  induction records with
  | nil =>
    intro c s _ _ _ hunread
    rw [List.length_nil, Nat.zero_add]
    exact ⟨rfl, hunread⟩
  | cons r records ih =>
    intro c s h halignment hjustify hunread
    rw [List.forall_mem_cons] at hjustify
    rw [List.flatMap_cons, List.append_assoc] at hunread
    have hnext : (s.next o r).unread = records.flatMap Record.bytes ++ rest := by
      rw [(next_file o s r).1, read_of_unread hunread]
    obtain ⟨hloop, hrest⟩ :=
      ih (h.next r) (alignment_next halignment hjustify.1) hjustify.2 hnext
    have hrecord : recordLoop o (records.length + rounds + 1) s
        = recordLoop o (records.length + rounds) (s.next o r) :=
      recordLoop_record hunread (h.alignment.trans_ne halignment)
    rw [List.length_cons, Nat.succ_add, hrecord]
    exact ⟨hloop, hrest⟩

theorem length_le_length_flatMap (records : List Record) :
    records.length ≤ (records.flatMap Record.bytes).length := by
  induction records with
  | nil => exact le_rfl
  | cons r records ih =>
    have htwo := r.two_le_length_bytes
    rw [List.flatMap_cons, List.length_append, List.length_cons]
    omega

/-- The script, about to read a file. -/
def State.start (file : Str) : State where
  unread := file

/-- The script, behind the header of a document. -/
def Document.opened (d : Document) : State where
  unread := d.records.flatMap Record.bytes ++ d.ending
  position := 300

theorem sim_opened (d : Document) : Sim .start d.opened where
  part := rfl
  alignment := rfl
  indent := rfl
  footer := rfl
  position := rfl

/-- **The script on a document**: it handles the records one after the other, and comes to its
end. -/
theorem awp2txt_document (o : Options) (d : Document)
    (hjustify : ∀ r ∈ d.records, ¬ r.Is .justify) :
    ∃ t, awp2txt o (.start d.bytes) = (.ret ⟨⟩, t) ∧
      t.stdout = (d.records.foldl (State.next o) d.opened).stdout := by
  have hheader : sysread 300 (.start d.bytes) = (.ret d.header, d.opened) :=
    sysread_append rfl d.length_header
  have hnone : Context.start.alignment ≠ .justify := by decide
  have hlength := length_le_length_flatMap d.records
  obtain ⟨rounds, hrounds⟩ :
      ∃ rounds, d.opened.unread.length + 1 = d.records.length + (rounds + 1) := by
    refine ⟨d.opened.unread.length - d.records.length, ?_⟩
    rw [Document.opened, List.length_append]
    omega
  obtain ⟨hloop, hending⟩ :=
    recordLoop_records (o := o) d.records (rounds + 1) (sim_opened d) hnone hjustify rfl
  rw [awp2txt, Call.bind_of_ret hheader, Call.ite_apply, if_neg (not_not.mpr d.magic),
    Call.get_bind_apply, hrounds, hloop]
  rcases d.ends with hshort | hend
  · exact recordLoop_of_short (hending.symm ▸ hshort)
  · obtain ⟨tail, htail⟩ : ∃ tail, d.ending = 0xFF :: 0xFF :: tail := by
      refine ⟨d.ending.drop 2, ?_⟩
      conv_lhs => rw [← List.take_append_drop 2 d.ending, hend]
      rfl
    exact recordLoop_of_end (hending.trans htail)

end

/-! ### What is printed once -/

/-- What the records of a document print, from its beginning. -/
theorem exists_prints_document (o : Options) (d : Document) :
    BodyOnce o d.records (d.records.foldl (State.next o) d.opened).stdout ∧
      ∀ x ∈ placed o .start d.records, x.2.Is .pageBreak → ∀ l ∈ x.1.footer,
        2 ≤ (d.records.foldl (State.next o) d.opened).stdout.countP
          fun p => p.offset = x.1.offset ∧ p.source = some l.offset := by
  obtain ⟨printed, hstdout, hbody, hfooter⟩ :=
    exists_prints_records (o := o) d.records (sim_opened d)
  have hclean : ∀ among, Clean among d.opened := fun among =>
    ⟨fun _ hl => absurd hl List.not_mem_nil, fun _ hl => absurd hl List.not_mem_nil⟩
  rw [show (d.records.foldl (State.next o) d.opened).stdout = printed from hstdout]
  refine ⟨hbody _ (hclean _) fun x hx => Bool.eq_iff_iff.mpr ?_, hfooter⟩
  rw [decide_eq_true_eq]
  exact mem_offsets_iff hx

/-- **When `awp2txt` prints the lines of a document once.** Those of the body it does, in any
document without a justify record; those of the footers if and only if the document never comes to
a page break with a footer. -/
theorem awp2txt_emitsOnce_iff (o : Options) (d : Document)
    (hjustify : ∀ r ∈ d.records, ¬ r.Is .justify) :
    ∃ t, awp2txt o (.start d.bytes) = (.ret ⟨⟩, t) ∧ BodyOnce o d.records t.stdout ∧
      (EmitsOnce o d.records t.stdout ↔
        ∀ x ∈ placed o .start d.records, x.2.Is .pageBreak → x.1.footer = []) := by
  obtain ⟨t, hret, hstdout⟩ := awp2txt_document o d hjustify
  obtain ⟨hbody, hfooter⟩ := exists_prints_document o d
  rw [← hstdout] at hbody hfooter
  refine ⟨t, hret, hbody, fun h x hx hbreak => ?_, fun h => ⟨hbody, fun x hx hbreak l hl => ?_⟩⟩
  · refine List.eq_nil_iff_forall_not_mem.mpr fun l hl => ?_
    have honce := h.footer x hx hbreak l hl
    have htwice := hfooter x hx hbreak l hl
    omega
  · rw [h x hx hbreak] at hl
    cases hl

/-- The file of some records. -/
def Document.ofRecords (records : List Record) : Document where
  header := [0x00, 0x00, 0x00, 0x00, 0x4F] ++ List.replicate 295 0x00
  length_header := by rw [List.length_append, List.length_replicate]; rfl
  magic := rfl
  records := records
  ending := [0xFF, 0xFF]
  ends := Or.inr rfl

/-- Two pages of one line each. -/
def twoPages : Document := .ofRecords
  [.text 0x00 0x80 (ascii "A") (by decide), .command 0x01 0xF4 (by decide) (by decide),
    .text 0x00 0x80 (ascii "B") (by decide)]

theorem awp2txt_emitsOnce_iff_twoPages :
    ∃ t, awp2txt ⟨.plain, 80⟩ (.start twoPages.bytes) = (.ret ⟨⟩, t) ∧
      EmitsOnce ⟨.plain, 80⟩ twoPages.records t.stdout := by
  obtain ⟨t, hret, -, hiff⟩ := awp2txt_emitsOnce_iff ⟨.plain, 80⟩ twoPages (by decide)
  exact ⟨t, hret, hiff.mpr (by decide)⟩

/-- A footer of one line, and a page break. -/
def footed : Document := .ofRecords
  [.command 0x00 0xED (by decide) (by decide), .text 0x00 0x80 (ascii "F") (by decide),
    .command 0x00 0xD6 (by decide) (by decide), .command 0x01 0xF4 (by decide) (by decide)]

/-- The footer is printed twice. -/
theorem not_emitsOnce_footed : (∀ r ∈ footed.records, ¬ r.Is .justify) ∧
    ∃ t, awp2txt ⟨.plain, 80⟩ (.start footed.bytes) = (.ret ⟨⟩, t) ∧
      ¬ EmitsOnce ⟨.plain, 80⟩ footed.records t.stdout := by
  have hjustify : ∀ r ∈ footed.records, ¬ r.Is .justify := by decide
  obtain ⟨t, hret, hstdout⟩ := awp2txt_document ⟨.plain, 80⟩ footed hjustify
  obtain ⟨-, htwice⟩ := exists_prints_document ⟨.plain, 80⟩ footed
  rw [← hstdout] at htwice
  refine ⟨hjustify, t, hret, fun h => ?_⟩
  have hmem : (placed ⟨.plain, 80⟩ .start footed.records)[3] ∈
      placed ⟨.plain, 80⟩ .start footed.records := List.getElem_mem _
  have hline : ⟨302, ascii "F\n"⟩ ∈ (placed ⟨.plain, 80⟩ .start footed.records)[3].1.footer := by
    decide
  have honce := h.footer _ hmem rfl _ hline
  have htwo := htwice _ hmem rfl _ hline
  omega

end Prodosfs.AppleWorks
