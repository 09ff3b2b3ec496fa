import Prodosfs.Perl
import Prodosfs.General.Call

/-!
# Text out of AppleWorks files

`awp2txt`. Behind a header of 300 bytes, a document of the AppleWorks word processor is a sequence
of records. A record is two bytes, an argument and a command; that of a line of text has as many
bytes behind it as its argument says.

```
nn 00  b2 b3 t e x t ...   a line of text
nn D0                      an empty line
00 EC ... 00 D5            the lines of the page header
00 ED ... 00 D6            the lines of the page footer
nn F4                      a page break
FF FF                      the end
```

Lines are printed as they come, except for those of a header or a footer, which are kept. A page
break prints the footer, and the header is printed before the first line of the new page.

## Where output comes from

`Printed` is a piece of output along with two numbers that the script does not print: the offset of
the record at which it is printed, and, for the output of a record, the offset of that one. They
differ when a line of a header or footer is printed at a page break. Both are values of `$OFFSET`,
which the script keeps for its debugging messages. Those messages are left out.

## Main definitions

* `State.textRecord`, `State.command` — what a record does
* `recordLoop`, `awp2txt`
-/

namespace Prodosfs.AppleWorks

open Perl

/-! ### Options -/

/-- The escape codes for the terminal. -/
structure Codes where
  boldOn : Str
  boldOff : Str
  underOn : Str
  underOff : Str
  faintOn : Str
  faintOff : Str

/-- `%COLOR` -/
def Codes.color : Codes where
  boldOn := ascii "\x1b[1m"
  boldOff := ascii "\x1b[22m"
  underOn := ascii "\x1b[4m"
  underOff := ascii "\x1b[24m"
  faintOn := ascii "\x1b[2m"
  faintOff := ascii "\x1b[22m"

/-- `%PLAIN` -/
def Codes.plain : Codes := ⟨[], [], [], [], [], []⟩

/-- What the command line, the environment and the terminal decide: `%C` and `$WIDTH`. -/
structure Options where
  codes : Codes
  width : ℤ

/-! ### State -/

/-- `$ALIGNMENT` -/
inductive Alignment where
  | none
  | center
  | justify
  deriving DecidableEq, Repr

/-- `$SECTION` -/
inductive Section where
  | body
  | bodyTop
  | header
  | footer
  deriving DecidableEq, Repr

/-- The output of a record. -/
structure Line where
  /-- `$OFFSET` of the record. -/
  offset : ℕ
  text : Str
  deriving DecidableEq, Repr

/-- A piece of what has been printed. -/
structure Printed where
  /-- `$OFFSET`, when it was printed. -/
  offset : ℕ
  /-- `$OFFSET` of the record whose output it is, if it is any record's. -/
  source : Option ℕ
  text : Str
  deriving DecidableEq, Repr

/-- The variables of the script. -/
structure State where
  /-- What has not been read of `FILE`. -/
  unread : Str
  /-- `sysseek(FILE, 0, 1)` -/
  position : ℕ := 0
  /-- `$OFFSET` -/
  offset : ℕ := 0
  alignment : Alignment := .none
  currentSection : Section := .body
  header : List Line := []
  footer : List Line := []
  indent : Str := []
  stdout : List Printed := []
  stderr : List String := []

namespace State

/-- Text that the script adds. -/
def added (s : State) (text : Str) : Printed := ⟨s.offset, none, text⟩

/-- A line, when it is printed. -/
def line (s : State) (l : Line) : Printed := ⟨s.offset, some l.offset, l.text⟩

/-- `print` -/
def print (s : State) (pieces : List Printed) : State := { s with stdout := s.stdout ++ pieces }

/-- `$C{faint_on} . $_ . $C{faint_off}` -/
def faint (o : Options) (s : State) (l : Line) : List Printed :=
  [s.added o.codes.faintOn, s.line l, s.added o.codes.faintOff]

end State

/-! ### Records -/

/-- The substitutions in a line, in their order: the first and the last character of a class, and
what replaces it. -/
def substitutions (c : Codes) : List (UInt8 × UInt8 × Str) :=
  let faint (s : String) := c.faintOn ++ ascii s ++ c.faintOff
  [(0x01, 0x01, c.boldOn), (0x02, 0x02, c.boldOff), (0x07, 0x07, c.underOn),
    (0x08, 0x08, c.underOff), (0x03, 0x03, faint "[SUPER->]"), (0x04, 0x04, faint "[<-SUPER]"),
    (0x05, 0x05, faint "[SUB->]"), (0x06, 0x06, faint "[<-SUB]"), (0x09, 0x09, faint "[PAGE NO]"),
    (0x0A, 0x0A, faint "[KEYBOARD]"), (0x0B, 0x0B, faint "[STICKY SPACE]"),
    (0x0C, 0x0C, faint "[MAIL MERGE]"), (0x0D, 0x0D, faint "[0D]"), (0x0E, 0x0E, faint "[DATE]"),
    (0x0F, 0x0F, faint "[TIME]"), (0x10, 0x10, faint "[10]"), (0x11, 0x11, faint "[11]"),
    (0x12, 0x12, faint "[12]"), (0x13, 0x13, faint "[13]"), (0x14, 0x14, faint "[14]"),
    (0x15, 0x15, faint "[15]"), (0x16, 0x17, ascii " "), (0x18, 0x18, faint "[8]")]

/-- `$line`, after the substitutions. -/
def substituted (c : Codes) (line : Str) : Str :=
  (substitutions c).foldl (fun line (lo, hi, replacement) =>
    substitute (fun b => lo ≤ b ∧ b ≤ hi) replacement line) line

/-- `$output` of a line of text. -/
def output (o : Options) (alignment : Alignment) (indent : Str) (b2 b3 : UInt8) (line : Str) :
    Str :=
  let output :=
    if alignment = .center then times (ascii " ") ((o.width - line.length) / 2) else indent
  let output :=
    if alignment = .none then output ++ times (ascii " ") (b2 &&& 0x7F).toNat else output
  let line := substituted o.codes line
  output ++ if b3 &&& 0x80 ≠ 0 ∨ indent ≠ [] then line ++ ascii "\n" else line

/-- What is printed for a ruler. -/
def ruler (o : Options) (line : Str) : Str :=
  o.codes.faintOn ++ line ++ o.codes.faintOff ++ ascii "\n"

/-- `$output` of a carriage return. -/
def emptyLine (arg : UInt8) : Str := times (ascii " ") arg.toNat ++ ascii "\n"

namespace State

/-- What becomes of `$output`. -/
def emit (o : Options) (output : Str) (s : State) : State :=
  match s.currentSection with
  | .header => { s with header := s.header ++ [⟨s.offset, output⟩] }
  | .footer => { s with footer := s.footer ++ [⟨s.offset, output⟩] }
  | .bodyTop =>
    let s := s.print (s.header.flatMap (s.faint o))
    { s with currentSection := .body }.print [s.line ⟨s.offset, output⟩]
  | .body => s.print [s.line ⟨s.offset, output⟩]

section
variable {o : Options} {output : Str} {s : State}

theorem emit_of_header (h : s.currentSection = .header) :
    s.emit o output = { s with header := s.header ++ [⟨s.offset, output⟩] } := by
  rw [emit, h]

theorem emit_of_footer (h : s.currentSection = .footer) :
    s.emit o output = { s with footer := s.footer ++ [⟨s.offset, output⟩] } := by
  rw [emit, h]

theorem emit_of_bodyTop (h : s.currentSection = .bodyTop) : s.emit o output =
    { s with
      currentSection := .body
      stdout := s.stdout ++ (s.header.flatMap (s.faint o) ++ [s.line ⟨s.offset, output⟩]) } := by
  rw [emit, h, ← List.append_assoc]
  rfl

theorem emit_of_body (h : s.currentSection = .body) :
    s.emit o output = s.print [s.line ⟨s.offset, output⟩] := by
  rw [emit, h]

end

/-- The record of a line of text. -/
def textRecord (o : Options) (b2 b3 : UInt8) (line : Str) (s : State) : State :=
  if b2 = 0xFF then s.print [s.line ⟨s.offset, ruler o line⟩]
  else s.emit o (output o s.alignment s.indent b2 b3 line)

/-- A new page. -/
def newPage (o : Options) (s : State) : State :=
  let line := o.codes.faintOn ++ ascii "---[ PAGE BREAK ]---"
  s.print [s.added line, s.added (times (ascii "-") (o.width - line.length - 1)),
    s.added (o.codes.faintOff ++ ascii "\n")]

/-- The line with the number of a page. -/
def pageLine (o : Options) (arg : UInt8) (s : State) : List Printed :=
  let line := ascii "---[ PAGE " ++ digits 10 arg.toNat ++ ascii " ]---"
  [s.added o.codes.faintOn, s.added line, s.added (times (ascii "-") (o.width - line.length - 1)),
    s.added (o.codes.faintOff ++ ascii "\n")]

/-- A page break. -/
def pageBreak (o : Options) (arg : UInt8) (s : State) : State :=
  let s := s.print (s.added o.codes.faintOn :: s.footer.map s.line ++ [s.added o.codes.faintOff])
  let s := s.print (s.footer.flatMap (s.faint o))
  let s := s.print (s.pageLine o arg)
  { s with currentSection := .bodyTop }

end State

/-- The commands that the script knows, and those that it ignores. -/
inductive Command where
  | text
  | carriageReturn
  | sectionEnd
  | indent
  | justify
  | unjustify
  | center
  | newPage
  | pageHeader
  | pageFooter
  | pageBreak
  | ignored
  deriving DecidableEq, Repr

/-- The command that a byte stands for. -/
def Command.ofByte (cmd : UInt8) : Command :=
  if cmd = 0x00 then .text
  else if cmd = 0xD0 then .carriageReturn
  else if cmd = 0xD5 ∨ cmd = 0xD6 then .sectionEnd
  else if cmd = 0xDE then .indent
  else if cmd = 0xDF then .justify
  else if cmd = 0xE0 then .unjustify
  else if cmd = 0xE1 then .center
  else if cmd = 0xE9 then .newPage
  else if cmd = 0xEC then .pageHeader
  else if cmd = 0xED then .pageFooter
  else if cmd = 0xF4 then .pageBreak
  else .ignored

/-- The records that are nothing but a command and its argument. -/
def State.command (o : Options) (command : Command) (arg : UInt8) (s : State) : State :=
  match command with
  | .text => s
  | .carriageReturn => s.emit o (emptyLine arg)
  | .sectionEnd => { s with currentSection := .body }
  | .indent => { s with indent := times (ascii " ") arg.toNat }
  | .justify => { s with alignment := .justify }
  | .unjustify => { s with alignment := .none }
  | .center => { s with alignment := .center }
  | .newPage => s.newPage o
  | .pageHeader => { s with currentSection := .header, header := [] }
  | .pageFooter => { s with currentSection := .footer, footer := [] }
  | .pageBreak => s.pageBreak o arg
  | .ignored => s

/-! ### The script -/

/-- `sysread(FILE, $BUFFER, $n)` -/
def sysread (n : ℕ) : Call Stop State Str := do
  let s ← get
  let buffer := s.unread.take n
  set { s with unread := s.unread.drop n, position := s.position + buffer.length }
  pure buffer

/-- The branch of the record loop for a line of text. -/
def readText (o : Options) (arg : UInt8) : Call Stop State Unit := do
  let buffer ← sysread arg.toNat
  let b2 := buffer.getD 0 0
  let b3 := buffer.getD 1 0
  let s ← get
  if b2 ≠ 0xFF ∧ s.alignment = .justify then
    Call.throw (.die "can't handle justify command yet\n")
  else set (s.textRecord o b2 b3 (buffer.drop 2))

/-- What is done about a record that is not the end of the document. -/
def handleRecord (o : Options) (arg cmd : UInt8) : Call Stop State Unit :=
  if Command.ofByte cmd = .text then readText o arg
  else modify (State.command o (Command.ofByte cmd) arg)

/-- The record loop. A round reads two bytes at least. -/
def recordLoop (o : Options) : ℕ → Call Stop State Unit
  | 0 => Call.timeout
  | rounds + 1 => do
    let buffer ← sysread 2
    match buffer with
    | [arg, cmd] =>
      modify fun s => { s with offset := s.position - 2 }
      if cmd = 0xFF ∧ arg = 0xFF then
        modify fun s =>
          if s.unread = [] then s
          else { s with stderr := s.stderr ++ ["awp2txt: there is data after the document"] }
      else
        handleRecord o arg cmd
        recordLoop o rounds
    | _ => pure ()

/-- The script, once the file is open. -/
def awp2txt (o : Options) : Call Stop State Unit := do
  let buffer ← sysread 300
  if (buffer.drop 2).take 3 ≠ [0x00, 0x00, 0x4F] then
    Call.throw (.exit 1 "awp2txt: does not appear to be an appleworks word processor file")
  else
    let s ← get
    recordLoop o (s.unread.length + 1)

/-! ### Reading -/

section
variable {o : Options} {s : State} {rest : Str}

theorem sysread_append {front : Str} {n : ℕ} (h : s.unread = front ++ rest)
    (hn : front.length = n) :
    sysread n s = (.ret front, { s with unread := rest, position := s.position + n }) := by
  subst hn
  rw [sysread, Call.get_bind_apply, Call.set_bind_apply, h, List.take_left, List.drop_left]
  rfl

/-- A line of text that is all there. -/
theorem readText_append {arg b2 b3 : UInt8} {line : Str}
    (h : s.unread = (b2 :: b3 :: line) ++ rest) (harg : line.length + 2 = arg.toNat)
    (halignment : s.alignment ≠ .justify) :
    readText o arg s = (.ret ⟨⟩, { s with
      unread := rest
      position := s.position + (line.length + 2) }.textRecord o b2 b3 line) := by
  have hread := sysread_append h harg
  rw [readText, Call.bind_of_ret hread, Call.get_bind_apply, Call.ite_apply,
    if_neg fun hjustify => halignment hjustify.2, ← harg]
  rfl

/-- A round of the record loop, when there is a record. -/
theorem recordLoop_of_unread {rounds : ℕ} {arg cmd : UInt8} (h : s.unread = arg :: cmd :: rest)
    (hend : ¬ (cmd = 0xFF ∧ arg = 0xFF)) :
    recordLoop o (rounds + 1) s = (handleRecord o arg cmd >>= fun _ => recordLoop o rounds)
      { s with unread := rest, position := s.position + 2, offset := s.position } := by
  have hread : sysread 2 s
      = (.ret [arg, cmd], { s with unread := rest, position := s.position + 2 }) :=
    sysread_append h rfl
  rw [recordLoop, Call.bind_of_ret hread]
  simp only [Call.modify_bind_apply, if_neg hend]
  rfl

/-- The end of the document. -/
theorem recordLoop_of_end {rounds : ℕ} (h : s.unread = 0xFF :: 0xFF :: rest) :
    ∃ t, recordLoop o (rounds + 1) s = (.ret ⟨⟩, t) ∧ t.stdout = s.stdout := by
  have hread : sysread 2 s
      = (.ret [0xFF, 0xFF], { s with unread := rest, position := s.position + 2 }) :=
    sysread_append h rfl
  rw [recordLoop, Call.bind_of_ret hread]
  simp only [Call.modify_bind_apply, Call.ite_apply, Call.modify_apply]
  refine ⟨_, rfl, ?_⟩
  split <;> rfl

/-- The end of the file. -/
theorem recordLoop_of_short {rounds : ℕ} (h : s.unread.length < 2) :
    ∃ t, recordLoop o (rounds + 1) s = (.ret ⟨⟩, t) ∧ t.stdout = s.stdout := by
  have hread : sysread 2 s = (.ret s.unread,
      { s with unread := [], position := s.position + s.unread.length }) := by
    rw [sysread, Call.get_bind_apply, Call.set_bind_apply, List.take_of_length_le (by omega),
      List.drop_of_length_le (by omega)]
    rfl
  rw [recordLoop, Call.bind_of_ret hread]
  match s.unread, h with
  | [], _ => exact ⟨_, rfl, rfl⟩
  | [_], _ => exact ⟨_, rfl, rfl⟩

end

end Prodosfs.AppleWorks
