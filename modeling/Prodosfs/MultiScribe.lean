import Prodosfs.Perl

/-!
# Text out of MultiScribe files

`wpf2txt`. Behind two headers, a MultiScribe file is text in pieces, each of them with a code of
five bytes in front: a `01`, a font, a size, a style, and another `01`. The main loop takes a code
off the front, looks for the `01` of the next one, and takes everything before it for the text of
the code.

```
01 f s y 01  t e x t  01 f s y 01  m o r e
```

`index` says where the next `01` is: at `0` when the text is empty, at `-1` when there is no `01`
left. The loop does not tell the two apart. After an empty text it takes all that is left for text,
with the codes in it, and is done.

A code's own bytes may well be `01`; it is taken off by its length, so that this is no matter.

## Main definitions

* `strip`, `extract`, `clean`, `applyStyle` — the steps of the loop
* `mainLoop`, `wpf2txt`
* `Segment`, `Recovers` — what should come out of the loop

## Main results

* `mainLoop_recovers_iff` — when it does
* `wpf2txt_document` — what is then printed
-/

namespace Prodosfs.MultiScribe

open Perl

/-! ### Options -/

/-- The escape codes for the terminal that the script uses. -/
structure Codes where
  boldOn : Str
  boldOff : Str
  faintOn : Str
  faintOff : Str
  italicOn : Str
  italicOff : Str
  underOn : Str
  underOff : Str
  inverseOn : Str
  inverseOff : Str
  colorOn : Str
  colorOff : Str

/-- `%COLOR` -/
def Codes.color : Codes where
  boldOn := ascii "\x1b[1m"
  boldOff := ascii "\x1b[22m"
  faintOn := ascii "\x1b[2m"
  faintOff := ascii "\x1b[22m"
  italicOn := ascii "\x1b[3m"
  italicOff := ascii "\x1b[23m"
  underOn := ascii "\x1b[4m"
  underOff := ascii "\x1b[24m"
  inverseOn := ascii "\x1b[7m"
  inverseOff := ascii "\x1b[27m"
  colorOn := ascii "\x1b[1;36m"
  colorOff := ascii "\x1b[22;39m"

/-- `%PLAIN` -/
def Codes.plain : Codes := ⟨[], [], [], [], [], [], [], [], [], [], [], []⟩

/-- What the command line and the terminal decide. -/
structure Options where
  codes : Codes
  debug : Bool

/-! ### One round of the main loop -/

/-- A formatting code, but for the bytes around it. -/
structure Formatting where
  font : UInt8
  size : UInt8
  style : UInt8
  deriving DecidableEq, Repr

/-- `s/^([\x01\x02](.)(.)(.)\x01)//s`: the code at the front, and what is behind it. -/
def strip : Str → Option Formatting × Str
  | b :: font :: size :: style :: e :: content =>
    if (b = 1 ∨ b = 2) ∧ e = 1 then (some ⟨font, size, style⟩, content)
    else (none, b :: font :: size :: style :: e :: content)
  | content => (none, content)

/-- The text up to the next code, and what is behind it. -/
def extract (content : Str) : Str × Str :=
  let textEnd := index content 0x01
  let n := if 0 < textEnd then textEnd.toNat else content.length
  (content.take n, content.drop n)

/-- `s/\x00.//g`. The dot stands for any character but a newline. -/
def removePairs : Str → Str
  | b :: c :: text => if b = 0 ∧ c ≠ 10 then removePairs text else b :: removePairs (c :: text)
  | text => text

/-- The text without the bytes that are not for the reader. -/
def clean (text : Str) : Str :=
  let text := substitute (· = 13) (ascii "\n\n") text
  let text := substitute (· = 9) (ascii "        ") text
  let text := whileMatching removePairs text
  whileMatching (substitute (fun c => c ≤ 0x08 ∨ 0x0E ≤ c ∧ c ≤ 0x1F) []) text

/-- `s/(.)/ $1 /g` -/
def widen (text : Str) : Str := text.flatMap fun c => if c = 10 then [c] else [32, c, 32]

/-- A text between two escape codes, if a condition is met. -/
def wrapped (condition : Prop) [Decidable condition] (on off text : Str) : Str :=
  if condition then on ++ text ++ off else text

/-- The style of a code, applied to a text. -/
def applyStyle (c : Codes) (f : Formatting) (text : Str) : Str :=
  let text := wrapped (0 < f.font) c.colorOn c.colorOff text
  let text := if f.size = 0x02 then widen text else text
  let text := wrapped (f.style &&& 0x01 ≠ 0) c.boldOn c.boldOff text
  let text := wrapped (f.style &&& 0x02 ≠ 0) c.italicOn c.italicOff text
  let text := wrapped (f.style &&& 0x04 ≠ 0) c.underOn c.underOff text
  let text := wrapped (f.style &&& 0x08 ≠ 0) c.faintOn c.faintOff text
  let text := wrapped (f.style &&& 0x10 ≠ 0) c.boldOn c.boldOff text
  wrapped (f.style &&& 0x80 ≠ 0) c.inverseOn c.inverseOff text

/-- A byte of the code, for debugging. -/
def leadByte (byte last : UInt8) : Str :=
  if byte = 0 ∨ byte = last then ascii "." else ascii "\\x" ++ format02X byte.toNat

/-- The code, for debugging: the bytes that have changed. -/
def lead (c : Codes) (last f : Formatting) : Str :=
  let lead := leadByte f.font last.font ++ leadByte f.size last.size ++ leadByte f.style last.style
  c.faintOn ++ ascii "[" ++ (if lead = ascii "..." then [] else lead) ++ ascii "]" ++ c.faintOff

/-- What a round has done. -/
structure Round where
  /-- `$formatting`, if there is a code. -/
  formatting : Option Formatting
  /-- `$text`, as it was cut from the content. -/
  text : Str
  /-- What is printed for debugging. -/
  lead : Str
  /-- What is printed. -/
  styled : Str
  deriving DecidableEq, Repr

/-- What is left of a round for the next one. -/
structure Memory where
  /-- `@last_byte` -/
  lastByte : Formatting := ⟨0, 0, 0⟩
  /-- `$1` to `$4`. They are those of the last match that was found, so that a code that is not
  matched leaves them as they were, and any other substitution that finds something, which has no
  groups, leaves them undefined. -/
  captured : Option Formatting := none
  deriving DecidableEq, Repr

/-- The body of the main loop, with what is left of the content. -/
def round (o : Options) (m : Memory) (content : Str) : Round × Str :=
  let (matched, content) := strip content
  let formatting := matched <|> m.captured
  let (text, content) := extract content
  match formatting with
  | some f =>
    (⟨some f, text, if o.debug then lead o.codes m.lastByte f else [],
      applyStyle o.codes f (clean text)⟩, content)
  | none => (⟨none, text, [], clean text⟩, content)

/-- The memory after a round. -/
def Memory.next (o : Options) (m : Memory) (r : Round) : Memory where
  lastByte := if o.debug then r.formatting.getD m.lastByte else m.lastByte
  captured := if clean r.text = r.text then r.formatting else none

theorem length_strip_le (content : Str) : (strip content).2.length ≤ content.length := by
  rw [strip.eq_def]
  split
  · split
    · simp only [List.length_cons]
      omega
    · exact le_rfl
  · exact le_rfl

/-- Something is left behind the text only if the text is not empty. -/
theorem length_extract_lt {content : Str} (h : content ≠ []) :
    (extract content).2.length < content.length := by
  have hpos : 0 < content.length := List.length_pos_of_ne_nil h
  rw [extract, List.length_drop]
  split <;> omega

theorem round_snd (o : Options) (m : Memory) (content : Str) :
    (round o m content).2 = (extract (strip content).2).2 := by
  rw [round]
  rcases strip content with ⟨matched, content'⟩
  rcases h : (matched <|> m.captured) with _ | f <;> simp only [h]

/-- **Every round takes something off**, whatever the content is. -/
theorem length_round_lt (o : Options) (m : Memory) {content : Str} (h : content ≠ []) :
    (round o m content).2.length < content.length := by
  rw [round_snd]
  by_cases hstrip : (strip content).2 = []
  · rw [hstrip]
    exact List.length_pos_of_ne_nil h
  · exact lt_of_lt_of_le (length_extract_lt hstrip) (length_strip_le content)

/-- The main loop. -/
def mainLoop (o : Options) (m : Memory) (content : Str) : List Round :=
  if h : content = [] then []
  else
    have := length_round_lt o m h
    let r := round o m content
    r.1 :: mainLoop o (m.next o r.1) r.2
termination_by content.length

theorem mainLoop_nil (o : Options) (m : Memory) : mainLoop o m [] = [] := by
  rw [mainLoop, dif_pos rfl]

theorem mainLoop_of_ne (o : Options) (m : Memory) {content : Str} (h : content ≠ []) :
    mainLoop o m content = (round o m content).1 ::
      mainLoop o (m.next o (round o m content).1) (round o m content).2 := by
  rw [mainLoop, dif_neg h]

/-! ### The script -/

/-- `/^\x80\x19(?:.)\x00\x01\x00\x19\x01\x86\x19\x0a\x01\x14\x14/` -/
def isHeader : Str → Bool
  | 0x80 :: 0x19 :: c :: rest => c != 10 && rest.take 11 ==
      [0x00, 0x01, 0x00, 0x19, 0x01, 0x86, 0x19, 0x0A, 0x01, 0x14, 0x14]
  | _ => false

/-- What the script prints for a file. -/
def wpf2txt (o : Options) (strerror : String) (file : Str) : Except Stop Str :=
  let content := file.take (2 ^ 24 - 1)
  if content = [] then .error (.die ("wpf2txt: unable to read -- " ++ strerror))
  else if isHeader (content.take 0x100) = false then
    .error (.exit 1 "wpf2txt: does not appear to be an multiscribe file")
  else
    .ok ((mainLoop o {} ((content.drop 0x100).drop 0x27)).flatMap (fun r => r.lead ++ r.styled)
      ++ ascii "\n")

/-! ### Segments -/

/-- A code and its text. -/
structure Segment where
  formatting : Formatting
  text : Str
  /-- There is no code in the text. -/
  no_code : 1 ∉ text

/-- A segment in the file. -/
def Segment.bytes (s : Segment) : Str :=
  1 :: s.formatting.font :: s.formatting.size :: s.formatting.style :: 1 :: s.text

/-- The body of a document. -/
def body (segments : List Segment) : Str := segments.flatMap Segment.bytes

/-- The rounds are for the segments: one each, in order, for the code and the text of the segment,
and with the text printed in the style of the code. -/
def Recovers (o : Options) (segments : List Segment) (rounds : List Round) : Prop :=
  rounds.map (fun r => (r.formatting, r.text, r.styled)) = segments.map fun s =>
    (some s.formatting, s.text, applyStyle o.codes s.formatting (clean s.text))

theorem recovers_cons_iff {o : Options} {s : Segment} {segments : List Segment} {r : Round}
    {rounds : List Round} : Recovers o (s :: segments) (r :: rounds) ↔
      (r.formatting = some s.formatting ∧ r.text = s.text ∧
        r.styled = applyStyle o.codes s.formatting (clean s.text)) ∧
      Recovers o segments rounds := by
  rw [Recovers, Recovers, List.map_cons, List.map_cons, List.cons.injEq, Prod.mk.injEq,
    Prod.mk.injEq]

/-- The code of a segment is taken off, whatever its bytes are. -/
theorem strip_bytes (s : Segment) (rest : Str) :
    strip (s.bytes ++ rest) = (some s.formatting, s.text ++ rest) := by
  simp [Segment.bytes, strip]

/-- The text of a segment is taken up to the next code. -/
theorem extract_append {text rest : Str} (hcode : 1 ∉ text) (hne : text ≠ []) :
    extract (text ++ 1 :: rest) = (text, 1 :: rest) := by
  have hpos : (0 : ℤ) < text.length := by exact_mod_cast List.length_pos_of_ne_nil hne
  rw [extract, index_append hcode]
  simp only [if_pos hpos, Int.toNat_natCast, List.take_left, List.drop_left]

/-- The last text is taken to the end, empty or not. -/
theorem extract_last {text : Str} (hcode : 1 ∉ text) : extract text = (text, []) := by
  rw [extract, index_of_not_mem hcode]
  simp only [if_neg (show ¬ (0 : ℤ) < -1 by decide), List.take_length, List.drop_length]

/-- **An empty text takes the codes behind it along.** -/
theorem extract_code (rest : Str) : extract (1 :: rest) = (1 :: rest, []) := by
  have hindex : index (1 :: rest) 1 = 0 := index_append (s := []) List.not_mem_nil
  rw [extract, hindex]
  simp only [if_neg (lt_irrefl (0 : ℤ)), List.take_length, List.drop_length]

section
variable {o : Options}

/-- A round that begins with a code. -/
theorem round_bytes (m : Memory) (s : Segment) {rest text content : Str}
    (h : extract (s.text ++ rest) = (text, content)) :
    round o m (s.bytes ++ rest)
      = (⟨some s.formatting, text, if o.debug then lead o.codes m.lastByte s.formatting else [],
          applyStyle o.codes s.formatting (clean text)⟩, content) := by
  simp only [round, strip_bytes, h]
  rfl

/-- The main loop on a segment and what follows it. -/
theorem mainLoop_bytes (m : Memory) (s : Segment) {rest text content : Str}
    (h : extract (s.text ++ rest) = (text, content)) :
    ∃ r m', mainLoop o m (s.bytes ++ rest) = r :: mainLoop o m' content ∧
      r.formatting = some s.formatting ∧ r.text = text ∧
      r.styled = applyStyle o.codes s.formatting (clean text) := by
  have hne : s.bytes ++ rest ≠ [] := by simp [Segment.bytes]
  rw [mainLoop_of_ne o m hne, round_bytes m s h]
  exact ⟨_, _, rfl, rfl, rfl, rfl⟩

/-- **The segments are recovered if and only if none but the last has an empty text.** The induction
is on the segments; a text that is empty is wrong at once if there is a code behind it. -/
theorem recovers_iff (segments : List Segment) : ∀ m : Memory,
    Recovers o segments (mainLoop o m (body segments)) ↔
      ∀ s ∈ segments.dropLast, s.text ≠ [] := by
  induction segments with
  | nil =>
    intro m
    rw [body, List.flatMap_nil, mainLoop_nil]
    simp [Recovers]
  | cons s segments ih =>
    intro m
    rw [body, List.flatMap_cons, ← body]
    cases segments with
    | nil =>
      have hextract : extract (s.text ++ body []) = (s.text, []) := by
        rw [body, List.flatMap_nil, List.append_nil]
        exact extract_last s.no_code
      obtain ⟨r, m', hloop, hcode, htext, hstyled⟩ := mainLoop_bytes (o := o) m s hextract
      rw [hloop, mainLoop_nil, recovers_cons_iff]
      exact iff_of_true ⟨⟨hcode, htext, hstyled⟩, rfl⟩ (by simp)
    | cons s' segments =>
      obtain ⟨tail, htail⟩ : ∃ tail, body (s' :: segments) = 1 :: tail := ⟨_, rfl⟩
      rw [List.dropLast_cons_cons, List.forall_mem_cons]
      by_cases hempty : s.text = []
      · have hextract : extract (s.text ++ body (s' :: segments)) = (1 :: tail, []) := by
          rw [hempty, htail]
          exact extract_code tail
        obtain ⟨r, m', hloop, -, htext, -⟩ := mainLoop_bytes (o := o) m s hextract
        rw [hloop, recovers_cons_iff]
        refine iff_of_false (fun h => ?_) fun h => h.1 hempty
        exact List.cons_ne_nil 1 tail (htext.symm.trans (h.1.2.1.trans hempty))
      · have hextract : extract (s.text ++ body (s' :: segments))
            = (s.text, body (s' :: segments)) := by
          rw [htail]
          exact extract_append s.no_code hempty
        obtain ⟨r, m', hloop, hcode, htext, hstyled⟩ := mainLoop_bytes (o := o) m s hextract
        rw [hloop, recovers_cons_iff, ih m']
        constructor
        · rintro ⟨-, hrest⟩
          exact ⟨hempty, hrest⟩
        · rintro ⟨-, hrest⟩
          exact ⟨⟨hcode, htext, hstyled⟩, hrest⟩

theorem lead_round (hdebug : o.debug = false) (m : Memory) (content : Str) :
    (round o m content).1.lead = [] := by
  rw [round]
  rcases strip content with ⟨matched, content'⟩
  rcases h : (matched <|> m.captured) with _ | f <;> simp [h, hdebug]

/-- Codes are printed for debugging only. -/
theorem lead_of_mem_mainLoop (hdebug : o.debug = false) (n : ℕ) : ∀ (m : Memory) {content : Str},
    content.length ≤ n → ∀ r ∈ mainLoop o m content, r.lead = [] := by
  induction n with
  | zero =>
    intro m content hlen
    rw [List.length_eq_zero_iff.mp (Nat.le_zero.mp hlen), mainLoop_nil]
    exact fun r hr => absurd hr List.not_mem_nil
  | succ n ih =>
    intro m content hlen
    by_cases hne : content = []
    · rw [hne, mainLoop_nil]
      exact fun r hr => absurd hr List.not_mem_nil
    · have hlt := length_round_lt o m hne
      rw [mainLoop_of_ne o m hne, List.forall_mem_cons]
      exact ⟨lead_round hdebug m content, ih _ (by omega)⟩

end

/-- **When the main loop of `wpf2txt` recovers the segments**: if and only if none but the last has
an empty text. It comes to its end for any content. -/
theorem mainLoop_recovers_iff (o : Options) (segments : List Segment) :
    Recovers o segments (mainLoop o {} (body segments)) ↔
      ∀ s ∈ segments.dropLast, s.text ≠ [] :=
  recovers_iff segments {}

/-- Two codes in a row, and an `A` in bold. -/
def adjacentCodes : List Segment :=
  [⟨⟨0, 0, 0⟩, [], List.not_mem_nil⟩, ⟨⟨0, 0, 1⟩, ascii "A", by decide⟩]

/-- The second code becomes text. -/
theorem not_recovers_adjacentCodes :
    ¬ Recovers ⟨.plain, false⟩ adjacentCodes
      (mainLoop ⟨.plain, false⟩ {} (body adjacentCodes)) := by
  have hbody : body adjacentCodes ≠ [] := by decide
  have htext : (round ⟨.plain, false⟩ {} (body adjacentCodes)).1.text = [1, 0, 0, 1, 1, 65] := rfl
  intro h
  rw [mainLoop_of_ne _ _ hbody, adjacentCodes, recovers_cons_iff] at h
  exact absurd (htext.symm.trans h.1.2.1) (by decide)

/-! ### Whole documents -/

/-- What is printed for a segment. -/
def Segment.styled (o : Options) (s : Segment) : Str :=
  applyStyle o.codes s.formatting (clean s.text)

theorem flatMap_of_recovers {o : Options} {segments : List Segment} {rounds : List Round}
    (h : Recovers o segments rounds) (hlead : ∀ r ∈ rounds, r.lead = []) :
    (rounds.flatMap fun r => r.lead ++ r.styled) = segments.flatMap (Segment.styled o) := by
  have hstyled : rounds.map Round.styled = segments.map (Segment.styled o) := by
    have hmap := congrArg (List.map fun x => x.2.2) h
    rwa [List.map_map, List.map_map] at hmap
  have hprinted : (rounds.flatMap fun r => r.lead ++ r.styled) = rounds.flatMap Round.styled :=
    List.flatMap_congr fun r hr => by rw [hlead r hr, List.nil_append]
  rw [hprinted, List.flatMap_def, hstyled, ← List.flatMap_def]

/-- **A document whose texts are not empty** is printed segment by segment, each in its style. -/
theorem wpf2txt_document {o : Options} (hdebug : o.debug = false) (strerror : String)
    {header margins : Str} (hheader : header.length = 0x100) (hmagic : isHeader header)
    (hmargins : margins.length = 0x27) {segments : List Segment}
    (hsize : (header ++ (margins ++ body segments)).length < 2 ^ 24)
    (hne : ∀ s ∈ segments.dropLast, s.text ≠ []) :
    wpf2txt o strerror (header ++ (margins ++ body segments))
      = .ok (segments.flatMap (Segment.styled o) ++ ascii "\n") := by
  have hnot : header ++ (margins ++ body segments) ≠ [] := by
    refine List.ne_nil_of_length_pos ?_
    rw [List.length_append]
    omega
  have hlead := lead_of_mem_mainLoop hdebug _ {} (le_refl (body segments).length)
  rw [wpf2txt, List.take_of_length_le (Nat.le_sub_one_of_lt hsize), if_neg hnot,
    List.take_left' hheader, if_neg (by rw [hmagic]; decide), List.drop_left' hheader,
    List.drop_left' hmargins, flatMap_of_recovers ((recovers_iff segments {}).mpr hne) hlead]

theorem removePairs_of_not_mem {text : Str} (h : 0 ∉ text) : removePairs text = text := by
  fun_induction removePairs text with
  | case1 b c text hpair ih => exact absurd (hpair.1 ▸ List.mem_cons_self) h
  | case2 b c text hpair ih => rw [ih (List.not_mem_of_not_mem_cons h)]
  | case3 text => rfl

/-- A text without bytes that are not for the reader stays as it is. -/
theorem clean_of_printable {text : Str} (h : ∀ c ∈ text, 32 ≤ c) : clean text = text := by
  have hsmall : ∀ p : UInt8 → Bool, (∀ c, 32 ≤ c → p c = false) → ∀ replacement,
      substitute p replacement text = text :=
    fun p hp _ => substitute_of_not_mem fun c hc => hp c (h c hc)
  have hzero : 0 ∉ text := fun h0 => absurd (h 0 h0) (by decide)
  have hreturn : ∀ c : UInt8, 32 ≤ c → decide (c = 13) = false := forall_byte (by decide +kernel)
  have htab : ∀ c : UInt8, 32 ≤ c → decide (c = 9) = false := forall_byte (by decide +kernel)
  have hcontrol : ∀ c : UInt8, 32 ≤ c → decide (c ≤ 0x08 ∨ 0x0E ≤ c ∧ c ≤ 0x1F) = false :=
    forall_byte (by decide +kernel)
  rw [clean, hsmall _ hreturn, hsmall _ htab, whileMatching_of_eq (removePairs_of_not_mem hzero)]
  exact whileMatching_of_eq (hsmall _ hcontrol _)

end Prodosfs.MultiScribe
