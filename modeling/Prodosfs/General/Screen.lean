import Mathlib.Data.Nat.Notation
import Mathlib.Tactic.Common

/-!
# Text on a terminal

What a terminal shows for the bytes it is sent. A byte is shown as the *pen* says. Bytes behind an
`ESC` are not shown but make a sequence, of which there are two kinds:

```
ESC [ 1 ; 3 6 m      numbers, between `ESC [` and a letter
ESC ( B              bytes from `20` to `2F`, and a last one
```

The first kind with an `m` at its end changes the pen, one number after the other. All the other
sequences are taken for ones that have nothing to do with the pen.

A text that is put between two codes, one for something on and one for it off, may have other such
texts in it. The codes do not remember what was on before; the one for bold off also ends what is
faint. What remains true is that nothing is on behind the text that was not on before it
(`Pen.Within`), and so that a text which begins with the normal pen ends with it.

## Main definitions

* `Pen`, `Screen.feed`, `Screen.run`
* `Screen.Shows` — text that is shown from one pen to another
* `Screen.Selects` — a code that does nothing but change the pen
* `Screen.Pair` — a code for something on, and one for it off
* `Screen.Closed` — text that leaves nothing on
* `Screen.Reads` — the characters that are shown, however they are

## Main results

* `Screen.Shows.append`, `Screen.Closed.between` — texts put together
-/

/-- How bytes are shown. -/
structure Pen where
  bold : Bool := false
  faint : Bool := false
  italic : Bool := false
  under : Bool := false
  inverse : Bool := false
  /-- Which of the eight colours, if it is not the usual one. -/
  colour : Option ℕ := none
  deriving DecidableEq, Repr

namespace Pen

/-- The pen in which nothing is on. -/
def normal : Pen := {}

/-- A number of a sequence that ends in `m`. -/
def select (p : Pen) : ℕ → Pen
  | 0 => normal
  | 1 => { p with bold := true }
  | 2 => { p with faint := true }
  | 3 => { p with italic := true }
  | 4 => { p with under := true }
  | 7 => { p with inverse := true }
  | 22 => { p with bold := false, faint := false }
  | 23 => { p with italic := false }
  | 24 => { p with under := false }
  | 27 => { p with inverse := false }
  | 39 => { p with colour := none }
  | n => if 30 ≤ n ∧ n < 38 then { p with colour := some (n - 30) } else p

/-- What may be on in a pen. -/
inductive Attribute where
  | bold
  | faint
  | italic
  | under
  | inverse
  | colour (n : ℕ)

/-- It is on. -/
def Has (p : Pen) : Attribute → Prop
  | .bold => p.bold = true
  | .faint => p.faint = true
  | .italic => p.italic = true
  | .under => p.under = true
  | .inverse => p.inverse = true
  | .colour n => p.colour = some n

/-- Nothing is on that is not on in another pen. -/
def Within (q p : Pen) : Prop := ∀ a, q.Has a → p.Has a

theorem Within.refl (p : Pen) : p.Within p := fun _ h => h

/-- Nothing is on in the normal pen. -/
theorem Within.eq_normal {q : Pen} (h : q.Within normal) : q = normal := by
  obtain ⟨bold, faint, italic, under, inverse, colour⟩ := q
  have hbold := h .bold
  have hfaint := h .faint
  have hitalic := h .italic
  have hunder := h .under
  have hinverse := h .inverse
  have hcolour := fun n => h (.colour n)
  simp only [normal, Has, Bool.false_eq_true, imp_false, Bool.not_eq_true, reduceCtorEq] at *
  rw [hbold, hfaint, hitalic, hunder, hinverse, Option.eq_none_iff_forall_ne_some.mpr hcolour]

end Pen

/-- A byte, and how it is shown. -/
abbrev Cell := UInt8 × Pen

namespace Screen

/-- What the next byte is read as. -/
inductive Mode where
  | text
  /-- Behind `ESC`. -/
  | escape
  /-- Behind `ESC` and more. -/
  | between
  /-- Behind `ESC [` and numbers, of which the last one comes first. -/
  | control (numbers : List ℕ)
  deriving DecidableEq, Repr

end Screen

/-- A terminal, but for the place at which it shows the next byte. -/
structure Screen where
  pen : Pen := .normal
  mode : Screen.Mode := .text
  deriving DecidableEq, Repr

namespace Screen

/-- Another digit of the last number. -/
def digit (b : UInt8) : List ℕ → List ℕ
  | n :: numbers => (10 * n + (b.toNat - 48)) :: numbers
  | [] => [b.toNat - 48]

/-- One byte: what is shown for it, and the terminal after it. -/
def feed (s : Screen) (b : UInt8) : List Cell × Screen :=
  if b = 0x1B then ([], { s with mode := .escape })
  else
    match s.mode with
    | .text => ([(b, s.pen)], s)
    | .escape =>
      if b = 0x5B then ([], { s with mode := .control [0] })
      else if 0x20 ≤ b ∧ b ≤ 0x2F then ([], { s with mode := .between })
      else ([], { s with mode := .text })
    | .between =>
      if 0x20 ≤ b ∧ b ≤ 0x2F then ([], s) else ([], { s with mode := .text })
    | .control numbers =>
      if 0x30 ≤ b ∧ b ≤ 0x39 then ([], { s with mode := .control (digit b numbers) })
      else if b = 0x3B then ([], { s with mode := .control (0 :: numbers) })
      else if b = 0x6D then ([], { pen := numbers.reverse.foldl Pen.select s.pen, mode := .text })
      else if 0x20 ≤ b ∧ b < 0x40 then ([], s)
      else ([], { s with mode := .text })

/-- Some bytes, one after the other. -/
def run (s : Screen) : List UInt8 → List Cell × Screen
  | [] => ([], s)
  | b :: bytes =>
    let (cells, t) := s.feed b
    let (more, u) := t.run bytes
    (cells ++ more, u)

theorem run_append (bytes rest : List UInt8) : ∀ s : Screen, s.run (bytes ++ rest)
    = ((s.run bytes).1 ++ ((s.run bytes).2.run rest).1, ((s.run bytes).2.run rest).2) := by
  induction bytes with
  | nil => exact fun s => rfl
  | cons b bytes ih =>
    intro s
    simp only [List.cons_append, run, ih, List.append_assoc]

variable {bytes rest on off : List UInt8} {p q r : Pen} {cells more : List Cell}

/-! ### Texts -/

/-- The bytes are shown like this, with one pen before them and another one behind. -/
def Shows (bytes : List UInt8) (p q : Pen) (cells : List Cell) : Prop :=
  (⟨p, .text⟩ : Screen).run bytes = (cells, ⟨q, .text⟩)

instance : Decidable (Shows bytes p q cells) := inferInstanceAs (Decidable (_ = _))

theorem Shows.nil (p : Pen) : Shows [] p p [] := rfl

theorem Shows.append (h : Shows bytes p q cells) (hrest : Shows rest q r more) :
    Shows (bytes ++ rest) p r (cells ++ more) := by
  rw [Shows, run_append, show (⟨p, .text⟩ : Screen).run bytes = _ from h]
  simp only [show (⟨q, .text⟩ : Screen).run rest = _ from hrest]

/-- Bytes that belong to no sequence. -/
theorem Shows.text (h : 0x1B ∉ bytes) (p : Pen) : Shows bytes p p (bytes.map (·, p)) := by
  induction bytes with
  | nil => exact .nil p
  | cons b bytes ih =>
    have hb : b ≠ 0x1B := fun heq => h (heq ▸ List.mem_cons_self)
    have hfeed : (⟨p, .text⟩ : Screen).feed b = ([(b, p)], ⟨p, .text⟩) := if_neg hb
    have hrest := ih (List.not_mem_of_not_mem_cons h)
    rw [Shows, run, hfeed]
    simp only [show (⟨p, .text⟩ : Screen).run bytes = _ from hrest]
    rfl

/-! ### Codes -/

/-- The bytes change the pen and are not shown. -/
def Selects (code : List UInt8) (change : Pen → Pen) : Prop := ∀ p, Shows code p (change p) []

/-- Two codes, the second of which switches off what the first one has switched on, and perhaps
more than that. -/
structure Pair (on off : List UInt8) (change : Pen → Pen) : Prop where
  on : Selects on change
  off : ∃ back, Selects off back ∧ ∀ p q, Pen.Within q (change p) → Pen.Within (back q) p

/-- The bytes are shown like this, in whichever pen they are begun, and leave nothing on behind
them. -/
def Closed (bytes : List UInt8) (shown : Pen → List Cell) : Prop :=
  ∀ p, ∃ q, Shows bytes p q (shown p) ∧ q.Within p

variable {change : Pen → Pen} {shown : Pen → List Cell}

theorem Closed.of_shows (h : ∀ p, Shows bytes p p (shown p)) : Closed bytes shown :=
  fun p => ⟨p, h p, .refl p⟩

/-- **A text between two codes.** -/
theorem Closed.between (h : Closed bytes shown) (hpair : Pair on off change) :
    Closed (on ++ bytes ++ off) (shown ∘ change) := by
  intro p
  obtain ⟨back, hoff, hback⟩ := hpair.off
  obtain ⟨q, hshows, hq⟩ := h (change p)
  have hall := ((hpair.on p).append hshows).append (hoff q)
  rw [List.nil_append, List.append_nil] at hall
  exact ⟨back q, hall, hback p q hq⟩

/-- **In the normal pen** nothing is left of a text that leaves nothing on. -/
theorem Closed.normal (h : Closed bytes shown) : Shows bytes .normal .normal (shown .normal) := by
  obtain ⟨q, hshows, hq⟩ := h .normal
  rwa [hq.eq_normal] at hshows

/-! ### The characters alone -/

/-- The bytes are shown as these characters, in whichever pen they are begun. -/
def Reads (bytes text : List UInt8) : Prop :=
  ∀ p, ∃ q cells, Shows bytes p q cells ∧ cells.map Prod.fst = text

theorem Reads.nil : Reads [] [] := fun p => ⟨p, [], .nil p, rfl⟩

theorem Reads.text (h : 0x1B ∉ bytes) : Reads bytes bytes :=
  fun p => ⟨p, _, .text h p, by simp [Function.comp_def]⟩

theorem Selects.reads (h : Selects on change) : Reads on [] := fun p => ⟨_, [], h p, rfl⟩

theorem Reads.append {text more : List UInt8} (h : Reads bytes text) (hrest : Reads rest more) :
    Reads (bytes ++ rest) (text ++ more) := by
  intro p
  obtain ⟨q, cells, hshows, htext⟩ := h p
  obtain ⟨r, cells', hshows', hmore⟩ := hrest q
  exact ⟨r, cells ++ cells', hshows.append hshows', by rw [List.map_append, htext, hmore]⟩

/-- An `ESC` is never shown. -/
theorem not_mem_run (bytes : List UInt8) : ∀ s : Screen, 0x1B ∉ (s.run bytes).1.map Prod.fst := by
  induction bytes with
  | nil => exact fun s => List.not_mem_nil
  | cons b bytes ih =>
    intro s
    have hfeed : 0x1B ∉ (s.feed b).1.map Prod.fst := by
      by_cases hb : b = 0x1B
      · simp [feed, hb]
      · rw [feed, if_neg hb]
        cases s.mode with
        | text => simpa using Ne.symm hb
        | escape => split_ifs <;> simp
        | between => split_ifs <;> simp
        | control numbers => split_ifs <;> simp
    rw [run]
    simp only [List.map_append, List.mem_append, not_or]
    exact ⟨hfeed, ih _⟩

/-! ### Some codes -/

/-- `ESC [ 22 m` -/
theorem selects_bold_off :
    Selects [27, 91, 50, 50, 109] (fun p => { p with bold := false, faint := false }) :=
  fun _ => rfl

/-- `ESC [ 24 m` -/
theorem selects_under_off : Selects [27, 91, 50, 52, 109] (fun p => { p with under := false }) :=
  fun _ => rfl

/-- `ESC [ 1 m`, `ESC [ 22 m` -/
theorem pair_bold : Pair [27, 91, 49, 109] [27, 91, 50, 50, 109]
    (fun p => { p with bold := true }) where
  on _ := rfl
  off := ⟨_, selects_bold_off, fun p q h a => by
    have := h a
    cases a <;> simp_all [Pen.Has]⟩

/-- `ESC [ 2 m`, `ESC [ 22 m` -/
theorem pair_faint : Pair [27, 91, 50, 109] [27, 91, 50, 50, 109]
    (fun p => { p with faint := true }) where
  on _ := rfl
  off := ⟨_, selects_bold_off, fun p q h a => by
    have := h a
    cases a <;> simp_all [Pen.Has]⟩

/-- `ESC [ 3 m`, `ESC [ 23 m` -/
theorem pair_italic : Pair [27, 91, 51, 109] [27, 91, 50, 51, 109]
    (fun p => { p with italic := true }) where
  on _ := rfl
  off := ⟨fun q => { q with italic := false }, fun _ => rfl, fun p q h a => by
    have := h a
    cases a <;> simp_all [Pen.Has]⟩

/-- `ESC [ 4 m`, `ESC [ 24 m` -/
theorem pair_under : Pair [27, 91, 52, 109] [27, 91, 50, 52, 109]
    (fun p => { p with under := true }) where
  on _ := rfl
  off := ⟨_, selects_under_off, fun p q h a => by
    have := h a
    cases a <;> simp_all [Pen.Has]⟩

/-- `ESC [ 7 m`, `ESC [ 27 m` -/
theorem pair_inverse : Pair [27, 91, 55, 109] [27, 91, 50, 55, 109]
    (fun p => { p with inverse := true }) where
  on _ := rfl
  off := ⟨fun q => { q with inverse := false }, fun _ => rfl, fun p q h a => by
    have := h a
    cases a <;> simp_all [Pen.Has]⟩

/-- `ESC [ 1 ; 36 m`, `ESC [ 22 ; 39 m` -/
theorem pair_colour : Pair [27, 91, 49, 59, 51, 54, 109] [27, 91, 50, 50, 59, 51, 57, 109]
    (fun p => { p with bold := true, colour := some 6 }) where
  on _ := rfl
  off := ⟨fun q => { q with bold := false, faint := false, colour := none }, fun _ => rfl,
    fun p q h a => by
      have := h a
      cases a <;> simp_all [Pen.Has]⟩

end Screen
