import Prodosfs.Serving

/-!
# One open file among others

Many programs use the file system at a time, and it serves them with as many threads as it likes.
None of them sees the others: what is done with an open file, and what comes of it, is a history of
this file alone, whatever happens between its actions.

A program that copies a file reads it piece by piece, the last piece being a full buffer as all the
others, and cuts the result to the size that `getattr` has told it.

## Main definitions

* `Service.about` — the actions of one open file
* `copyActions` — a file is opened, read piece by piece, and closed

## Main results

* `observer_about` — an open file has a history of its own
* `copied` — a copy is complete
-/

namespace Prodosfs

/-- The action is one of the open file. The second half of a read is one if the first half was. -/
def Service.about (fi : ℕ) (t : Service) : ℕ × Action → Bool
  | (_, .getattr _ _) => false
  | (_, .opens _ fi') => fi' == fi
  | (_, .read _ fi' _ _) => fi' == fi
  | (thread, .readOn) => (t.reading thread).any fun reading => reading.1.fi == fi
  | (_, .release _ fi') => fi' == fi
  | (_, .getxattr _ _ _) => false
  | (_, .listxattr _ _) => false
  | (_, .opendir _ fi') => fi' == fi
  | (_, .readdir fi' _) => fi' == fi
  | (_, .releasedir fi') => fi' == fi

/-- The states are the same as far as the open file goes, and in the second one there is nothing
else under way. -/
structure SameFile (fi : ℕ) (t t' : Service) : Prop where
  opened : t'.opened fi = t.opened fi
  reading : ∀ thread,
    t'.reading thread = (t.reading thread).filter fun reading => reading.1.fi == fi

namespace SameFile

variable {fi thread : ℕ} {t t' : Service}

theorem start (fi : ℕ) : SameFile fi .start .start := ⟨rfl, fun _ => rfl⟩

theorem idle (h : SameFile fi t t') (hidle : t.reading thread = none) :
    t'.reading thread = none := by
  rw [h.reading, hidle]
  rfl

theorem quiet (h : SameFile fi t t') (hquiet : t.Quiet fi) : t'.Quiet fi := by
  intro thread r off hreading
  rw [h.reading, Option.filter_eq_some_iff] at hreading
  exact hquiet thread r off hreading.1

theorem of_about_readOn (h : SameFile fi t t') (habout : t.about fi (thread, .readOn)) :
    t'.reading thread = t.reading thread := by
  rw [h.reading]
  cases hreading : t.reading thread with
  | none => rfl
  | some reading =>
    rw [Service.about, hreading] at habout
    exact Option.filter_some_pos habout

/-- What becomes of the open file itself. -/
theorem stored (h : SameFile fi t t') (file : Option OpenFile) :
    SameFile fi (t.stored fi file) (t'.stored fi file) :=
  ⟨by simp, h.reading⟩

/-- What becomes of others. -/
theorem stored_other (h : SameFile fi t t') {fi' : ℕ} (hne : fi' ≠ fi) (file : Option OpenFile) :
    SameFile fi (t.stored fi' file) t' := by
  refine ⟨?_, h.reading⟩
  rw [Service.stored_opened, Function.update_of_ne hne.symm, h.opened]

/-- A read of the open file begins or ends. -/
theorem halfway (h : SameFile fi t t') {reading : Option (Reading × ℕ)}
    (hreading : (reading.filter fun reading => reading.1.fi == fi) = reading) :
    SameFile fi (t.halfway thread reading) (t'.halfway thread reading) := by
  refine ⟨h.opened, fun thread' => ?_⟩
  rw [Service.halfway_reading, Service.halfway_reading]
  by_cases hthread : thread' = thread
  · rw [hthread, Function.update_self, Function.update_self, hreading]
  · rw [Function.update_of_ne hthread, Function.update_of_ne hthread]
    exact h.reading thread'

/-- A read of another one. -/
theorem halfway_other (h : SameFile fi t t') {reading : Option (Reading × ℕ)}
    (hreading : (reading.filter fun reading => reading.1.fi == fi) = none)
    (hidle : t'.reading thread = none) : SameFile fi (t.halfway thread reading) t' := by
  refine ⟨h.opened, fun thread' => ?_⟩
  rw [Service.halfway_reading]
  by_cases hthread : thread' = thread
  · rw [hthread, Function.update_self, hreading, hidle]
  · rw [Function.update_of_ne hthread]
    exact h.reading thread'

end SameFile

section
variable {m : Mount} {fuel fi : ℕ} {t t' : Service}

theorem SameFile.meant (h : SameFile fi t t') {i : ℕ × Action} (habout : t.about fi i)
    (hmeant : Service.Meant fuel t i) : Service.Meant fuel t' i := by
  obtain ⟨thread, action⟩ := i
  cases action with
  | getattr path st => cases habout
  | opens path fi' =>
    obtain rfl : fi' = fi := beq_iff_eq.mp habout
    exact ⟨h.idle hmeant.1, hmeant.2.1, h.opened.trans hmeant.2.2⟩
  | read path fi' bufsiz off =>
    obtain rfl : fi' = fi := beq_iff_eq.mp habout
    obtain ⟨hidle, hquiet, file, hfile, hrest⟩ := hmeant
    exact ⟨h.idle hidle, h.quiet hquiet, file, h.opened.trans hfile, hrest⟩
  | readOn =>
    obtain ⟨r, off, hreading⟩ := hmeant
    exact ⟨r, off, (h.of_about_readOn habout).trans hreading⟩
  | release path fi' =>
    obtain rfl : fi' = fi := beq_iff_eq.mp habout
    obtain ⟨hidle, hquiet, file, hfile, hfits⟩ := hmeant
    exact ⟨h.idle hidle, h.quiet hquiet, file, h.opened.trans hfile, hfits⟩
  | getxattr path name size => cases habout
  | listxattr path size => cases habout
  | opendir path fi' =>
    obtain rfl : fi' = fi := beq_iff_eq.mp habout
    exact ⟨h.idle hmeant.1, hmeant.2.1, h.opened.trans hmeant.2.2⟩
  | readdir fi' filler =>
    obtain rfl : fi' = fi := beq_iff_eq.mp habout
    obtain ⟨hidle, left, hfile⟩ := hmeant
    exact ⟨h.idle hidle, left, h.opened.trans hfile⟩
  | releasedir fi' =>
    obtain rfl : fi' = fi := beq_iff_eq.mp habout
    obtain ⟨hidle, left, hfile⟩ := hmeant
    exact ⟨h.idle hidle, left, h.opened.trans hfile⟩

theorem SameFile.allows (h : SameFile fi t t') {i : ℕ × Action} (habout : t.about fi i)
    {reply : Reply} (hallows : m.Allows t i reply) : m.Allows t' i reply := by
  obtain ⟨thread, action⟩ := i
  cases action with
  | read path fi' bufsiz off =>
    obtain rfl : fi' = fi := beq_iff_eq.mp habout
    obtain ⟨file, hfile, hanswer⟩ := hallows
    exact ⟨file, h.opened.trans hfile, hanswer⟩
  | readOn =>
    obtain ⟨r, off, e, hreading, hfile, hanswer⟩ := hallows
    obtain rfl : r.fi = fi := by
      rw [Service.about, hreading] at habout
      exact beq_iff_eq.mp habout
    exact ⟨r, off, e, (h.of_about_readOn habout).trans hreading, h.opened.trans hfile, hanswer⟩
  | readdir fi' filler =>
    obtain rfl : fi' = fi := beq_iff_eq.mp habout
    obtain ⟨left, hfile, hanswer⟩ := hallows
    exact ⟨left, h.opened.trans hfile, hanswer⟩
  | _ => exact hallows

/-- What is done with the open file goes on from the same state. -/
theorem SameFile.next (h : SameFile fi t t') {i : ℕ × Action} (habout : t.about fi i) :
    SameFile fi (m.next t i) (m.next t' i) := by
  obtain ⟨thread, action⟩ := i
  cases action with
  | getattr path st => cases habout
  | opens path fi' =>
    obtain rfl : fi' = fi := beq_iff_eq.mp habout
    simp only [Mount.next]
    cases m.openFile path with
    | error errno => exact h
    | ok file => exact h.stored _
  | read path fi' bufsiz off =>
    obtain rfl : fi' = fi := beq_iff_eq.mp habout
    simp only [Mount.next, h.opened]
    split
    · split
      · exact h.halfway (by simp)
      · exact h
    · exact h
  | readOn => exact h.halfway rfl
  | release path fi' =>
    obtain rfl : fi' = fi := beq_iff_eq.mp habout
    exact h.stored _
  | getxattr path name size => cases habout
  | listxattr path size => cases habout
  | opendir path fi' =>
    obtain rfl : fi' = fi := beq_iff_eq.mp habout
    simp only [Mount.next]
    cases m.volume.directoryAt path with
    | error missing => exact h
    | ok key => exact h.stored _
  | readdir fi' filler =>
    obtain rfl : fi' = fi := beq_iff_eq.mp habout
    simp only [Mount.next, h.opened]
    split
    · exact h.stored _
    · exact h
  | releasedir fi' =>
    obtain rfl : fi' = fi := beq_iff_eq.mp habout
    exact h.stored _

/-- What is done otherwise makes no difference to it. -/
theorem SameFile.next_other (h : SameFile fi t t') {i : ℕ × Action}
    (habout : t.about fi i = false) (hmeant : Service.Meant fuel t i) :
    SameFile fi (m.next t i) t' := by
  obtain ⟨thread, action⟩ := i
  cases action with
  | getattr path st => exact h
  | opens path fi' =>
    have hne : fi' ≠ fi := by simpa [Service.about] using habout
    simp only [Mount.next]
    cases m.openFile path with
    | error errno => exact h
    | ok file => exact h.stored_other hne _
  | read path fi' bufsiz off =>
    have hne : fi' ≠ fi := by simpa [Service.about] using habout
    simp only [Mount.next]
    split
    · split
      · exact h.halfway_other (by simp [hne]) (h.idle hmeant.1)
      · exact h
    · exact h
  | readOn =>
    refine h.halfway_other rfl ?_
    obtain ⟨r, off, hreading⟩ := hmeant
    rw [Service.about, hreading] at habout
    rw [h.reading, hreading, Option.filter_some, if_neg (by simpa using habout)]
  | release path fi' =>
    have hne : fi' ≠ fi := by simpa [Service.about] using habout
    exact h.stored_other hne _
  | getxattr path name size => exact h
  | listxattr path size => exact h
  | opendir path fi' =>
    have hne : fi' ≠ fi := by simpa [Service.about] using habout
    simp only [Mount.next]
    cases m.volume.directoryAt path with
    | error missing => exact h
    | ok key => exact h.stored_other hne _
  | readdir fi' filler =>
    have hne : fi' ≠ fi := by simpa [Service.about] using habout
    simp only [Mount.next]
    split
    · exact h.stored_other hne _
    · exact h
  | releasedir fi' =>
    have hne : fi' ≠ fi := by simpa [Service.about] using habout
    exact h.stored_other hne _

/-- **An open file has a history of its own.** -/
theorem observer_about (m : Mount) (fuel fi : ℕ) :
    (m.service fuel).Observer (Service.about fi) (SameFile fi) where
  meant _ _ _ h := h.meant
  allows _ _ _ _ h habout hallows := h.allows (m := m) habout hallows
  next _ _ _ h habout _ := h.next habout
  other _ _ _ h := h.next_other

end

/-! ### Copying a file -/

/-- A piece of a file is read. -/
def pieceActions (path : Str) (fi bufsiz : ℕ) (thread off : ℕ) : List (ℕ × Action) :=
  [(thread, .read path fi bufsiz off), (thread, .readOn)]

/-- A file is opened, read in `n` pieces, and closed. The threads are the ones that happen to be
free. -/
def copyActions (path : Str) (fi bufsiz n : ℕ) (threads : ℕ → ℕ) (opener closer : ℕ) :
    List (ℕ × Action) :=
  (opener, .opens path fi) ::
    ((List.range n).flatMap fun i => pieceActions path fi bufsiz (threads i) (i * bufsiz)) ++
      [(closer, .release path fi)]

/-- The bytes of the answers. -/
def collected (run : List ((ℕ × Action) × Reply)) : Str :=
  run.flatMap fun answer =>
    match answer.2 with
    | .bytes _ buf => buf
    | _ => []

section
variable {m : Mount} {fuel fi bufsiz : ℕ} {path : Str} {e : EntryPtr}

theorem delivered_add (v : Volume) (e : EntryPtr) (p m n : ℕ) :
    v.delivered e p (m + n) = v.delivered e p m ++ v.delivered e (p + m) n := by
  rw [Volume.delivered, Volume.delivered, Volume.delivered, slice_add]
  split
  · exact List.map_append
  · rfl

theorem length_delivered (v : Volume) (e : EntryPtr) (p n : ℕ) :
    (v.delivered e p n).length = n := by
  rw [Volume.delivered]
  split
  · rw [List.length_map, length_slice]
  · exact length_slice v e p n

/-- A piece, from its two answers. Nothing is under way after it. -/
theorem piece_answered {t : Service} {thread off : ℕ} {actions : List (ℕ × Action)}
    {run : List ((ℕ × Action) × Reply)} (hfile : t.opened fi = some (.file e))
    (hidle : t.reading thread = none) (hoff : off ≤ Entry.eof (m.volume.entry e))
    (hrun : run.map Prod.fst = pieceActions path fi bufsiz thread off ++ actions)
    (hanswered : (m.service fuel).Answered t run) :
    ∃ buf rest, buf.length = bufsiz ∧
      buf.take (Entry.eof (m.volume.entry e) - off)
        = m.volume.delivered e off (min bufsiz (Entry.eof (m.volume.entry e) - off)) ∧
      collected run = buf ++ collected rest ∧ rest.map Prod.fst = actions ∧
      (m.service fuel).Answered t rest := by
  match run, hrun with
  | (i₁, a₁) :: (i₂, a₂) :: rest, hrun =>
    simp only [List.map_cons, pieceActions, List.cons_append, List.nil_append,
      List.cons.injEq] at hrun
    obtain ⟨rfl, rfl, rfl⟩ := hrun
    obtain ⟨⟨file, hfile', hbegun⟩,
      ⟨r, off', e', hreading, hfile'', buf, rfl, hlength, hbuf⟩, hrest⟩ := hanswered
    have hinside : 0 ≤ (off : ℤ) ∧ (off : ℤ) ≤ Entry.eof (m.volume.entry e) := by omega
    rw [hfile] at hfile'
    cases hfile'
    rw [Mount.ReadAnswer, if_pos hinside] at hbegun
    subst hbegun
    have hnext : (m.service fuel).next t (thread, .read path fi bufsiz off)
        = t.halfway thread (some (⟨fi, bufsiz⟩, off)) := by
      simp only [Mount.service, Mount.next, hfile, if_pos hinside, Int.toNat_natCast]
    have hback : (t.halfway thread (some (⟨fi, bufsiz⟩, off))).halfway thread none = t := by
      simp only [Service.halfway, Function.update_idem, ← hidle, Function.update_eq_self]
    rw [hnext] at hreading hfile'' hrest
    rw [Service.halfway_reading, Function.update_self] at hreading
    cases hreading
    rw [Service.halfway_opened, hfile] at hfile''
    cases hfile''
    refine ⟨buf, rest, hlength, hbuf, rfl, rfl, ?_⟩
    have hlast : (m.service fuel).next (t.halfway thread (some (⟨fi, bufsiz⟩, off)))
        (thread, .readOn) = t := hback
    rwa [hlast] at hrest

/-- Pieces, from their answers. The induction is on the pieces; all but the last are whole. -/
theorem pieces_answered {t : Service} (hfile : t.opened fi = some (.file e))
    (hidle : ∀ thread, t.reading thread = none) {threads : ℕ → ℕ} {actions : List (ℕ × Action)} :
    ∀ {n k : ℕ} {run : List ((ℕ × Action) × Reply)},
      (0 < n → (k + n - 1) * bufsiz ≤ Entry.eof (m.volume.entry e)) →
      run.map Prod.fst = ((List.range' k n).flatMap fun i =>
        pieceActions path fi bufsiz (threads i) (i * bufsiz)) ++ actions →
      (m.service fuel).Answered t run →
      ∃ bytes rest, collected run = bytes ++ collected rest ∧ bytes.length = n * bufsiz ∧
        bytes.take (Entry.eof (m.volume.entry e) - k * bufsiz)
          = m.volume.delivered e (k * bufsiz)
              (min (n * bufsiz) (Entry.eof (m.volume.entry e) - k * bufsiz)) ∧
        rest.map Prod.fst = actions ∧ (m.service fuel).Answered t rest := by
  intro n
  induction n with
  | zero =>
    intro k run _ hrun hanswered
    have hnone : m.volume.delivered e (k * bufsiz) 0 = [] :=
      List.eq_nil_of_length_eq_zero (length_delivered _ _ _ _)
    refine ⟨[], run, rfl, by simp, ?_, hrun, hanswered⟩
    rw [Nat.zero_mul, Nat.zero_min, hnone, List.take_nil]
  | succ n ih =>
    intro k run hlast hrun hanswered
    have hlast' : k * bufsiz + n * bufsiz ≤ Entry.eof (m.volume.entry e) := by
      rw [← Nat.add_mul]
      exact hlast (Nat.succ_pos n)
    have hsucc : (k + 1) * bufsiz = k * bufsiz + bufsiz := Nat.succ_mul k bufsiz
    have hsize : (n + 1) * bufsiz = bufsiz + n * bufsiz := by rw [Nat.succ_mul, Nat.add_comm]
    rw [List.range'_succ, List.flatMap_cons, List.append_assoc] at hrun
    obtain ⟨buf, run', hlength, hbuf, hcollected, hrun', hanswered'⟩ :=
      piece_answered hfile (hidle (threads k)) (by omega) hrun hanswered
    have hrest : 0 < n → (k + 1 + n - 1) * bufsiz ≤ Entry.eof (m.volume.entry e) := by
      intro _
      have hsame : k + 1 + n - 1 = k + n := by omega
      rw [hsame, Nat.add_mul]
      exact hlast'
    obtain ⟨bytes, rest, hcollected', hlength', hbytes, hrest', hanswered''⟩ :=
      ih hrest hrun' hanswered'
    refine ⟨buf ++ bytes, rest, by rw [hcollected, hcollected', List.append_assoc],
      by rw [List.length_append, hlength, hlength', hsize], ?_, hrest', hanswered''⟩
    rw [hsucc] at hbytes
    by_cases hwhole : k * bufsiz + bufsiz ≤ Entry.eof (m.volume.entry e)
    · have hleft : Entry.eof (m.volume.entry e) - k * bufsiz
          = bufsiz + (Entry.eof (m.volume.entry e) - (k * bufsiz + bufsiz)) := by omega
      have hmin : min ((n + 1) * bufsiz) (Entry.eof (m.volume.entry e) - k * bufsiz)
          = bufsiz + min (n * bufsiz) (Entry.eof (m.volume.entry e) - (k * bufsiz + bufsiz)) := by
        omega
      have hbuf' : buf = m.volume.delivered e (k * bufsiz) bufsiz := by
        rwa [List.take_of_length_le (by omega), Nat.min_eq_left (by omega)] at hbuf
      have htake := @List.take_length_add_append _ buf bytes
        (Entry.eof (m.volume.entry e) - (k * bufsiz + bufsiz))
      rw [hlength] at htake
      rw [hmin, hleft, htake, hbytes, delivered_add, ← hbuf']
    · -- this is the last piece
      have hn : n * bufsiz = 0 := by
        rcases Nat.eq_zero_or_pos n with rfl | hn
        · exact Nat.zero_mul bufsiz
        · have hle := Nat.mul_le_mul_right bufsiz hn
          omega
      rw [hn] at hlength'
      have hsize' : (n + 1) * bufsiz = bufsiz := by omega
      rw [List.eq_nil_of_length_eq_zero hlength', List.append_nil, hbuf, hsize']

/-- **A copy is complete.** In every run on a sound volume, whatever happens between the actions of
an open file, they could have been the only ones, and have been answered so; and if they are those
of a program that opens a file, reads it in pieces of any size up to its end, and closes it, then
what it has been given is the content of the file, up to the size of the file. -/
theorem copied (hv : m.volume.Sound) {actions : List (ℕ × Action)}
    (hobeys : (m.service fuel).Obeys .start actions) (errors : ℕ → Err) :
    ∃ run s', run.map Prod.fst = actions ∧
      Call.Replies (Server.exec m fuel) (.start errors) run s' ∧
      ∀ fi, (m.service fuel).Obeys .start
          ((m.service fuel).part (Service.about fi) .start actions) ∧
        (m.service fuel).Answered .start
          ((m.service fuel).observed (Service.about fi) .start run) ∧
        ∀ (path : Str) (e : EntryPtr) (bufsiz n : ℕ) (threads : ℕ → ℕ) (opener closer : ℕ),
          m.openFile path = .ok (.file e) →
          (n - 1) * bufsiz ≤ Entry.eof (m.volume.entry e) →
          Entry.eof (m.volume.entry e) ≤ n * bufsiz →
          (m.service fuel).part (Service.about fi) .start actions
            = copyActions path fi bufsiz n threads opener closer →
          (collected ((m.service fuel).observed (Service.about fi) .start run)).take
              (Entry.eof (m.volume.entry e))
            = m.volume.delivered e 0 (Entry.eof (m.volume.entry e)) := by
  obtain ⟨run, s', hrun, hreplies, hanswered, -⟩ :=
    (refines_service hv).run (corresponds_start errors) hobeys
  refine ⟨run, s', hrun, hreplies, fun fi => ?_⟩
  have halone : (m.service fuel).Answered .start
      ((m.service fuel).observed (Service.about fi) .start run) :=
    hanswered.observed (observer_about m fuel fi) (.start fi) (by rwa [hrun])
  refine ⟨hobeys.part (observer_about m fuel fi) (.start fi), halone, ?_⟩
  intro path e bufsiz n threads opener closer hfile hlast hall hseen
  rw [← hrun, ← Specification.map_fst_observed] at hseen
  generalize (m.service fuel).observed (Service.about fi) .start run = seen at halone hseen
  match seen, hseen with
  | (i, a) :: pieces, hseen =>
    simp only [List.map_cons, copyActions, List.cons_append, List.cons.injEq] at hseen
    obtain ⟨rfl, hpieces⟩ := hseen
    obtain ⟨hopen, hpieces'⟩ := halone
    have hreply : a = .result 0 := by simpa only [Mount.service, Mount.Allows, hfile] using hopen
    have hnext : (m.service fuel).next .start (opener, .opens path fi)
        = Service.start.stored fi (some (.file e)) := by
      simp only [Mount.service, Mount.next, hfile]
    rw [hnext] at hpieces'
    rw [List.range_eq_range'] at hpieces
    obtain ⟨bytes, rest, hcollected, hlength, hbytes, hrest, -⟩ := pieces_answered
      (e := e) (t := Service.start.stored fi (some (.file e))) (by simp) (fun _ => rfl)
      (fun _ => by rwa [Nat.zero_add]) hpieces hpieces'
    have hcons : collected ((((opener, .opens path fi) : ℕ × Action), a) :: pieces)
        = collected pieces := by rw [hreply]; rfl
    rw [Nat.zero_mul, Nat.sub_zero, Nat.min_eq_right hall] at hbytes
    rw [hcons, hcollected, List.take_append_of_le_length (by omega), hbytes]

end

/-! ### The small volume -/

/-- Two programs copy the text file at the same time, in pieces of two bytes. -/
def twoCopies : List (ℕ × Action) :=
  [(0, .opens (ascii "/T") 0), (1, .opens (ascii "/T") 1), (0, .read (ascii "/T") 0 2 0),
    (1, .read (ascii "/T") 1 2 0), (1, .readOn), (0, .readOn), (1, .read (ascii "/T") 0 2 2),
    (0, .read (ascii "/T") 1 2 2), (0, .readOn), (1, .readOn), (2, .release (ascii "/T") 0),
    (2, .release (ascii "/T") 1)]

theorem obeys_twoCopies : ((smallMount .off).service 2000000).Obeys .start twoCopies := by
  have hpath : Serviceable 2000000 (ascii "/T") := ⟨by decide, by decide⟩
  have hid : virtualFileId (ascii "/T") ≠ .catalog := by decide
  have heof : Entry.eof ((smallMount .off).volume.entry textFile) = 3 := by decide
  simp [twoCopies, Specification.Obeys, Mount.service, Service.Meant, Mount.next, openFile_small,
    hpath, hid, heof, Service.Quiet, Service.start, OpenFile.Fits, OpenFile.Readable,
    Function.update_apply]
  -- what is under way is a read of the other open file
  grind

/-- The first of them gets the whole text. -/
theorem copied_small :
    ∃ run s', run.map Prod.fst = twoCopies ∧
      Call.Replies (Server.exec (smallMount .off) 2000000) (.start fun _ => .none) run s' ∧
      (collected (((smallMount .off).service 2000000).observed (Service.about 0) .start run)).take 3
        = ascii "HI\n" := by
  obtain ⟨run, s', hrun, hreplies, hfiles⟩ := copied sound_small obeys_twoCopies fun _ => .none
  refine ⟨run, s', hrun, hreplies, ?_⟩
  have heof : Entry.eof ((smallMount .off).volume.entry textFile) = 3 := by decide
  have hpart : ((smallMount .off).service 2000000).part (Service.about 0) .start twoCopies
      = copyActions (ascii "/T") 0 2 2 id 0 2 := by
    simp [twoCopies, Specification.part, Service.about, Mount.service, Mount.next, openFile_small,
      heof, Service.start, copyActions, pieceActions, List.range, List.range.loop]
  have hcopy := (hfiles 0).2.2 _ _ 2 2 id 0 2 openFile_small (by decide) (by decide) hpart
  rw [heof] at hcopy
  rw [hcopy]
  decide

end Prodosfs
