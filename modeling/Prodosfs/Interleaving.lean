import Prodosfs.Reading
import Prodosfs.General.Threads

/-!
# Requests that share a handle

The main loop of the file system runs callbacks in several threads, and all requests for a file that
has been opened once get the same handle. A request is two calls on it, `Seek` and `Read`, and
nothing keeps another request from coming between the two.

Each thread has an error of its own, but the position is the handle's: a request reads from where
the last `Seek` or `Read` of anyone has left it.

## Main definitions

* `Request.Step` — the two steps of a request
* `Request.AtOwnOffset` — nobody has moved the handle away since the request's `Seek`

## Main results

* `readFile_eq_ret_iff_steps` — the two steps in a row are the callback
* `interleaved` — requests that read from their own offset are not disturbed
* `not_interleaved_small` — others may be
-/

namespace Prodosfs

/-- A request to read, without its path. -/
structure Request where
  bufsiz : ℕ
  off : ℤ

/-- How far a request has come, with the error of its thread. -/
inductive Progress where
  | issued (err : Err)
  | sought (err : Err)
  | finished (result : ℤ × Str)

/-- The steps of a request. The calls that follow `Read` belong to its step. An exception that
escapes from one of them ends the program, and so it ends the run. -/
inductive Request.Step (v : Volume) (r : Request) :
    FileHandle × Progress → FileHandle × Progress → Prop
  | refuse {h h' : FileHandle} {err err' : Err} {pos : ℤ}
      (hseek : FileHandle.seek v r.off seekSet (h, err) = (.ret pos, (h', err')))
      (hpos : pos < 0) : Step v r (h, .issued err) (h', .finished (-toError err', []))
  | seek {h h' : FileHandle} {err err' : Err} {pos : ℤ}
      (hseek : FileHandle.seek v r.off seekSet (h, err) = (.ret pos, (h', err')))
      (hpos : ¬ pos < 0) : Step v r (h, .issued err) (h', .sought err')
  | read {h h' : FileHandle} {err err' : Err} {result : ℤ × Str}
      (hread : readBuffer v r.bufsiz (h, err) = (.ret result, (h', err'))) :
      Step v r (h, .sought err) (h', .finished result)

/-- The range of a request is inside the file. -/
def Request.Inside (v : Volume) (e : EntryPtr) (r : Request) : Prop :=
  0 ≤ r.off ∧ r.off + r.bufsiz ≤ Entry.eof (v.entry e)

/-- If the request is about to read, the handle is at the request's offset. -/
def Request.AtOwnOffset (r : Request) (s : FileHandle × Progress) : Prop :=
  ∀ err, s.2 = .sought err → (s.1.position : ℤ) = r.off

section
variable {v : Volume} {e : EntryPtr}

/-- **A request that is alone**: its steps in a row are `prodosfs_read`. -/
theorem readFile_eq_ret_iff_steps {r : Request} {h h' : FileHandle} {err : Err} {a : ℤ × Str} :
    (∃ err', readFile v r.bufsiz r.off (h, err) = (.ret a, (h', err'))) ↔
      r.Step v (h, .issued err) (h', .finished a) ∨
        ∃ s, r.Step v (h, .issued err) s ∧ r.Step v s (h', .finished a) := by
  constructor
  · rintro ⟨err', hread⟩
    obtain ⟨pos, ⟨h₁, err₁⟩, hseek, hrest⟩ := Call.bind_eq_ret_iff.mp hread
    by_cases hneg : pos < 0
    · rw [if_pos hneg] at hrest
      cases hrest
      exact Or.inl (.refuse hseek hneg)
    · rw [if_neg hneg] at hrest
      exact Or.inr ⟨_, .seek hseek hneg, .read hrest⟩
  · rintro (hstep | ⟨s, hstep, hstep'⟩)
    · cases hstep with
      | @refuse _ _ _ err' _ hseek hneg =>
        refine ⟨err', Call.bind_eq_ret_iff.mpr ⟨_, _, hseek, ?_⟩⟩
        rw [if_pos hneg]
        rfl
    · cases hstep with
      | refuse => cases hstep'
      | seek hseek hneg =>
        cases hstep' with
        | @read _ _ _ err' _ hread =>
          refine ⟨err', Call.bind_eq_ret_iff.mpr ⟨_, _, hseek, ?_⟩⟩
          rw [if_neg hneg]
          exact hread

/-- What is known of a request whose thread had the error `err` when it was issued, for a handle
that was `h₀` before any of them. -/
def Request.Known (v : Volume) (e : EntryPtr) (h₀ : FileHandle) (r : Request) (err : Err) :
    Progress → Prop
  | .issued err' => err' = err
  | .sought err' => r.Inside v e → err' = err ∧ v.Seekable e r.off.toNat
  | .finished result =>
    r.Inside v e → ∃ s, readFile v r.bufsiz r.off (h₀, err) = (.ret result, s)

/-- The step lemma: a step of a request that reads from its own offset keeps the handle coherent,
and what is known of the request. -/
theorem Request.Step.known (hfile : Entry.isFile (v.entry e)) {h₀ : FileHandle}
    (hc₀ : Coherent v e h₀) {r : Request} {err : Err} {a b : FileHandle × Progress}
    (hstep : r.Step v a b) (hown : r.Inside v e → r.AtOwnOffset a) (hc : Coherent v e a.1)
    (hknown : r.Known v e h₀ err a.2) : Coherent v e b.1 ∧ r.Known v e h₀ err b.2 := by
  obtain ⟨p₀, -, rfl⟩ := hc₀
  cases hstep with
  | refuse hseek hneg =>
    refine ⟨hc.seek hfile hseek, fun hinside => ?_⟩
    obtain ⟨p, -, rfl⟩ := hc
    rcases seek_eq_ret hfile hseek with ⟨q, -, -, rfl, -⟩ | ⟨hout, -⟩
    · omega
    · obtain ⟨h0, hend⟩ := hinside
      omega
  | seek hseek hneg =>
    refine ⟨hc.seek hfile hseek, fun hinside => ?_⟩
    obtain ⟨p, -, rfl⟩ := hc
    obtain rfl : _ = err := hknown
    obtain ⟨h0, hend⟩ := hinside
    have hoff : ((r.off.toNat : ℕ) : ℤ) = r.off := by omega
    have hle : r.off.toNat ≤ Entry.eof (v.entry e) := by omega
    rw [← hoff] at hseek
    obtain ⟨hseekable, -, hs⟩ := (seek_eq_ret_iff hfile hle).mp hseek
    cases hs
    exact ⟨rfl, hseekable⟩
  | @read _ _ err' _ _ hread =>
    refine ⟨hc.readBuffer hfile hread, fun hinside => ?_⟩
    obtain ⟨p, -, rfl⟩ := hc
    obtain ⟨herr, hseekable⟩ := hknown hinside
    have hposition : (p : ℤ) = r.off := hown hinside _ rfl
    obtain ⟨h0, hend⟩ := hinside
    have hle : p ≤ Entry.eof (v.entry e) := by omega
    rw [← hposition] at hseekable ⊢
    rw [← herr]
    -- alone, the request gets to the same place, and reads from there
    have hseek : FileHandle.seek v p seekSet (handleAt v e p₀, err') = _ :=
      (seek_eq_ret_iff hfile hle).mpr ⟨hseekable, rfl, rfl⟩
    exact ⟨_, Call.bind_eq_ret_iff.mpr ⟨_, _, hseek, by rw [if_neg (by omega)]; exact hread⟩⟩

/-- **Requests that are not disturbed.** In any run of any number of requests on an open handle in
which the requests inside the file read from their own offsets, each of these gets what it would
have got alone, and if it is for at least one byte, that is its own part of the file. -/
theorem interleaved {ι : Type} [DecidableEq ι] {h h₀ : FileHandle} {err err₀ err₁ : Err}
    {ops : List FileOp} (hopen : FileHandle.create v e err = (.ret h, err₀))
    (hprior : Call.Returns (FileOp.exec v) (h, err₀) ops (h₀, err₁)) {requests : ι → Request}
    {errs : ι → Err} {t : Threads ι FileHandle Progress}
    (hrun : Threads.Run
      (fun i a b => (requests i).Step v a b ∧
        ((requests i).Inside v e → (requests i).AtOwnOffset a))
      ⟨h₀, fun i => .issued (errs i)⟩ t) :
    ∀ (i : ι) (result : ℤ × Str), t.own i = .finished result → (requests i).Inside v e →
      (∃ s, readFile v (requests i).bufsiz (requests i).off (h₀, errs i) = (.ret result, s)) ∧
      (0 < (requests i).bufsiz →
        result = (((requests i).bufsiz : ℤ),
          v.delivered e (requests i).off.toNat (requests i).bufsiz)) := by
  obtain ⟨hfile, rfl, rfl⟩ := create_eq_ret hopen
  have hc₀ : Coherent v e h₀ := (coherent_handleAt (Nat.zero_le _)).run hfile hprior
  have hknown := hrun.invariant (I := Coherent v e)
    (J := fun i => (requests i).Known v e h₀ (errs i))
    (fun i a b hc hk hstep => hstep.1.known hfile hc₀ hstep.2 hc hk) hc₀ fun _ => rfl
  rintro i result hfinished hinside
  have hi := hknown.2 i
  rw [hfinished] at hi
  obtain ⟨s, halone⟩ := hi hinside
  refine ⟨⟨s, halone⟩, fun hpos => ?_⟩
  obtain ⟨h0, hend⟩ := hinside
  have hoff : ((requests i).off.toNat : ℤ) = (requests i).off := by omega
  rw [← hoff] at halone
  exact readFile_delivered hc₀ hfile hpos (by omega) halone

end

/-! ### Two requests on one handle -/

/-- Two requests for one byte each of the text file: the first and the second. -/
def twoRequests (second : Bool) : Request := if second then ⟨1, 1⟩ else ⟨1, 0⟩

/-- Each of them finds its place, and a byte can be read there. -/
theorem seek_small {q : ℕ} (hq : q ≤ 3) (p : ℕ) (err : Err) :
    FileHandle.seek smallVolume q seekSet (handleAt smallVolume textFile p, err)
      = (.ret (q : ℤ), (handleAt smallVolume textFile q, err)) :=
  (seek_eq_ret_iff (by decide) hq).mpr
    ⟨⟨fun h => absurd h (by decide), fun h => absurd (by decide) h⟩, rfl, rfl⟩

theorem readBuffer_small {p : ℕ} {c : UInt8}
    (hread : FileHandle.read smallVolume 1 (handleAt smallVolume textFile p, .none)
      = (.ret [c], (handleAt smallVolume textFile (p + 1), .none))) :
    readBuffer smallVolume 1 (handleAt smallVolume textFile p, .none)
      = (.ret (1, [toUnixText c]), (handleAt smallVolume textFile (p + 1), .none)) := by
  have htext : Entry.fileType (smallVolume.entry textFile) = fileTypeText := by decide
  have hone : toInt 1 = 1 := by decide
  rw [readBuffer_of_ret rfl hread, if_neg (by simp), if_pos htext, if_neg (by simp),
    List.length_singleton, hone, List.map_singleton]

/-- One after the other, they get what they ask for. -/
theorem interleaved_small :
    ∃ t : Threads Bool FileHandle Progress,
      Threads.Run
        (fun i a b => (twoRequests i).Step smallVolume a b ∧
          ((twoRequests i).Inside smallVolume textFile → (twoRequests i).AtOwnOffset a))
        ⟨handleAt smallVolume textFile 0, fun _ => .issued .none⟩ t ∧
      t.own false = .finished (1, ascii "H") ∧ t.own true = .finished (1, ascii "I") ∧
      (1, ascii "H") = ((1 : ℤ), smallVolume.delivered textFile 0 1) := by
  have hopen : FileHandle.create smallVolume textFile .none
      = (.ret (handleAt smallVolume textFile 0), .none) := by rfl
  have hfirst : readBuffer smallVolume 1 (handleAt smallVolume textFile 0, .none)
      = (.ret (1, ascii "H"), (handleAt smallVolume textFile 1, .none)) :=
    readBuffer_small (p := 0) (c := 200) (by rfl)
  have hsecond : readBuffer smallVolume 1 (handleAt smallVolume textFile 1, .none)
      = (.ret (1, ascii "I"), (handleAt smallVolume textFile 2, .none)) :=
    readBuffer_small (p := 1) (c := 201) (by rfl)
  have hrun : Threads.Run
      (fun i a b => (twoRequests i).Step smallVolume a b ∧
        ((twoRequests i).Inside smallVolume textFile → (twoRequests i).AtOwnOffset a))
      ⟨handleAt smallVolume textFile 0, fun _ => .issued .none⟩
      ((((Threads.mk (handleAt smallVolume textFile 0) fun _ => .issued .none).moved false
        (handleAt smallVolume textFile 0, .sought .none)).moved false
        (handleAt smallVolume textFile 1, .finished (1, ascii "H"))).moved true
        (handleAt smallVolume textFile 1, .sought .none) |>.moved true
        (handleAt smallVolume textFile 2, .finished (1, ascii "I"))) :=
    .tail (.tail (.tail (.tail (.refl _)
      ⟨.seek (seek_small (by decide) 0 .none) (by decide), fun _ _ h => by cases h⟩)
      ⟨.read hfirst, fun _ _ _ => rfl⟩)
      ⟨.seek (seek_small (by decide) 1 .none) (by decide), fun _ _ h => by cases h⟩)
      ⟨.read hsecond, fun _ _ _ => rfl⟩
  exact ⟨_, hrun, rfl, rfl,
    (interleaved hopen (.nil _) hrun false (1, ascii "H") rfl
      ⟨by decide, by decide⟩).2 (by decide)⟩

/-- When both of them seek before either reads, the first request gets the second byte. -/
theorem not_interleaved_small :
    ¬ ∀ (v : Volume) (e : EntryPtr) (h : FileHandle) (err err₀ : Err) (requests : Bool → Request)
      (t : Threads Bool FileHandle Progress),
      v.WellFormed → FileHandle.create v e err = (.ret h, err₀) →
      Threads.Run (fun i => (requests i).Step v) ⟨h, fun _ => .issued .none⟩ t →
      ∀ (i : Bool) (result : ℤ × Str), t.own i = .finished result →
        (requests i).Inside v e → 0 < (requests i).bufsiz →
        result = (((requests i).bufsiz : ℤ),
          v.delivered e (requests i).off.toNat (requests i).bufsiz) := by
  intro hclaim
  have hopen : FileHandle.create smallVolume textFile .none
      = (.ret (handleAt smallVolume textFile 0), .none) := by rfl
  have hread : readBuffer smallVolume 1 (handleAt smallVolume textFile 1, .none)
      = (.ret (1, ascii "I"), (handleAt smallVolume textFile 2, .none)) :=
    readBuffer_small (p := 1) (c := 201) (by rfl)
  have hrun : Threads.Run (fun i => (twoRequests i).Step smallVolume)
      ⟨handleAt smallVolume textFile 0, fun _ => .issued .none⟩
      ((((Threads.mk (handleAt smallVolume textFile 0) fun _ => .issued .none).moved false
        (handleAt smallVolume textFile 0, .sought .none)).moved true
        (handleAt smallVolume textFile 1, .sought .none)).moved false
        (handleAt smallVolume textFile 2, .finished (1, ascii "I"))) :=
    .tail (.tail (.tail (.refl _)
      (.seek (seek_small (by decide) 0 .none) (by decide)))
      (.seek (seek_small (by decide) 0 .none) (by decide)))
      (.read hread)
  have hresult := hclaim _ textFile _ _ _ _ _ wellFormed_small hopen hrun false _ rfl
    ⟨by decide, by decide⟩ (by decide)
  exact absurd hresult (by decide)

end Prodosfs
