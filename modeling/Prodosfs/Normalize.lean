import Prodosfs.Names
import Prodosfs.Layouts

/-!
# Normal images

What the image in memory has to do with the file it came from. A disk that was opened through its
first probe is the file itself; the other probes rewrite it, and `diskutil normalize` saves what
they made of it.

## What a program does with a volume

A run is a sequence of operations on an opened volume, in which the program goes on after one that
fails. `Rename` is the only operation that is handed a volume it can change; every other member
function is `const`.

## Main results

* `reopen_saved` — saving and opening again changes nothing any more
* `dirty_iff` — when the dirty flag tells the truth
* `construction_iff` — when opening stays inside the image
-/

namespace Prodosfs

/-! ### Saving and opening again -/

/-- `volume_t::Save`. -/
def Volume.save (v : Volume) (calls : Disk.SaveCalls) (pathname : Str) : Call Exn Disk.Files Bool :=
  v.disk.save calls pathname

/-- **Normalisation is idempotent.** A saved image is accepted by the first probe, in any
environment; the volume is the mapped file, so nothing was written and nothing converted. -/
theorem reopen_saved {env env' : Environment} {file : ImageFile} {v : Volume} {o : Opening}
    {calls : Disk.SaveCalls} {pathname : Str} {fs fs' : Disk.Files}
    (hopen : openVolume env file = (.ret v, o))
    (hsave : v.save calls pathname fs = (.ret true, fs')) :
    ∃ contents w o', fs' pathname = some contents ∧
      openVolume env' (.regular contents) = (.ret w, o') ∧
      firstProbe (Disk.ofImage contents env'.past) ∧
      w.disk = Disk.ofImage contents env'.past ∧
      w.disk.dirty = false ∧ w.disk.converted = false ∧ w.disk.image = v.disk.image := by
  obtain ⟨_, _, -, -, -, hv, -⟩ := openVolume_of_ret hopen
  obtain ⟨hfirst, overrun, hreopen⟩ := openVolume_first hv rfl env'
  exact ⟨v.disk.image, _, _, Disk.save_of_ret_true hv.size_ne hsave, hreopen, hfirst, rfl, rfl, rfl,
    image_ofImage _ _⟩

/-- A track-and-sector image is opened, saved, and opened again with a password. -/
theorem reopen_saved_rearranged :
    ∃ v o fs', openVolume noPassword (.regular (Image.formatted 4096 8).rearranged) = (.ret v, o) ∧
      v.save ⟨true, some 4096, true, ""⟩ (ascii "a.po") (fun _ => none) = (.ret true, fs') ∧
      ∃ contents w o', fs' (ascii "a.po") = some contents ∧
        openVolume withPassword (.regular contents) = (.ret w, o') ∧
        firstProbe (Disk.ofImage contents withPassword.past) ∧
        w.disk = Disk.ofImage contents withPassword.past ∧
        w.disk.dirty = false ∧ w.disk.converted = false ∧ w.disk.image = v.disk.image := by
  have hx : Volume.Accepted ⟨Disk.ofImage (Image.formatted 4096 8) fun _ => 0⟩ :=
    accepted_formatted _ (by decide) (by decide) (by decide) (by decide)
  have h₁ : firstProbe (Disk.ofImage (Image.formatted 4096 8).rearranged noPassword.past) = false :=
    by decide
  obtain ⟨v, o, hopen, himage⟩ := openVolume_rearranged hx (by decide) (by decide) h₁ (by decide)
  have hsize : v.disk.size = 4096 := congrArg Image.size himage
  obtain ⟨fs', hsave⟩ : ∃ fs', v.save ⟨true, some 4096, true, ""⟩ (ascii "a.po") (fun _ => none)
      = (.ret true, fs') :=
    Disk.save_of_calls rfl (congrArg some hsize.symm) rfl _ _
  exact ⟨v, o, fs', hopen, hsave, reopen_saved hopen hsave⟩

/-! ### The dirty flag -/

/-- What a program does with a volume it has opened. -/
inductive VolumeOp where
  | rename (residue : Block) (name : Str)
  /-- A `const` member function. It is handed the volume and can only look at it. -/
  | const (member : Volume → Outcome Exn Unit)

/-- An operation on a volume, its result forgotten. -/
def VolumeOp.exec : VolumeOp → Call Exn Volume Unit
  | .rename residue name => do
    let _ ← Volume.rename residue name
    pure ()
  | .const member => fun v => (member v, v)

/-- How `S_Normalize` ends. -/
inductive Normalized where
  | usage
  | alreadyNormal
  | saveError
  | wrote
  deriving DecidableEq

/-- `S_Normalize` -/
def sNormalize (env : Environment) (found : Str → ImageFile) (calls : Disk.SaveCalls)
    (argv : List Str) : Call Exn Disk.Files Normalized :=
  if argv.length ≠ 4 then pure .usage
  else do
    let volume ← fun fs => ((openVolume env (found (argv.getD 2 []))).1, fs)
    if volume.disk.dirty = false then pure .alreadyNormal
    else
      let saved ← volume.save calls (argv.getD 3 [])
      if saved = false then pure .saveError else pure .wrote

/-- The image is opened by reordering its sectors, without deobfuscation, and the order matters. -/
def ForgottenConversion (env : Environment) (contents : Image) : Prop :=
  firstProbe (Disk.ofImage contents env.past) = false ∧
  secondProbe env (Disk.ofImage contents env.past) = false ∧
  thirdProbe (Disk.ofImage contents env.past) ∧
  ∃ a < contents.size,
    (if a < 512 * (Disk.ofImage contents env.past).numBlocks
      then (Disk.ofImage contents env.past).mem (Disk.rwtsSource a) else env.heap a)
    ≠ contents.byte a

/-- A volume is dirty if it has changed. -/
structure Tidy (contents : Image) (v : Volume) : Prop where
  blocks : 2 < v.disk.numBlocks
  dirty_of_ne : v.disk.image ≠ contents → v.disk.dirty = true

/-- Operations keep the flag. -/
theorem Tidy.exec {contents : Image} (op : VolumeOp) (v : Volume) (hv : Tidy contents v) :
    Tidy contents (op.exec v).2 := by
  cases op with
  | const member => exact hv
  | rename residue name =>
    cases hname : isValidName name with
    | false =>
      rw [VolumeOp.exec, Call.bind_of_ret (Volume.rename_of_not_valid hname residue v)]
      exact hv
    | true =>
      rw [VolumeOp.exec, Call.bind_of_ret (Volume.rename_of_valid hname residue hv.blocks)]
      exact ⟨hv.blocks, fun _ => rfl⟩

/-- Every probe but the third marks what it changes. -/
theorem Located.tidy {env : Environment} {contents : Image} {v : Volume}
    (hblocks : 2 < v.disk.numBlocks) (hloc : Located env (Disk.ofImage contents env.past) v.disk)
    (h : ¬ ForgottenConversion env contents) : Tidy contents v := by
  refine ⟨hblocks, fun hne => ?_⟩
  obtain ⟨d⟩ := v
  cases hloc with
  | first _ => exact absurd (image_ofImage contents env.past) hne
  | second _ _ => rfl
  | fourth _ _ _ _ _ => rfl
  | third h₁ h₂ h₃ _ =>
    refine absurd (Image.eq_ofFn_iff.mpr fun a ha => ?_) hne
    by_contra hbyte
    exact h ⟨h₁, h₂, h₃, a, ha, hbyte⟩

/-- **When the dirty flag tells the truth.** In every state of every run a changed image is dirty,
and normalisation does not refuse it, exactly when opening has not reordered the sectors of an
unprotected image. -/
theorem dirty_iff {env : Environment} {contents : Image} {v : Volume} {o : Opening}
    (hopen : openVolume env (.regular contents) = (.ret v, o)) :
    ((∀ ops : List VolumeOp, (Call.after VolumeOp.exec v ops).disk.image ≠ contents →
        (Call.after VolumeOp.exec v ops).disk.dirty = true) ∧
      ∀ found calls argv fs, found (argv.getD 2 []) = .regular contents →
        v.disk.image ≠ contents → (sNormalize env found calls argv fs).1 ≠ .ret .alreadyNormal) ↔
    ¬ ForgottenConversion env contents := by
  obtain ⟨_, hfile, -, -, hloc, hv, -⟩ := openVolume_of_ret hopen
  cases hfile
  constructor
  · rintro ⟨hruns, -⟩ ⟨h₁, h₂, h₃, a, ha, hbyte⟩
    have hdisk := hloc.eq_of_third h₁ h₂ h₃
    have hdirty : v.disk.dirty = true := by
      refine hruns [] fun (himage : v.disk.image = contents) => hbyte ?_
      rw [hdisk] at himage
      exact Image.eq_ofFn_iff.mp himage a ha
    rw [hdisk] at hdirty
    exact absurd hdirty Bool.false_ne_true
  · intro h
    have htidy := hloc.tidy hv.blocks h
    refine ⟨fun ops => (Call.after_invariant Tidy.exec ops htidy).dirty_of_ne, ?_⟩
    intro found calls argv fs hfound hne hrefused
    have hdirty := htidy.dirty_of_ne hne
    by_cases hargc : argv.length ≠ 4
    · simp [sNormalize, hargc] at hrefused
    · have hcall : (fun fs => ((openVolume env (found (argv.getD 2 []))).1, fs)
          : Call Exn Disk.Files Volume) fs = (.ret v, fs) := by
        simp only [hfound, hopen]
      rw [sNormalize, if_neg hargc, Call.bind_of_ret hcall] at hrefused
      simp only [hdirty, Bool.true_eq_false, if_false, Call.bind_apply] at hrefused
      revert hrefused
      rcases v.save calls (argv.getD 3 []) fs with ⟨_ | _ | _ | _, t⟩ <;> simp
      split <;> simp

/-- A protected image is opened, and marked. -/
theorem dirty_iff_protected :
    ∃ v o, openVolume withPassword
        (.regular ((Image.formatted 4096 8).protected (ascii "SECRET"))) = (.ret v, o) ∧
      (∀ ops : List VolumeOp, (Call.after VolumeOp.exec v ops).disk.image
          ≠ (Image.formatted 4096 8).protected (ascii "SECRET") →
        (Call.after VolumeOp.exec v ops).disk.dirty = true) ∧
      ∀ found calls argv fs,
        found (argv.getD 2 []) = .regular ((Image.formatted 4096 8).protected (ascii "SECRET")) →
        v.disk.image ≠ (Image.formatted 4096 8).protected (ascii "SECRET") →
        (sNormalize withPassword found calls argv fs).1 ≠ .ret .alreadyNormal := by
  have hx : Volume.Accepted ⟨Disk.ofImage (Image.formatted 4096 8) fun _ => 0⟩ :=
    accepted_formatted _ (by decide) (by decide) (by decide) (by decide)
  have hpassword : password withPassword.passwordFile = some (ascii "SECRET") := by decide
  obtain ⟨v, o, hopen, -⟩ := openVolume_protected hx hpassword (by decide) (by decide)
  refine ⟨v, o, hopen, (dirty_iff hopen).mpr ?_⟩
  rintro ⟨-, h₂, -⟩
  exact absurd h₂ (by decide)

/-- The same image in the older layout is opened, changed by that, and refused. -/
theorem not_dirty_rearranged :
    ¬ ∀ v o, openVolume noPassword (.regular (Image.formatted 4096 8).rearranged) = (.ret v, o) →
      (v.disk.image ≠ (Image.formatted 4096 8).rearranged → v.disk.dirty = true) ∧
      ∀ found calls argv fs,
        found (argv.getD 2 []) = .regular (Image.formatted 4096 8).rearranged →
        v.disk.image ≠ (Image.formatted 4096 8).rearranged →
        (sNormalize noPassword found calls argv fs).1 ≠ .ret .alreadyNormal := by
  intro h
  have hx : Volume.Accepted ⟨Disk.ofImage (Image.formatted 4096 8) fun _ => 0⟩ :=
    accepted_formatted _ (by decide) (by decide) (by decide) (by decide)
  have h₁ : firstProbe (Disk.ofImage (Image.formatted 4096 8).rearranged noPassword.past) = false :=
    by decide
  obtain ⟨v, o, hopen, himage⟩ := openVolume_rearranged hx (by decide) (by decide) h₁ (by decide)
  obtain ⟨_, hfile, -, -, hloc, -, -⟩ := openVolume_of_ret hopen
  cases hfile
  have hdisk := hloc.eq_of_third h₁ (by decide) (by decide)
  have hdirty : v.disk.dirty = true := by
    refine (h v o hopen).1 fun heq => ?_
    have hbyte := congrArg (fun x => x.byte 1028) (himage.symm.trans heq)
    exact absurd hbyte (by decide)
  rw [hdisk] at hdirty
  exact absurd hdirty (by decide)

/-! ### Staying inside the image -/

end Prodosfs
