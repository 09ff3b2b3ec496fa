import Prodosfs.DiskUtil

/-!
# The commands of diskutil

`main`, and what one run of it does to the files. A file is written in one place only, `Save`.

What a rename session prints is left out, and so is what the run-time library says about an
exception that nothing catches.

## Main definitions

* `Invocation`, `Terminal`, `Diskutil.main` — one run of the program

## Main results

* `Diskutil.main_files` — what a run does to the files
-/

namespace Prodosfs

/-- The most that `write` stores at a time. -/
def writeMax : ℕ := 0x7ffff000

/-- What a run of `diskutil` has to do with, apart from the files. -/
structure Invocation where
  argv : List Str
  env : Environment
  /-- Why the file under a path cannot be opened, if it cannot. -/
  refused : Str → Option String
  fuel : ℕ
  /-- What the system calls of `S_Normalize` do. -/
  calls : Disk.SaveCalls
  errno : ℤ
  /-- What those of `S_Rename` do. -/
  host : Session → Host
  /-- What is typed. -/
  choices : List Choice
  calls_write : calls.written.getD 0 ≤ writeMax
  host_write : ∀ s, (host s).save.written.getD 0 ≤ writeMax
  /-- A file that is there after `rename` was there before. -/
  host_moves : ∀ s old new (fs fs' : Disk.Files), (host s).rename old new fs = some fs' →
    ∀ path x, fs' path = some x → ∃ path', fs path' = some x

/-- What is found under a path. What can be opened and is not a regular file may be a directory. -/
def Invocation.found (inv : Invocation) (fs : Disk.Files) (path : Str) : ImageFile :=
  match inv.refused path with
  | some strerror => .unopenable strerror
  | none =>
    match fs path with
    | none => .irregular
    | some contents => .regular contents

/-- The path that a run is meant to write to. -/
def Invocation.target (inv : Invocation) : Option Str :=
  if inv.argv.getD 1 [] = ascii "normalize" then some (inv.argv.getD 3 [])
  else if inv.argv.getD 1 [] = ascii "rename" then some (inv.argv.getD 2 [])
  else none

/-- The files, and what has been printed. -/
structure Terminal where
  files : Disk.Files
  stdout : Str
  stderr : Str

namespace Terminal

/-- Print something. -/
def printed (t : Terminal) (text : Str) : Terminal := { t with stdout := t.stdout ++ text }

/-- Complain about something. -/
def complained (t : Terminal) (text : Str) : Terminal := { t with stderr := t.stderr ++ text }

/-- A call that has to do with the files only. -/
def onFiles {α : Type} (call : Call Exn Disk.Files α) : Call Exn Terminal α :=
  Call.onPart Terminal.files (fun t fs => { t with files := fs }) call

@[simp] theorem printed_files (t : Terminal) (text : Str) : (t.printed text).files = t.files := rfl

@[simp] theorem complained_files (t : Terminal) (text : Str) :
    (t.complained text).files = t.files := rfl

end Terminal

/-- The exit code of `S_Normalize`. -/
def Normalized.exitCode : Normalized → ℤ
  | .wrote => exitSuccess
  | _ => exitFailure

/-- What `S_Normalize` says in the end. -/
def Normalized.report (errno : ℤ) (t : Terminal) : Normalized → Terminal
  | .usage => t.complained (ascii "usage: diskutil normalize <image_in> <image_out>\n")
  | .alreadyNormal => t.complained (ascii "diskutil: volume is already normal prodos disk\n")
  | .saveError => t.complained (ascii "diskutil: error " ++ formatInt errno ++ ascii "\n")
  | .wrote => t.printed (ascii "diskutil: wrote normalized prodos disk\n")

namespace Diskutil

/-- `S_OpenVolume`. There is no volume if it has ended the program. -/
def sOpenVolume (inv : Invocation) (path : Str) : Call Exn Terminal (Option Volume) := fun t =>
  match (openVolume inv.env (inv.found t.files path)).1 with
  | .ret v => (.ret (some v), t)
  | .throw e => (.ret none, t.complained (ascii "diskutil: " ++ ascii e.what ++ ascii "\n"))
  | .fault => (.fault, t)
  | .timeout => (.timeout, t)

/-- `S_Catalog` -/
def sCatalog (inv : Invocation) : Call Exn Terminal ℤ :=
  if inv.argv.length ≠ 3 then do
    modify fun t => t.complained (ascii "usage: diskutil catalog <image_in>\n")
    pure exitFailure
  else do
    let volume ← sOpenVolume inv (inv.argv.getD 2 [])
    match volume with
    | none => pure exitFailure
    | some volume => do
      let text ← fun t => ((catalog volume inv.fuel (ascii "/") .none).1, t)
      match text with
      | none => Call.fault
      | some text => do
        modify fun t => t.printed (cStr text)
        pure exitSuccess

/-- `S_Normalize`, with what it prints. -/
def normalizes (inv : Invocation) : Call Exn Terminal ℤ := do
  let ended ← Terminal.onFiles fun fs => sNormalize inv.env (inv.found fs) inv.calls inv.argv fs
  modify fun t => ended.report inv.errno t
  pure ended.exitCode

/-- `S_Rename`, without what it prints. -/
def renames (inv : Invocation) : Call Exn Terminal ℤ :=
  Terminal.onFiles fun fs =>
    sRename inv.env (inv.found fs) inv.fuel inv.host inv.argv inv.choices fs

/-- `main` -/
def main (inv : Invocation) : Call Exn Terminal ℤ :=
  if inv.argv.length < 2 then do
    modify fun t => t.complained (ascii "usage: diskutil <cmd> [args]\n")
    pure exitFailure
  else
    let cmd := inv.argv.getD 1 []
    if cmd = ascii "catalog" then sCatalog inv
    else if cmd = ascii "normalize" then normalizes inv
    else if cmd = ascii "rename" then renames inv
    else do
      modify fun t =>
        t.complained (ascii "diskutil: unrecognized command -- " ++ cmd ++ ascii "\n")
      pure exitFailure

/-! ### A session and the files -/

theorem name_snd (v : Volume) (s : Session) : ((v.name : Call Exn Session Str) s).2 = s := by
  rw [Volume.name, Volume.volumeHeader]
  split
  · rfl
  · rfl

section
variable {host : Session → Host} {s : Session}

/-- **What a choice does to the session**, however it ends. -/
theorem exec_cases (hv : s.volume.Accepted) (choice : Choice) :
    (choice.exec host s).2 = s ∨
    (∃ input w t, isValidName input ∧
      Volume.rename (host s).residue input s.volume = (.ret true, w) ∧
      t = (choice.exec host s).2 ∧ t.volume = w ∧ t.pathname = s.pathname ∧
      t.files = (w.disk.save (host s).save s.pathname s.files).2) ∨
    choice = .imageName ∧ (choice.exec host s).2.volume = s.volume ∧
      ((choice.exec host s).2.files = s.files ∨ ∃ old new,
        (host s).rename old new s.files = some (choice.exec host s).2.files) := by
  have hnamed : s.Named (Entry.fileName s.volume.header) := ⟨hv, rfl⟩
  have hdone : ∀ (a : Bool) (t : Session),
      ((if a = false then pure (some exitFailure) else pure none :
        Call Exn Session (Option ℤ)) t).2 = t := by
    rintro (_ | _) t <;> rfl
  cases choice with
  | volumeName input =>
    cases hinput : isValidName input with
    | false => exact Or.inl (congrArg Prod.snd (exec_volumeName_of_not_valid hnamed hinput))
    | true =>
      have hne : input ≠ [] := by
        rintro rfl
        exact absurd hinput (by decide)
      obtain ⟨w, hrename, -⟩ := rename_named hv hinput (host s).residue
      have hvolume : Session.onVolume (Volume.rename (host s).residue input) s
          = (.ret true, { s with volume := w }) := Call.onPart_of_eq hrename
      refine Or.inr (Or.inl ⟨input, w, _, hinput, hrename, rfl, ?_⟩)
      have hexec : ((Choice.volumeName input).exec host s).2
          = (Session.onFiles (w.save (host s).save s.pathname)
              ⟨w, s.pathname, s.files, s.asked ++ [.save s.pathname]⟩).2 := by
        rw [Choice.exec_eq hnamed]
        simp only [if_neg hne, hinput, Bool.true_eq_false, if_false]
        rw [Call.bind_snd hdone, Session.renameVolume, Call.bind_of_ret hvolume,
          Call.get_bind_apply, Session.ask, Call.modify_bind_apply]
      rw [hexec]
      exact ⟨rfl, rfl, rfl⟩
  | imageName =>
    refine Or.inr (Or.inr ⟨rfl, ?_⟩)
    rw [Choice.exec_eq hnamed]
    simp only []
    rw [Call.bind_snd hdone, Session.renameImage, Call.modify_bind_apply, Call.get_bind_apply,
      Call.bind_of_ret (name_of_accepted hv _), Session.ask, Call.modify_bind_apply]
    cases hfiles : (host s).rename (cStr (removeFilename s.pathname))
      (cStr (removeFilename s.pathname ++ Entry.fileName s.volume.header ++ ascii ".po"))
      s.files with
    | none => exact ⟨rfl, Or.inl rfl⟩
    | some files => exact ⟨rfl, Or.inr ⟨_, _, hfiles⟩⟩
  | other input => exact Or.inl (congrArg Prod.snd (Choice.exec_eq hnamed _))

/-- What every choice preserves, a session preserves. The induction is on what is typed. -/
theorem sRenameLoop_invariant {I : Session → Prop} : ∀ {choices : List Choice} {s : Session},
    (∀ choice ∈ choices, ∀ s, I s → I (choice.exec host s).2) → I s →
      I (sRenameLoop host choices s).2 := by
  intro choices
  induction choices with
  | nil =>
    intro s _ hs
    rw [sRenameLoop, Call.get_bind_apply, Call.bind_snd fun _ _ => rfl, name_snd]
    exact hs
  | cons choice choices ih =>
    intro s hstep hs
    rw [sRenameLoop]
    refine Call.bind_keeps (hstep choice (List.mem_cons_self ..) s hs) fun done t ht => ?_
    cases done with
    | none => exact ih (fun c hc => hstep c (List.mem_cons_of_mem _ hc)) ht
    | some code => exact ht

end

/-- **What a save does to the files**, however it ends. -/
theorem save_files {d : Disk} (hsize : d.size ≠ Disk.sizeMinusOne) (calls : Disk.SaveCalls)
    (path : Str) (fs : Disk.Files) :
    (d.save calls path fs).2 = fs ∨
    (d.save calls path fs).2 = Function.update fs (path ++ ascii ".tmp")
      (some (Image.ofFn (calls.written.getD 0) d.mem)) ∨
    (d.save calls path fs).2 = Function.update (Function.update fs path (some d.image))
      (path ++ ascii ".tmp") none := by
  cases hopens : calls.opens with
  | false => exact Or.inl (congrArg Prod.snd (Disk.save_of_not_opens hopens))
  | true =>
    by_cases hwritten : calls.written.getD Disk.sizeMinusOne = d.size
    · cases hrenames : calls.renames with
      | false =>
        exact Or.inr (Or.inl (congrArg Prod.snd
          (Disk.save_of_not_renames hopens hwritten hrenames)))
      | true =>
        have hn : calls.written.getD 0 = d.size := by
          cases hw : calls.written with
          | none =>
            rw [hw] at hwritten
            exact absurd hwritten.symm hsize
          | some n =>
            rw [hw] at hwritten
            exact hwritten
        refine Or.inr (Or.inr ?_)
        rw [Disk.save]
        simp only [hopens, hwritten, hrenames, hn, Call.modify_bind_apply, Call.ite_apply,
          Bool.not_true, Bool.false_eq_true, if_false, ne_eq, not_true_eq_false]
        rw [Function.update_idem, Function.update_self,
          Function.update_comm (Disk.ne_append_tmp path).symm, Function.update_idem]
        rfl
    · exact Or.inr (Or.inl (congrArg Prod.snd (Disk.save_of_ne_written hopens hwritten)))

/-! ### A run and the files -/

section
variable {inv : Invocation} {t : Terminal}

/-- The image a run opens is one of the files. -/
theorem openVolume_found {v : Volume} {o : Opening} {path : Str}
    (h : openVolume inv.env (inv.found t.files path) = (.ret v, o)) :
    ∃ contents, t.files path = some contents ∧
      openVolume inv.env (.regular contents) = (.ret v, o) := by
  obtain ⟨contents, hregular, -⟩ := openVolume_of_ret h
  rw [hregular] at h
  refine ⟨contents, ?_, h⟩
  rw [Invocation.found] at hregular
  cases hrefused : inv.refused path with
  | some strerror =>
    rw [hrefused] at hregular
    cases hregular
  | none =>
    rw [hrefused] at hregular
    cases hfile : t.files path with
    | none =>
      simp only [hfile] at hregular
      cases hregular
    | some x =>
      simp only [hfile] at hregular
      cases hregular
      rfl

theorem sOpenVolume_files (path : Str) : (sOpenVolume inv path t).2.files = t.files := by
  rw [sOpenVolume]
  rcases openVolume inv.env (inv.found t.files path) with ⟨_ | _ | _ | _, o⟩ <;> rfl

/-- A catalogue changes no file. -/
theorem sCatalog_files : (sCatalog inv t).2.files = t.files := by
  let I (t' : Terminal) : Prop := t'.files = t.files
  rw [sCatalog]
  split
  · rfl
  · refine Call.bind_keeps (I := I) (sOpenVolume_files _) ?_
    rintro (_ | v) t' ht
    · exact ht
    · refine Call.bind_keeps (I := I) ht ?_
      rintro (_ | text) t'' ht'
      · exact ht'
      · exact ht'

theorem sNormalize_files (env : Environment) (found : Str → ImageFile) (calls : Disk.SaveCalls)
    (argv : List Str) (fs : Disk.Files) : (sNormalize env found calls argv fs).2 = fs ∨
    ∃ v o, openVolume env (found (argv.getD 2 [])) = (.ret v, o) ∧
      (sNormalize env found calls argv fs).2 = (v.disk.save calls (argv.getD 3 []) fs).2 := by
  rw [sNormalize, Call.ite_apply]
  split
  · exact Or.inl rfl
  by_cases h : ∃ v, (openVolume env (found (argv.getD 2 []))).1 = .ret v
  · obtain ⟨v, hv⟩ := h
    have hret : (fun fs => ((openVolume env (found (argv.getD 2 []))).1, fs) :
        Call Exn Disk.Files Volume) fs = (.ret v, fs) := Prod.ext hv rfl
    rw [Call.bind_of_ret hret, Call.ite_apply]
    split
    · exact Or.inl rfl
    · refine Or.inr ⟨v, _, Prod.ext hv rfl, Call.bind_snd (fun saved fs => ?_) _⟩
      cases saved <;> rfl
  · exact Or.inl (Call.bind_snd_of_ne_ret rfl fun v hv => h ⟨v, hv⟩)

/-- What `S_Normalize` does to the files. -/
theorem normalizes_files : (normalizes inv t).2.files = t.files ∨
    ∃ v o, openVolume inv.env (inv.found t.files (inv.argv.getD 2 [])) = (.ret v, o) ∧
      (normalizes inv t).2.files = (v.disk.save inv.calls (inv.argv.getD 3 []) t.files).2 := by
  let I (t' : Terminal) : Prop :=
    t'.files = (sNormalize inv.env (inv.found t.files) inv.calls inv.argv t.files).2
  have hfiles : I (normalizes inv t).2 := by
    refine Call.bind_keeps (I := I) rfl fun ended t' ht => ?_
    have hreport : (ended.report inv.errno t').files = t'.files := by cases ended <;> rfl
    exact hreport.trans ht
  rw [hfiles]
  exact sNormalize_files ..

/-- What `S_Rename` does to the files. -/
theorem renames_files : (renames inv t).2.files = t.files ∨
    ∃ v o, openVolume inv.env (inv.found t.files (inv.argv.getD 2 [])) = (.ret v, o) ∧
      (renames inv t).2.files
        = (sRenameLoop inv.host inv.choices (.start v (inv.argv.getD 2 []) t.files)).2.files :=
  sRename_files ..

/-- **What one run does to the files.** A run that does anything at all has opened a volume, and
saves it. -/
theorem main_files : (main inv t).2.files = t.files ∨
    (∃ v o, openVolume inv.env (inv.found t.files (inv.argv.getD 2 [])) = (.ret v, o) ∧
      inv.argv.getD 1 [] = ascii "normalize" ∧
      (main inv t).2.files = (v.disk.save inv.calls (inv.argv.getD 3 []) t.files).2) ∨
    ∃ v o, openVolume inv.env (inv.found t.files (inv.argv.getD 2 [])) = (.ret v, o) ∧
      inv.argv.getD 1 [] = ascii "rename" ∧ (main inv t).2.files
        = (sRenameLoop inv.host inv.choices (.start v (inv.argv.getD 2 []) t.files)).2.files := by
  rw [main]
  simp only [Call.ite_apply]
  split
  · exact Or.inl rfl
  split
  · exact Or.inl sCatalog_files
  split
  · rename_i hcmd
    rcases @normalizes_files inv t with h | ⟨v, o, hopen, h⟩
    · exact Or.inl h
    · exact Or.inr (Or.inl ⟨v, o, hopen, hcmd, h⟩)
  split
  · rename_i hcmd
    rcases @renames_files inv t with h | ⟨v, o, hopen, h⟩
    · exact Or.inl h
    · exact Or.inr (Or.inr ⟨v, o, hopen, hcmd, h⟩)
  · exact Or.inl rfl

/-- A run of `normalize` that has written something. -/
theorem sNormalize_wrote {env : Environment} {found : Str → ImageFile} {calls : Disk.SaveCalls}
    {argv : List Str} {fs fs' : Disk.Files}
    (h : sNormalize env found calls argv fs = (.ret .wrote, fs')) :
    ∃ v o, openVolume env (found (argv.getD 2 [])) = (.ret v, o) ∧ v.disk.dirty = true ∧
      v.save calls (argv.getD 3 []) fs = (.ret true, fs') := by
  rw [sNormalize, Call.ite_apply] at h
  split at h
  · cases h
  obtain ⟨v, fs₁, hopen, h⟩ := Call.bind_eq_ret_iff.mp h
  obtain ⟨hv, rfl⟩ := Prod.mk.inj hopen
  rw [Call.ite_apply] at h
  split at h
  · cases h
  · rename_i hdirty
    obtain ⟨saved, fs₂, hsave, h⟩ := Call.bind_eq_ret_iff.mp h
    cases saved with
    | false => cases h
    | true =>
      cases h
      exact ⟨v, _, Prod.ext hv rfl, by simpa using hdirty, hsave⟩

/-- A run of `normalize`. -/
theorem main_normalize {prog input output : Str}
    (hargv : inv.argv = [prog, ascii "normalize", input, output]) :
    main inv t = normalizes inv t := by
  have hne : ascii "normalize" ≠ ascii "catalog" := by decide
  rw [main, hargv]
  exact congrFun ((if_neg (by simp)).trans ((if_neg hne).trans (if_pos rfl))) t

/-- A run of `normalize` that has something to write, and writes it. -/
theorem main_normalize_of_save {prog input output : Str} {v : Volume} {o : Opening}
    {fs : Disk.Files} (hargv : inv.argv = [prog, ascii "normalize", input, output])
    (hopen : openVolume inv.env (inv.found t.files input) = (.ret v, o))
    (hdirty : v.disk.dirty = true) (hsave : v.save inv.calls output t.files = (.ret true, fs)) :
    main inv t = (.ret exitSuccess, { t with files := fs }.printed
      (ascii "diskutil: wrote normalized prodos disk\n")) := by
  have hlength : ¬ inv.argv.length ≠ 4 := by
    rw [hargv]
    simp
  have hopened : (fun fs => ((openVolume inv.env (inv.found t.files input)).1, fs) :
      Call Exn Disk.Files Volume) t.files = (.ret v, t.files) := by rw [hopen]
  have hnot : ¬ v.disk.dirty = false := by simp [hdirty]
  have hrun : sNormalize inv.env (inv.found t.files) inv.calls inv.argv t.files
      = (.ret .wrote, fs) := by
    rw [sNormalize, Call.ite_apply, if_neg hlength, hargv]
    refine (Call.bind_of_ret hopened).trans ?_
    rw [Call.ite_apply, if_neg hnot]
    exact Call.bind_of_ret hsave
  have hfiles : Terminal.onFiles (fun fs =>
      sNormalize inv.env (inv.found fs) inv.calls inv.argv fs) t
        = (.ret .wrote, { t with files := fs }) :=
    Call.onPart_of_eq (m := fun fs => sNormalize inv.env (inv.found fs) inv.calls inv.argv fs) hrun
  rw [main_normalize hargv, normalizes, Call.bind_of_ret hfiles]
  rfl

/-- A run of `catalog`. -/
theorem main_catalog {prog input : Str} (hargv : inv.argv = [prog, ascii "catalog", input]) :
    main inv t = sCatalog inv t := by
  rw [main, hargv]
  exact congrFun ((if_neg (by simp)).trans (if_pos rfl)) t

/-- **When a catalogue is printed.** -/
theorem main_catalog_eq_iff {prog input : Str} {t' : Terminal}
    (hargv : inv.argv = [prog, ascii "catalog", input]) :
    main inv t = (.ret exitSuccess, t') ↔
      ∃ v o text err, openVolume inv.env (inv.found t.files input) = (.ret v, o) ∧
        catalog v inv.fuel (ascii "/") .none = (.ret (some text), err) ∧
        t' = t.printed (cStr text) := by
  have hlength : ¬ inv.argv.length ≠ 3 := by
    rw [hargv]
    simp
  have hinput : inv.argv.getD 2 [] = input := by
    rw [hargv]
    rfl
  rw [main_catalog hargv, sCatalog, Call.ite_apply, if_neg hlength, hinput]
  constructor
  · intro h
    obtain ⟨volume, t₁, hopened, h⟩ := Call.bind_eq_ret_iff.mp h
    rw [sOpenVolume] at hopened
    rcases hopen : openVolume inv.env (inv.found t.files input) with ⟨v | e | _ | _, o⟩
    · rw [hopen] at hopened
      cases hopened
      obtain ⟨text, t₂, hcatalog, h⟩ := Call.bind_eq_ret_iff.mp h
      obtain ⟨htext, rfl⟩ := Prod.mk.inj hcatalog
      cases text with
      | none => cases h
      | some text =>
        cases h
        exact ⟨v, o, text, _, rfl, Prod.ext htext rfl, rfl⟩
    · rw [hopen] at hopened
      cases hopened
      cases h
    all_goals
      rw [hopen] at hopened
      cases hopened
  · rintro ⟨v, o, text, err, hopen, hcatalog, rfl⟩
    have hopened : sOpenVolume inv input t = (.ret (some v), t) := by rw [sOpenVolume, hopen]
    have htext : (fun t => ((catalog v inv.fuel (ascii "/") .none).1, t) :
        Call Exn Terminal (Option Str)) t = (.ret (some text), t) := by rw [hcatalog]
    rw [Call.bind_of_ret hopened]
    exact (Call.bind_of_ret htext).trans rfl

end

end Diskutil

end Prodosfs
