import Prodosfs.Normalize
import Prodosfs.Renaming

/-!
# The renaming session

`diskutil rename` opens an image and then asks what to do until it is told to stop: rename the
volume and save the image, or rename the image file after the volume. It keeps the path of the image
in a variable that both of them use.

The second of them does not do what it is for. `remove_filename` changes the path it is called on,
so that it is the directory that is renamed, to what should be the new name of the image, and the
path of the image is lost.

## Main definitions

* `Session`, `Choice.exec` — the session
* `Intended` — what it is for
* `Tracks` — the session does what it is for

## Main results

* `sRenameLoop_returns` — a session in which the image can be saved comes to an end
* `session_tracks_iff` — when a session keeps track of the image
-/

namespace Prodosfs

/-! ### The session -/

/-- What the session asks of the file system. -/
inductive FileRequest where
  | save (pathname : Str)
  | rename (old new : Str)
  deriving DecidableEq

/-- The program between two choices. -/
structure Session where
  volume : Volume
  /-- `pathname` -/
  pathname : Str
  files : Disk.Files
  asked : List FileRequest

/-- What is typed at the prompt, up to the `3` that ends the session. -/
inductive Choice where
  /-- `1`, and a name. -/
  | volumeName (input : Str)
  /-- `2` -/
  | imageName
  | other (input : Str)
  deriving DecidableEq

/-- What surrounds a choice. -/
structure Host where
  /-- What follows a name in memory. -/
  residue : Block
  save : Disk.SaveCalls
  /-- What `rename` leaves of the files, unless it fails. -/
  rename : Str → Str → Disk.Files → Option Disk.Files

/-- `path::remove_filename` -/
def removeFilename (pathname : Str) : Str := (pathname.reverse.dropWhile (· ≠ 47)).reverse

/-- `EXIT_SUCCESS` -/
def exitSuccess : ℤ := 0

/-- `EXIT_FAILURE` -/
def exitFailure : ℤ := 1

namespace Session

/-- Ask something of the file system. -/
def ask (request : FileRequest) : Call Exn Session Unit :=
  modify fun s => { s with asked := s.asked ++ [request] }

/-- A call on the volume. -/
def onVolume {α : Type} (call : Call Exn Volume α) : Call Exn Session α :=
  Call.onPart Session.volume (fun s v => { s with volume := v }) call

/-- A call on the files. -/
def onFiles {α : Type} (call : Call Exn Disk.Files α) : Call Exn Session α :=
  Call.onPart Session.files (fun s fs => { s with files := fs }) call

/-- The part of `S_Rename` for a new name of the volume: whether the image was saved. -/
def renameVolume (host : Host) (input : Str) : Call Exn Session Bool := do
  let _ ← onVolume (Volume.rename host.residue input)
  let s ← get
  ask (.save s.pathname)
  onFiles (s.volume.save host.save s.pathname)

/-- The part of `S_Rename` for a new name of the image: whether it was given to it.
`remove_filename` changes `pathname`. -/
def renameImage (host : Host) : Call Exn Session Bool := do
  modify fun s => { s with pathname := removeFilename s.pathname }
  let s ← get
  let name ← s.volume.name
  let newName := s.pathname ++ name ++ ascii ".po"
  ask (.rename (cStr s.pathname) (cStr newName))
  match host.rename (cStr s.pathname) (cStr newName) s.files with
  | none => pure false
  | some files => do
    modify fun s => { s with files := files }
    pure true

end Session

/-- One round of the loop of `S_Rename`: the exit code, if the program ends here. The two names are
printed first. -/
def Choice.exec (host : Session → Host) (choice : Choice) : Call Exn Session (Option ℤ) := do
  let s ← get
  let _ ← s.volume.name
  match choice with
  | .volumeName input =>
    if input = [] then pure none
    else if isValidName input = false then pure none
    else do
      let saved ← Session.renameVolume (host s) input
      if saved = false then pure (some exitFailure) else pure none
  | .imageName => do
    let renamed ← Session.renameImage (host s)
    if renamed = false then pure (some exitFailure) else pure none
  | .other _ => pure none

/-- The loop of `S_Rename`, over what is typed before the `3`. -/
def sRenameLoop (host : Session → Host) : List Choice → Call Exn Session ℤ
  | [] => do
    let s ← get
    let _ ← s.volume.name
    pure exitSuccess
  | choice :: choices => do
    let done ← choice.exec host
    match done with
    | some code => pure code
    | none => sRenameLoop host choices

/-- `S_Rename`. An exception from opening the image is caught, and one from the catalogue is not. -/
def sRename (env : Environment) (found : Str → ImageFile) (fuel : ℕ) (host : Session → Host)
    (argv : List Str) (choices : List Choice) : Call Exn Disk.Files ℤ :=
  if argv.length ≠ 3 then pure exitFailure
  else fun fs =>
    match openVolume env (found (argv.getD 2 [])) with
    | (.throw _, _) => (.ret exitFailure, fs)
    | (.fault, _) => (.fault, fs)
    | (.timeout, _) => (.timeout, fs)
    | (.ret v, _) =>
      match catalog v fuel (ascii "/") .none with
      | (.throw e, _) => (.throw e, fs)
      | (.fault, _) => (.fault, fs)
      | (.timeout, _) => (.timeout, fs)
      | (.ret none, _) => (.fault, fs)
      | (.ret (some _), _) =>
        let (o, s) := sRenameLoop host choices ⟨v, argv.getD 2 [], fs, []⟩
        (o, s.files)

/-! ### What it is for -/

/-- The name of the volume, the path of the image, and what should have been asked. -/
structure Intended where
  name : Str
  file : Str
  asked : List FileRequest

/-- What a choice is for. A valid name is given to the volume, and the image is saved where it is;
the image is renamed from where it is, in its directory. -/
def Intended.step (i : Intended) : Choice → Intended
  | .volumeName input =>
    if isValidName input then
      { i with name := input.map toupper, asked := i.asked ++ [.save i.file] }
    else i
  | .imageName =>
    let new := removeFilename i.file ++ i.name ++ ascii ".po"
    { i with file := new, asked := i.asked ++ [.rename i.file new] }
  | .other _ => i

/-- What a list of choices is for. -/
def Intended.after (i : Intended) (choices : List Choice) : Intended :=
  choices.foldl Intended.step i

theorem Intended.after_concat (i : Intended) (choices : List Choice) (choice : Choice) :
    i.after (choices ++ [choice]) = (i.after choices).step choice :=
  List.foldl_concat _ _ _ _

/-- The session has the path of the image, it has asked for what it should have, and when it has
saved the image there the file is the image in memory. -/
structure Tracks (s : Session) (i : Intended) : Prop where
  pathname : s.pathname = i.file
  asked : s.asked = i.asked
  saved : .save i.file ∈ i.asked → s.files i.file = some s.volume.disk.image

/-- Saving the image succeeds. -/
structure Host.Saves (host : Host) (s : Session) : Prop where
  opens : host.save.opens
  written : host.save.written = some s.volume.disk.size
  renames : host.save.renames

/-! ### One choice -/

/-- The volume is an accepted one with the name it should have. -/
structure Session.Named (s : Session) (name : Str) : Prop where
  accepted : s.volume.Accepted
  name : Entry.fileName s.volume.header = name

section
variable {host : Session → Host} {s : Session} {i : Intended} {name : Str}

/-- A round starts with looking at the name. -/
theorem Choice.exec_eq (hnamed : s.Named name) (choice : Choice) : choice.exec host s =
    (match choice with
      | .volumeName input =>
        if input = [] then pure none
        else if isValidName input = false then pure none
        else do
          let saved ← Session.renameVolume (host s) input
          if saved = false then pure (some exitFailure) else pure none
      | .imageName => do
        let renamed ← Session.renameImage (host s)
        if renamed = false then pure (some exitFailure) else pure none
      | .other _ => pure none : Call Exn Session (Option ℤ)) s := by
  rw [Choice.exec, Call.get_bind_apply, Call.bind_of_ret (name_of_accepted hnamed.accepted s)]

/-- An input that is not a name changes nothing. -/
theorem exec_volumeName_of_not_valid (hnamed : s.Named name) {input : Str}
    (hinvalid : isValidName input = false) :
    (Choice.volumeName input).exec host s = (.ret none, s) := by
  rw [Choice.exec_eq hnamed]
  simp only [hinvalid, if_true, ite_self]
  rfl

/-- What a session needs to know of a rename. -/
theorem rename_named {v : Volume} (hv : v.Accepted) (hvalid : isValidName name) (residue : Block) :
    ∃ w, Volume.rename residue name v = (.ret true, w) ∧ w.Accepted ∧
      w.disk.size = v.disk.size ∧ Entry.fileName w.header = name.map toupper := by
  have hlen := (isValidName_iff.mp (isValidName_map_toupper hvalid)).2.1
  have hren : v.Renamed (v.edited residue (name.map toupper)).touched := renamed_edited hlen
  exact ⟨_, Volume.rename_of_valid hvalid residue hv.blocks, hv.of_renamed hren rfl, rfl,
    fileName_header_edited residue hlen fun _ _ _ => rfl⟩

/-- A valid name is given to the volume, and the image is saved where the session takes it to be. -/
theorem exec_volumeName (hnamed : s.Named name) (hsaves : (host s).Saves s) {input : Str}
    (hvalid : isValidName input) :
    ∃ t, (Choice.volumeName input).exec host s = (.ret none, t) ∧ t.pathname = s.pathname ∧
      t.asked = s.asked ++ [.save s.pathname] ∧ t.Named (input.map toupper) ∧
      t.files s.pathname = some t.volume.disk.image := by
  have hne : input ≠ [] := by
    rintro rfl
    exact absurd hvalid (by decide)
  have hnot : ¬ isValidName input = false := by simp [hvalid]
  obtain ⟨w, hrename, hw, hsize, hname⟩ := rename_named hnamed.accepted hvalid (host s).residue
  obtain ⟨fs, hsave⟩ := Disk.save_of_calls (d := w.disk) hsaves.opens
    (hsaves.written.trans (congrArg some hsize.symm)) hsaves.renames s.pathname s.files
  have himage := Disk.save_of_ret_true hw.size_ne hsave
  refine ⟨⟨w, s.pathname, fs, s.asked ++ [.save s.pathname]⟩, ?_, rfl, rfl, ⟨hw, hname⟩, himage⟩
  have hrun : Session.renameVolume (host s) input s
      = (.ret true, ⟨w, s.pathname, fs, s.asked ++ [.save s.pathname]⟩) := by
    have hvolume : Session.onVolume (Volume.rename (host s).residue input) s
        = (.ret true, { s with volume := w }) := Call.onPart_of_eq hrename
    rw [Session.renameVolume, Call.bind_of_ret hvolume, Call.get_bind_apply, Session.ask,
      Call.modify_bind_apply]
    exact Call.onPart_of_eq hsave
  rw [Choice.exec_eq hnamed]
  simp only [if_neg hne, if_neg hnot]
  rw [Call.bind_of_ret hrun]
  rfl

/-- The path of the image is the path of its directory from here on, and it is the directory that is
renamed, whether or not this succeeds. -/
theorem exec_imageName (hnamed : s.Named name) :
    ∃ done t, Choice.imageName.exec host s = (.ret done, t) ∧
      t.pathname = removeFilename s.pathname ∧ t.volume = s.volume ∧
      t.asked = s.asked ++ [.rename (cStr (removeFilename s.pathname))
        (cStr (removeFilename s.pathname ++ name ++ ascii ".po"))] := by
  have hrun : Session.renameImage (host s) s =
      (match (host s).rename (cStr (removeFilename s.pathname))
          (cStr (removeFilename s.pathname ++ name ++ ascii ".po")) s.files with
        | none => pure false
        | some files => do
          modify fun s => { s with files := files }
          pure true : Call Exn Session Bool)
        ⟨s.volume, removeFilename s.pathname, s.files, s.asked ++ [.rename
          (cStr (removeFilename s.pathname))
          (cStr (removeFilename s.pathname ++ name ++ ascii ".po"))]⟩ := by
    rw [Session.renameImage, Call.modify_bind_apply, Call.get_bind_apply,
      Call.bind_of_ret (name_of_accepted hnamed.accepted _), Session.ask, Call.modify_bind_apply,
      hnamed.name]
  rw [Choice.exec_eq hnamed]
  cases hfiles : (host s).rename (cStr (removeFilename s.pathname))
    (cStr (removeFilename s.pathname ++ name ++ ascii ".po")) s.files with
  | none =>
    rw [hfiles] at hrun
    exact ⟨_, _, (Call.bind_of_ret hrun).trans rfl, rfl, rfl, rfl⟩
  | some files =>
    rw [hfiles] at hrun
    exact ⟨_, _, (Call.bind_of_ret (hrun.trans rfl)).trans rfl, rfl, rfl, rfl⟩

/-- Every round comes to its end. -/
theorem exec_returns (hnamed : s.Named name) (hsaves : (host s).Saves s) (choice : Choice) :
    ∃ done t name', choice.exec host s = (.ret done, t) ∧ t.Named name' := by
  cases choice with
  | volumeName input =>
    cases hinput : isValidName input with
    | false => exact ⟨none, s, name, exec_volumeName_of_not_valid hnamed hinput, hnamed⟩
    | true =>
      obtain ⟨t, hexec, -, -, ht, -⟩ := exec_volumeName hnamed hsaves hinput
      exact ⟨none, t, _, hexec, ht⟩
  | imageName =>
    obtain ⟨done, t, hexec, -, hvolume, -⟩ := @exec_imageName host s name hnamed
    exact ⟨done, t, name, hexec, ⟨hvolume ▸ hnamed.accepted, hvolume ▸ hnamed.name⟩⟩
  | other input => exact ⟨none, s, name, Choice.exec_eq hnamed _, hnamed⟩

/-- Any choice but the second keeps track, and leads back to the prompt. -/
theorem Tracks.exec (htracks : Tracks s i) (hnamed : s.Named i.name) (hsaves : (host s).Saves s)
    {choice : Choice} (hchoice : choice ≠ .imageName) :
    ∃ t, choice.exec host s = (.ret none, t) ∧ Tracks t (i.step choice) ∧
      t.Named (i.step choice).name := by
  cases choice with
  | volumeName input =>
    cases hinput : isValidName input with
    | false =>
      rw [Intended.step, hinput]
      exact ⟨s, exec_volumeName_of_not_valid hnamed hinput, htracks, hnamed⟩
    | true =>
      obtain ⟨t, hexec, hpathname, hasked, ht, hsaved⟩ := exec_volumeName hnamed hsaves hinput
      rw [Intended.step, if_pos hinput]
      exact ⟨t, hexec, ⟨hpathname.trans htracks.pathname,
        by rw [hasked, htracks.asked, htracks.pathname], fun _ => htracks.pathname ▸ hsaved⟩, ht⟩
  | imageName => exact absurd rfl hchoice
  | other input => exact ⟨s, Choice.exec_eq hnamed _, htracks, hnamed⟩

end

/-! ### Sessions -/

/-- The program when the first prompt comes. -/
def Session.start (v : Volume) (pathname : Str) (files : Disk.Files) : Session :=
  ⟨v, pathname, files, []⟩

/-- Nothing has been asked for when the first prompt comes. -/
def Intended.start (v : Volume) (pathname : Str) : Intended :=
  ⟨Entry.fileName v.header, pathname, []⟩

section
variable {host : Session → Host} {v : Volume} {pathname : Str} {files : Disk.Files}

theorem tracks_start (hv : v.Accepted) : Tracks (.start v pathname files) (.start v pathname) ∧
    (Session.start v pathname files).Named (Intended.start v pathname).name :=
  ⟨⟨rfl, rfl, fun h => absurd h List.not_mem_nil⟩, ⟨hv, rfl⟩⟩

/-- At the `3` nothing changes. -/
theorem sRenameLoop_nil {s : Session} {name : Str} (hnamed : s.Named name) :
    sRenameLoop host [] s = (.ret exitSuccess, s) := by
  rw [sRenameLoop, Call.get_bind_apply, Call.bind_of_ret (name_of_accepted hnamed.accepted s)]
  rfl

/-- A session in which the image can be saved comes to an end, with the `3` or before. The induction
is on what is typed. -/
theorem sRenameLoop_returns (hsaves : ∀ s, (host s).Saves s) : ∀ (choices : List Choice)
    {s : Session} {name : Str}, s.Named name →
      ∃ code t, sRenameLoop host choices s = (.ret code, t) := by
  intro choices
  induction choices with
  | nil =>
    intro s name hnamed
    exact ⟨exitSuccess, s, sRenameLoop_nil hnamed⟩
  | cons choice choices ih =>
    intro s name hnamed
    obtain ⟨done, t, name', hexec, ht⟩ := exec_returns hnamed (hsaves s) choice
    rw [sRenameLoop, Call.bind_of_ret hexec]
    cases done with
    | none => exact ih ht
    | some code => exact ⟨code, t, rfl⟩

/-- Up to the first choice of the image name a session keeps track, and goes on. The induction is on
what is typed. -/
theorem Tracks.sRenameLoop_append (hsaves : ∀ s, (host s).Saves s) (rest : List Choice) :
    ∀ {before : List Choice} {s : Session} {i : Intended}, Tracks s i → s.Named i.name →
      .imageName ∉ before →
      ∃ t, sRenameLoop host (before ++ rest) s = sRenameLoop host rest t ∧
        Tracks t (i.after before) ∧ t.Named (i.after before).name := by
  intro before
  induction before with
  | nil => exact fun htracks hnamed _ => ⟨_, rfl, htracks, hnamed⟩
  | cons choice before ih =>
    intro s i htracks hnamed hnot
    obtain ⟨hchoice, hbefore⟩ := List.ne_and_not_mem_of_not_mem_cons hnot
    obtain ⟨t, hexec, htracks', hnamed'⟩ := htracks.exec hnamed (hsaves s) hchoice.symm
    obtain ⟨t', hloop, hafter⟩ := ih htracks' hnamed' hbefore
    refine ⟨t', ?_, hafter⟩
    rw [List.cons_append, sRenameLoop, Call.bind_of_ret hexec]
    exact hloop

/-- **A session in which the image can be saved keeps track of it if and only if it is never renamed
after the volume**, whatever becomes of the renaming. -/
theorem session_tracks_iff (hv : v.Accepted) (hsaves : ∀ s, (host s).Saves s)
    (pathname : Str) (files : Disk.Files) (choices : List Choice) :
    (∀ k, Tracks (sRenameLoop host (choices.take k) (.start v pathname files)).2
        ((Intended.start v pathname).after (choices.take k))) ↔
      .imageName ∉ choices := by
  obtain ⟨htracks, hnamed⟩ := @tracks_start v pathname files hv
  constructor
  · intro hall hmem
    obtain ⟨before, rest, rfl, hfirst⟩ := List.eq_append_cons_of_mem hmem
    have htake : (before ++ .imageName :: rest).take (before.length + 1)
        = before ++ [.imageName] := by
      rw [List.take_append, List.take_of_length_le (Nat.le_succ _), Nat.add_sub_cancel_left]
      rfl
    obtain ⟨t, hloop, htracks', hnamed'⟩ :=
      htracks.sRenameLoop_append hsaves [.imageName] hnamed hfirst
    obtain ⟨done, t', hexec, hpathname, hvolume, -⟩ := @exec_imageName host t _ hnamed'
    have hend : (sRenameLoop host [.imageName] t).2 = t' := by
      rw [sRenameLoop, Call.bind_of_ret hexec]
      cases done with
      | none => exact congrArg Prod.snd (sRenameLoop_nil ⟨hvolume ▸ hnamed'.accepted, rfl⟩)
      | some code => rfl
    -- what is intended ends in `.po`, and the path of the directory does not have that much
    have hlost := (hall (before.length + 1)).pathname
    rw [htake, hloop, hend, hpathname, htracks'.pathname, Intended.after_concat] at hlost
    have hlength := congrArg List.length hlost
    simp [Intended.step, ascii] at hlength
  · intro hnot k
    have hnot' : .imageName ∉ choices.take k := fun hmem => hnot (List.mem_of_mem_take hmem)
    obtain ⟨t, hloop, htracks', hnamed'⟩ := htracks.sRenameLoop_append hsaves [] hnamed hnot'
    rw [List.append_nil, sRenameLoop_nil hnamed'] at hloop
    rw [hloop]
    exact htracks'

/-- After the catalogue has been printed, `diskutil rename` is its loop. -/
theorem sRename_eq {env : Environment} {found : Str → ImageFile} {fuel : ℕ} {host : Session → Host}
    {argv : List Str} {choices : List Choice} {files : Disk.Files} {v : Volume} {o : Opening}
    {text : Str} {err : Err} (hargv : argv.length = 3)
    (hopen : openVolume env (found (argv.getD 2 [])) = (.ret v, o))
    (hcatalog : catalog v fuel (ascii "/") .none = (.ret (some text), err)) :
    sRename env found fuel host argv choices files
      = ((sRenameLoop host choices (.start v (argv.getD 2 []) files)).1,
        (sRenameLoop host choices (.start v (argv.getD 2 []) files)).2.files) := by
  have hlength : ¬ argv.length ≠ 3 := not_not_intro hargv
  simp only [sRename, hopen, hcatalog]
  exact congrFun (if_neg hlength) files

/-- What is left in the files, unless the loop is come to, is what was there. -/
theorem sRename_files (env : Environment) (found : Str → ImageFile) (fuel : ℕ)
    (host : Session → Host) (argv : List Str) (choices : List Choice) (fs : Disk.Files) :
    (sRename env found fuel host argv choices fs).2 = fs ∨
    ∃ v o, openVolume env (found (argv.getD 2 [])) = (.ret v, o) ∧
      (sRename env found fuel host argv choices fs).2
        = (sRenameLoop host choices (.start v (argv.getD 2 []) fs)).2.files := by
  by_cases hargv : argv.length = 3
  · -- any outcome but two that return ends the program
    have hrun : sRename env found fuel host argv choices fs
        = match openVolume env (found (argv.getD 2 [])) with
          | (.throw _, _) => (.ret exitFailure, fs)
          | (.fault, _) => (.fault, fs)
          | (.timeout, _) => (.timeout, fs)
          | (.ret v, _) =>
            match catalog v fuel (ascii "/") .none with
            | (.throw e, _) => (.throw e, fs)
            | (.fault, _) => (.fault, fs)
            | (.timeout, _) => (.timeout, fs)
            | (.ret none, _) => (.fault, fs)
            | (.ret (some _), _) =>
              let (o, s) := sRenameLoop host choices ⟨v, argv.getD 2 [], fs, []⟩
              (o, s.files) := congrFun (if_neg (not_not_intro hargv)) fs
    rcases hopen : openVolume env (found (argv.getD 2 [])) with ⟨v | e | _ | _, o⟩
    · rcases hcatalog : catalog v fuel (ascii "/") .none with ⟨(_ | text) | e | _ | _, err⟩
      · exact Or.inl (by simp only [hrun, hopen, hcatalog])
      · exact Or.inr ⟨v, o, rfl, congrArg Prod.snd (sRename_eq hargv hopen hcatalog)⟩
      all_goals exact Or.inl (by simp only [hrun, hopen, hcatalog])
    all_goals exact Or.inl (by simp only [hrun, hopen])
  · exact Or.inl (congrArg Prod.snd (congrFun (if_pos hargv) fs :
      sRename env found fuel host argv choices fs = (.ret exitFailure, fs)))

end

/-! ### An example -/

/-- Everything succeeds. -/
def smallHost (s : Session) : Host where
  residue := fun _ => 0
  save := ⟨true, some s.volume.disk.size, true, ""⟩
  rename old new files :=
    some fun path => if path = new then files old else if path = old then none else files path

theorem saves_small (s : Session) : (smallHost s).Saves s := ⟨rfl, rfl, rfl⟩

/-- The volume is renamed, and the image is saved where it is. -/
theorem session_tracks_iff_small : ∃ s,
    (sRenameLoop smallHost [.volumeName (ascii "B"), .other (ascii "4")]
      (.start smallVolume (ascii "d/a.po") fun _ => none)).2 = s ∧
    s.pathname = ascii "d/a.po" ∧ s.asked = [.save (ascii "d/a.po")] ∧
    s.files (ascii "d/a.po") = some s.volume.disk.image := by
  have htracks := (session_tracks_iff accepted_small saves_small (ascii "d/a.po") (fun _ => none)
    [.volumeName (ascii "B"), .other (ascii "4")]).mpr (by decide) 2
  exact ⟨_, rfl, htracks.pathname, htracks.asked, htracks.saved (by decide)⟩

/-- The directory is what is renamed, and what the image is saved to later. -/
theorem not_session_tracks_small :
    (sRenameLoop smallHost [.imageName, .volumeName (ascii "B")]
        (.start smallVolume (ascii "d/a.po") fun _ => none)).2.asked
      = [.rename (ascii "d/") (ascii "d/A.po"), .save (ascii "d/")] ∧
    ((Intended.start smallVolume (ascii "d/a.po")).after
        [.imageName, .volumeName (ascii "B")]).asked
      = [.rename (ascii "d/a.po") (ascii "d/A.po"), .save (ascii "d/A.po")] ∧
    ¬ Tracks (sRenameLoop smallHost [.imageName, .volumeName (ascii "B")]
        (.start smallVolume (ascii "d/a.po") fun _ => none)).2
      ((Intended.start smallVolume (ascii "d/a.po")).after
        [.imageName, .volumeName (ascii "B")]) := by
  have hasked : (sRenameLoop smallHost [.imageName, .volumeName (ascii "B")]
      (.start smallVolume (ascii "d/a.po") fun _ => none)).2.asked
      = [.rename (ascii "d/") (ascii "d/A.po"), .save (ascii "d/")] := by decide +kernel
  have hintended : ((Intended.start smallVolume (ascii "d/a.po")).after
      [.imageName, .volumeName (ascii "B")]).asked
      = [.rename (ascii "d/a.po") (ascii "d/A.po"), .save (ascii "d/A.po")] := by decide +kernel
  refine ⟨hasked, hintended, fun htracks => ?_⟩
  have hsame := htracks.asked
  rw [hasked, hintended] at hsame
  exact absurd hsame (by decide)

end Prodosfs
