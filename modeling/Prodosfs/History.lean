import Prodosfs.Aliases
import Prodosfs.Commands

/-!
# Histories of diskutil

`diskutil` is run again and again over the same files, with the password or without, and a run may
be cut short by a system call at any time. What becomes of the files?

`Save` either puts a whole image at the path it is given or nothing, and a part of an image can be
left beside it, under the name that ends in `.tmp`. But the output of one run is the input of the
next one, which may be given such a part, or an image that has been normalised and renamed many
times over. A part has the header of the whole, and is rejected for it: the header has the number of
blocks.

The images are shorter than two terabytes, where the number of blocks would be cut to 32 bits.

## Main definitions

* `Disk.Files.Gave` — a volume that comes from one of the files, maybe under another name
* `Disk.Files.Stored` — what a file may be
* `Session.Confined` — what a session may have left at a path

## Main results

* `history_kept` — where the files come from, after any history
* `history_confined` — which of them are not touched, and which are never incomplete
* `normalized_stays` — a normal image is refused, and has the catalogue it always had
-/

namespace Prodosfs

/-! ### Where the files come from -/

/-- `v` has been opened from one of the files, and `w` is what it has become under another name. -/
structure Disk.Files.Gave (fs : Disk.Files) (v w : Volume) : Prop where
  opened : ∃ path contents env o, fs path = some contents ∧
    openVolume env (.regular contents) = (.ret v, o)
  renamed : v.Renamed w
  size : w.disk.size = v.disk.size
  accepted : w.Accepted

/-- A file that was there from the start, or was made of one that was: a whole image, or what a
`write` has left of one. -/
inductive Disk.Files.Stored (fs : Disk.Files) : Image → Prop
  | original {path : Str} {x : Image} (h : fs path = some x) : fs.Stored x
  | whole {v w : Volume} (h : fs.Gave v w) : fs.Stored w.disk.image
  | part {v w : Volume} {n : ℕ} (h : fs.Gave v w) (hn : n ≤ writeMax) (hne : n ≠ w.disk.size) :
      fs.Stored (Image.ofFn n w.disk.mem)

/-- What a session has left so far of the file at a path: the one there was when it started, or a
whole image, if it is the path the session saves to. -/
structure Session.Confined (fs₀ : Disk.Files) (path : Str) (s start : Session) : Prop where
  gave : ∃ v, fs₀.Gave v s.volume
  pathname : s.pathname = start.pathname
  file : s.files path = start.files path ∨ path = start.pathname ∧
    ∃ v w, fs₀.Gave v w ∧ s.files path = some w.disk.image

/-- All files are such files. -/
def Disk.Files.Kept (fs₀ fs : Disk.Files) : Prop := ∀ path x, fs path = some x → fs₀.Stored x

section
variable {fs₀ fs : Disk.Files} {v w : Volume}

theorem Disk.Files.kept_self (fs₀ : Disk.Files) : fs₀.Kept fs₀ := fun _ _ h => .original h

theorem Disk.Files.Gave.of_open {path : Str} {contents : Image} {env : Environment} {o : Opening}
    (hfile : fs₀ path = some contents) (hopen : openVolume env (.regular contents) = (.ret v, o)) :
    fs₀.Gave v v := by
  obtain ⟨-, -, -, -, -, hv, -⟩ := openVolume_of_ret hopen
  exact ⟨⟨path, contents, env, o, hfile, hopen⟩, .refl v, rfl, hv⟩

/-- The volume that is opened from a whole image. -/
theorem Disk.Files.Gave.reopened (h : fs₀.Gave v w) (env : Environment) :
    fs₀.Gave v ⟨Disk.ofImage w.disk.image env.past⟩ := by
  have himage := image_ofImage w.disk.image env.past
  have hle := block2_le h.accepted.blocks
  have hsize := h.size
  exact ⟨h.opened, h.renamed.of_image_eq h.size (by omega) himage, h.size,
    h.accepted.of_image_eq himage⟩

/-- A volume is given another name. -/
theorem Disk.Files.Gave.rename (h : fs₀.Gave v w) {name : Str} (hvalid : isValidName name)
    {residue : Block} {w' : Volume} (hrename : Volume.rename residue name w = (.ret true, w')) :
    fs₀.Gave v w' := by
  have hlen := (isValidName_iff.mp (isValidName_map_toupper hvalid)).2.1
  have hren : w.Renamed (w.edited residue (name.map toupper)).touched := renamed_edited hlen
  rw [Volume.rename_of_valid hvalid residue h.accepted.blocks] at hrename
  cases hrename
  exact ⟨h.opened, h.renamed.trans hren h.size, h.size, h.accepted.of_renamed hren rfl⟩

/-- **A save keeps the files.** -/
theorem Disk.Files.Kept.save (h : fs₀.Kept fs) (hw : fs₀.Gave v w) {calls : Disk.SaveCalls}
    (hwrite : calls.written.getD 0 ≤ writeMax) (path : Str) :
    fs₀.Kept (w.disk.save calls path fs).2 := by
  intro path' x hx
  rcases Diskutil.save_files hw.accepted.size_ne calls path fs with hsave | hsave | hsave
  · exact h path' x (hsave ▸ hx)
  · rw [hsave, Function.update_apply] at hx
    split at hx
    · cases hx
      by_cases hn : calls.written.getD 0 = w.disk.size
      · rw [hn]
        exact .whole hw
      · exact .part hw hwrite hn
    · exact h path' x hx
  · rw [hsave, Function.update_apply, Function.update_apply] at hx
    split at hx
    · cases hx
    · split at hx
      · cases hx
        exact .whole hw
      · exact h path' x hx

/-- The number of blocks of a volume that was opened from a file of less than two terabytes. -/
theorem Disk.Files.Gave.size_lt (h : fs₀.Gave v w)
    (hsize : ∀ path x, fs₀ path = some x → x.size < 2 ^ 41) : w.disk.size < 2 ^ 41 := by
  obtain ⟨path, contents, env, o, hfile, hopen⟩ := h.opened
  obtain ⟨contents', hregular, -, -, hloc, -⟩ := openVolume_of_ret hopen
  cases hregular
  rw [h.size, hloc.size_eq]
  exact hsize path contents hfile

/-- **A part of an image is never opened.** It has the header of the whole one, with its number of
blocks. -/
theorem Disk.Files.Gave.part_rejected (h : fs₀.Gave v w)
    (hsize : ∀ path x, fs₀ path = some x → x.size < 2 ^ 41) {n : ℕ} (hn : n ≤ writeMax)
    (hne : n ≠ w.disk.size) (env : Environment) (u : Volume) (o : Opening) :
    openVolume env (.regular (Image.ofFn n w.disk.mem)) ≠ (.ret u, o) := by
  intro hopen
  obtain ⟨contents, hregular, haligned, hblocks, hloc, hu, -⟩ := openVolume_of_ret hopen
  cases hregular
  have hle : 1024 + 512 ≤ n := block2_le hblocks
  have hmem : ∀ a < n, (Disk.ofImage (Image.ofFn n w.disk.mem) env.past).mem a = w.disk.mem a :=
    fun a ha => (if_pos ha).trans (Image.byte_ofFn _ ha)
  have hprobe : firstProbe (Disk.ofImage (Image.ofFn n w.disk.mem) env.past) := by
    rw [firstProbe, isVolumeDirectoryBlock_congr (y := w.disk.at 1024) (hmem 1024 (by omega))
      (hmem 1025 (by omega)) (hmem 1028 (by omega))]
    exact h.accepted.directory
  have hdisk := hloc.eq_of_first hprobe
  have htotal : u.totalBlocks = w.totalBlocks := by
    rw [Volume.totalBlocks, Volume.totalBlocks]
    refine leRead16_congr ?_ ?_
    · rw [Volume.header, hdisk]
      exact hmem 1065 (by omega)
    · rw [Volume.header, hdisk]
      exact hmem 1066 (by omega)
  have hnum := hu.totalBlocks
  rw [htotal, h.accepted.totalBlocks, hdisk, Disk.numBlocks, Disk.numBlocks] at hnum
  have hwhole := h.accepted.aligned
  have hlt := h.size_lt hsize
  have haligned' : 512 ∣ n := haligned
  have hnum' : w.disk.size / 512 % 2 ^ 32 = n / 512 % 2 ^ 32 := hnum
  rw [writeMax] at hn
  omega

end

/-- **What is opened later comes from the same files.** -/
theorem Disk.Files.Stored.gave {fs₀ : Disk.Files}
    (hsize : ∀ path x, fs₀ path = some x → x.size < 2 ^ 41) {x : Image} (h : fs₀.Stored x)
    {env : Environment} {u : Volume} {o : Opening}
    (hopen : openVolume env (.regular x) = (.ret u, o)) : ∃ v, fs₀.Gave v u := by
  cases h with
  | original hfile => exact ⟨u, .of_open hfile hopen⟩
  | @whole v w hgave =>
    obtain ⟨-, overrun, hfirst⟩ := openVolume_first hgave.accepted rfl env
    rw [hfirst] at hopen
    cases hopen
    exact ⟨v, hgave.reopened env⟩
  | part hgave hn hne => exact absurd hopen (hgave.part_rejected hsize hn hne env u o)

namespace Diskutil

/-! ### Histories -/

section
variable {fs₀ : Disk.Files} {inv : Invocation} {t : Terminal} {path : Str}

/-- Away from its temporary file, a save either changes nothing or has finished. -/
theorem save_at {d : Disk} (hsize : d.size ≠ Disk.sizeMinusOne) (calls : Disk.SaveCalls)
    (fs : Disk.Files) {target : Str} (hpath : path ≠ target ++ ascii ".tmp") :
    (d.save calls target fs).2 path = fs path ∨
      path = target ∧ (d.save calls target fs).2 path = some d.image := by
  rcases save_files hsize calls target fs with hsave | hsave | hsave
  · exact Or.inl (congrFun hsave path)
  · exact Or.inl (by rw [hsave, Function.update_of_ne hpath])
  · rw [hsave, Function.update_of_ne hpath, Function.update_apply]
    split
    · exact Or.inr ⟨‹_›, rfl⟩
    · exact Or.inl rfl

/-- The volume a run opens comes from the files there were at the start. -/
theorem gave_of_open (hsize : ∀ path x, fs₀ path = some x → x.size < 2 ^ 41)
    (h : fs₀.Kept t.files) {v : Volume} {o : Opening}
    (hopen : openVolume inv.env (inv.found t.files path) = (.ret v, o)) :
    ∃ v₀, fs₀.Gave v₀ v := by
  obtain ⟨contents, hfile, hopen⟩ := openVolume_found hopen
  exact (h path contents hfile).gave hsize hopen

/-- **A choice keeps the volume and the files.** -/
theorem exec_kept {host : Session → Host}
    (hwrite : ∀ s, (host s).save.written.getD 0 ≤ writeMax)
    (hmoves : ∀ s old new (fs fs' : Disk.Files), (host s).rename old new fs = some fs' →
      ∀ path x, fs' path = some x → ∃ path', fs path' = some x) (choice : Choice) (s : Session)
    (h : (∃ v, fs₀.Gave v s.volume) ∧ fs₀.Kept s.files) :
    (∃ v, fs₀.Gave v (choice.exec host s).2.volume) ∧ fs₀.Kept (choice.exec host s).2.files := by
  obtain ⟨⟨v, hv⟩, hfiles⟩ := h
  rcases @exec_cases host s hv.accepted choice with
    hexec | ⟨input, w, t, hvalid, hrename, rfl, hvolume, -, hsaved⟩ | ⟨-, hvolume, hmoved⟩
  · rw [hexec]
    exact ⟨⟨v, hv⟩, hfiles⟩
  · have hw := hv.rename hvalid hrename
    rw [hvolume, hsaved]
    exact ⟨⟨v, hw⟩, hfiles.save hw (hwrite s) _⟩
  · rw [hvolume]
    refine ⟨⟨v, hv⟩, ?_⟩
    rcases hmoved with hsame | ⟨old, new, hmoved⟩
    · rw [hsame]
      exact hfiles
    · intro path x hx
      obtain ⟨path', hx'⟩ := hmoves s old new _ _ hmoved path x hx
      exact hfiles path' x hx'

/-- **A run keeps the files.** -/
theorem main_kept (hsize : ∀ path x, fs₀ path = some x → x.size < 2 ^ 41) (inv : Invocation)
    (t : Terminal) (h : fs₀.Kept t.files) : fs₀.Kept (main inv t).2.files := by
  rcases @main_files inv t with hmain | ⟨v, o, hopen, -, hmain⟩ | ⟨v, o, hopen, -, hmain⟩
  · rw [hmain]
    exact h
  · obtain ⟨v₀, hv⟩ := gave_of_open hsize h hopen
    rw [hmain]
    exact h.save hv inv.calls_write _
  · obtain ⟨v₀, hv⟩ := gave_of_open hsize h hopen
    rw [hmain]
    exact (sRenameLoop_invariant (I := fun s => (∃ v, fs₀.Gave v s.volume) ∧ fs₀.Kept s.files)
      (fun choice _ s hs => exec_kept inv.host_write inv.host_moves choice s hs)
      ⟨⟨v₀, hv⟩, h⟩).2

/-- Away from its temporary file, a choice that leaves the name of the image alone changes only the
image, and only to one that is whole. -/
theorem exec_confined (host : Session → Host) {start s : Session} {choice : Choice}
    (hchoice : choice ≠ .imageName) (hpath : path ≠ start.pathname ++ ascii ".tmp")
    (h : s.Confined fs₀ path start) : (choice.exec host s).2.Confined fs₀ path start := by
  obtain ⟨v, hv⟩ := h.gave
  rcases @exec_cases host s hv.accepted choice with
    hexec | ⟨input, w, t, hvalid, hrename, rfl, hvolume, hname, hsaved⟩ | ⟨rfl, -⟩
  · rw [hexec]
    exact h
  · have hw := hv.rename hvalid hrename
    refine ⟨⟨v, hvolume ▸ hw⟩, hname.trans h.pathname, ?_⟩
    rw [hsaved, h.pathname]
    rcases save_at hw.accepted.size_ne (host s).save s.files hpath with hsame | ⟨hp, himage⟩
    · rw [hsame]
      exact h.file
    · exact Or.inr ⟨hp, v, w, hw, himage⟩
  · exact absurd rfl hchoice

/-- And so does a session that leaves it alone. -/
theorem sRenameLoop_confined (host : Session → Host) {choices : List Choice} (s : Session)
    (hchoices : .imageName ∉ choices) (hv : ∃ v, fs₀.Gave v s.volume)
    (hpath : path ≠ s.pathname ++ ascii ".tmp") :
    (sRenameLoop host choices s).2.Confined fs₀ path s :=
  sRenameLoop_invariant (I := fun s' => s'.Confined fs₀ path s)
    (fun _ hmem _ => exec_confined host (fun h => hchoices (h ▸ hmem)) hpath)
    ⟨hv, rfl, Or.inl rfl⟩

/-- **Away from its temporary file a run changes only what it is meant to write to**, and only to a
whole image. -/
theorem main_at (hsize : ∀ path x, fs₀ path = some x → x.size < 2 ^ 41) (h : fs₀.Kept t.files)
    (hchoices : .imageName ∉ inv.choices)
    (hpath : ∀ target, inv.target = some target → path ≠ target ++ ascii ".tmp") :
    (main inv t).2.files path = t.files path ∨ inv.target = some path ∧
      ∃ v w, fs₀.Gave v w ∧ (main inv t).2.files path = some w.disk.image := by
  rcases @main_files inv t with hmain | ⟨v, o, hopen, hcmd, hmain⟩ | ⟨v, o, hopen, hcmd, hmain⟩
  · exact Or.inl (congrFun hmain path)
  · have htarget : inv.target = some (inv.argv.getD 3 []) := if_pos hcmd
    obtain ⟨v₀, hv⟩ := gave_of_open hsize h hopen
    rw [hmain, htarget]
    rcases save_at hv.accepted.size_ne inv.calls t.files (hpath _ htarget) with
      hsame | ⟨hp, himage⟩
    · exact Or.inl hsame
    · exact Or.inr ⟨congrArg some hp.symm, v₀, v, hv, himage⟩
  · have htarget : inv.target = some (inv.argv.getD 2 []) := by
      rw [Invocation.target, if_neg (by rw [hcmd]; decide), if_pos hcmd]
    obtain ⟨v₀, hv⟩ := gave_of_open hsize h hopen
    rw [hmain, htarget]
    rcases (sRenameLoop_confined inv.host (.start v (inv.argv.getD 2 []) t.files) hchoices
      ⟨v₀, hv⟩ (hpath _ htarget)).file with hsame | ⟨hp, hwhole⟩
    · exact Or.inl hsame
    · exact Or.inr ⟨congrArg some hp.symm, hwhole⟩

/-- **Where the files come from.** Whatever runs there have been, and however they ended, every file
is one that was there at the start, byte for byte, or the whole image of a volume that was opened
from one of these, maybe under another name, or a part of one. A whole image is normal: it is opened
without a password and without a change, has all the files of the volume it comes from, and its
catalogue. A part is never opened. -/
theorem history_kept (hsize : ∀ path x, t.files path = some x → x.size < 2 ^ 41)
    (invs : List Invocation) {x : Image} (hx : (Call.after main t invs).files path = some x) :
    (∃ path₀, t.files path₀ = some x) ∨
    (∃ v w, t.files.Gave v w ∧ x = w.disk.image ∧ ∀ env, ∃ u o,
      openVolume env (.regular x) = (.ret u, o) ∧ u.disk.dirty = false ∧ u.disk.image = x ∧
        (v.HandlesApart → v.BitmapApart → v.Alias u)) ∨
    ∃ v w n, t.files.Gave v w ∧ x = Image.ofFn n w.disk.mem ∧ n ≠ w.disk.size ∧
      ∀ env u o, openVolume env (.regular x) ≠ (.ret u, o) := by
  have hkept : t.files.Kept (Call.after main t invs).files :=
    Call.after_invariant (I := fun u : Terminal => t.files.Kept u.files) (main_kept hsize) invs
      t.files.kept_self
  cases hkept path x hx with
  | original hfile => exact Or.inl ⟨_, hfile⟩
  | @whole v w hgave =>
    refine Or.inr (Or.inl ⟨v, w, hgave, rfl, fun env => ?_⟩)
    obtain ⟨-, overrun, hopen⟩ := openVolume_first hgave.accepted rfl env
    have hagain := hgave.reopened env
    obtain ⟨path₀, contents, env₀, o₀, -, hopen₀⟩ := hgave.opened
    obtain ⟨-, -, -, -, -, hv, -⟩ := openVolume_of_ret hopen₀
    refine ⟨_, _, hopen, rfl, image_ofImage _ _, fun hapart hbitmap => ?_⟩
    exact hagain.renamed.alias hv hagain.accepted (hagain.renamed.sameSlots hv.blocks hapart)
      fun _ => hagain.renamed.bitmap_eq hv hbitmap
  | @part v w n hgave hn hne =>
    exact Or.inr (Or.inr ⟨v, w, n, hgave, rfl, hne, hgave.part_rejected hsize hn hne⟩)

/-- **Which files are left alone, and which are never incomplete.** If no session gives the image a
new name, a path that no run is meant to write to keeps its file, but for the temporary ones; and a
path that is no temporary one of any run has its first file or a whole image after every run. -/
theorem history_confined (hsize : ∀ path x, t.files path = some x → x.size < 2 ^ 41)
    {invs : List Invocation} (hchoices : ∀ inv ∈ invs, .imageName ∉ inv.choices)
    (hpath : ∀ inv ∈ invs, ∀ target, inv.target = some target → path ≠ target ++ ascii ".tmp") :
    ((∀ inv ∈ invs, inv.target ≠ some path) →
      (Call.after main t invs).files path = t.files path) ∧
    ((Call.after main t invs).files path = t.files path ∨ ∃ v w, t.files.Gave v w ∧
      (Call.after main t invs).files path = some w.disk.image) := by
  constructor
  · intro htarget
    refine (Call.after_invariant_of_mem
      (I := fun u : Terminal => t.files.Kept u.files ∧ u.files path = t.files path)
      (fun inv hinv u ⟨hkept, hfile⟩ => ⟨main_kept hsize inv u hkept, ?_⟩)
      ⟨t.files.kept_self, rfl⟩).2
    rcases main_at hsize hkept (hchoices inv hinv) (hpath inv hinv) with hsame | ⟨htarget', -⟩
    · exact hsame.trans hfile
    · exact absurd htarget' (htarget inv hinv)
  · refine (Call.after_invariant_of_mem (I := fun u : Terminal => t.files.Kept u.files ∧
      (u.files path = t.files path ∨ ∃ v w, t.files.Gave v w ∧ u.files path = some w.disk.image))
      (fun inv hinv u ⟨hkept, hfile⟩ => ⟨main_kept hsize inv u hkept, ?_⟩)
      ⟨t.files.kept_self, Or.inl rfl⟩).2
    rcases main_at hsize hkept (hchoices inv hinv) (hpath inv hinv) with hsame | ⟨-, hwhole⟩
    · rw [hsame]
      exact hfile
    · exact Or.inr hwhole

/-- The file that a run finds. -/
theorem found_of_not_refused (hrefused : inv.refused path = none) {x : Image}
    (hfile : t.files path = some x) : inv.found t.files path = .regular x := by
  rw [Invocation.found, hrefused]
  simp only [hfile]

/-- A normal image is refused. -/
theorem main_normalize_of_accepted {v : Volume} (hv : v.Accepted) {prog input output : Str}
    (hargv : inv.argv = [prog, ascii "normalize", input, output])
    (hrefused : inv.refused input = none) (hfile : t.files input = some v.disk.image) :
    main inv t = (.ret exitFailure,
      t.complained (ascii "diskutil: volume is already normal prodos disk\n")) := by
  obtain ⟨-, overrun, hopen⟩ := openVolume_first hv rfl inv.env
  have hinput : inv.argv.getD 2 [] = input := by
    rw [hargv]
    rfl
  have hlength : ¬ inv.argv.length ≠ 4 := by
    rw [hargv]
    simp
  have hopened : (fun fs => ((openVolume inv.env (inv.found t.files input)).1, fs) :
      Call Exn Disk.Files Volume) t.files
        = (.ret ⟨Disk.ofImage v.disk.image inv.env.past⟩, t.files) := by
    rw [found_of_not_refused hrefused hfile, hopen]
  have hrun : sNormalize inv.env (inv.found t.files) inv.calls inv.argv t.files
      = (.ret .alreadyNormal, t.files) := by
    rw [sNormalize, Call.ite_apply, if_neg hlength, hinput]
    exact (Call.bind_of_ret hopened).trans (congrFun (if_pos rfl) t.files)
  have hfiles : Terminal.onFiles (fun fs =>
      sNormalize inv.env (inv.found fs) inv.calls inv.argv fs) t = (.ret .alreadyNormal, t) :=
    Call.onPart_of_eq (m := fun fs => sNormalize inv.env (inv.found fs) inv.calls inv.argv fs) hrun
  rw [main_normalize hargv, normalizes, Call.bind_of_ret hfiles]
  rfl

/-- What a successful run of `normalize` has done. -/
theorem normalized_of_ret {t' : Terminal} {prog input output : Str}
    (hargv : inv.argv = [prog, ascii "normalize", input, output])
    (hrun : main inv t = (.ret exitSuccess, t')) :
    ∃ v o, openVolume inv.env (inv.found t.files input) = (.ret v, o) ∧ v.disk.dirty = true ∧
      t'.files output = some v.disk.image := by
  rw [main_normalize hargv, normalizes] at hrun
  obtain ⟨ended, t₁, hfiles, hended⟩ := Call.bind_eq_ret_iff.mp hrun
  rw [Call.modify_bind_apply] at hended
  cases ended with
  | wrote =>
    cases hended
    obtain ⟨hret, hpart⟩ := Prod.mk.inj hfiles
    have hwrote : sNormalize inv.env (inv.found t.files) inv.calls inv.argv t.files
        = (.ret .wrote, t₁.files) := by
      rw [← hpart]
      exact Prod.ext hret rfl
    obtain ⟨v, o, hopen, hdirty, hsave⟩ := sNormalize_wrote hwrote
    obtain ⟨-, -, -, -, -, hv, -⟩ := openVolume_of_ret hopen
    rw [hargv] at hopen hsave
    exact ⟨v, o, hopen, hdirty, Disk.save_of_ret_true hv.size_ne hsave⟩
  | _ => cases hended

/-- **A normal image is refused, and has the catalogue it always had.** After `normalize` has
succeeded, later runs on its output, in any environment, refuse to normalise it again. And if no
directory is read from behind the end of the image, where the bytes are those of the environment,
they print the catalogue that was printed for the input with the password. -/
theorem normalized_stays {t' : Terminal} {prog input output : Str}
    (hargv : inv.argv = [prog, ascii "normalize", input, output])
    (hrun : main inv t = (.ret exitSuccess, t')) :
    ∃ v o, openVolume inv.env (inv.found t.files input) = (.ret v, o) ∧ v.disk.dirty = true ∧
      t'.files output = some v.disk.image ∧
      ∀ (again : Invocation) (u : Terminal), u.files output = t'.files output →
        again.refused output = none →
        (∀ other, again.argv = [prog, ascii "normalize", output, other] →
          main again u = (.ret exitFailure,
            u.complained (ascii "diskutil: volume is already normal prodos disk\n"))) ∧
        (v.HandlesInside → again.argv = [prog, ascii "catalog", output] →
          ∀ (before : Invocation) (s : Terminal) (text : Str),
            before.argv = [prog, ascii "catalog", input] → before.env = inv.env →
            before.refused = inv.refused → before.fuel = again.fuel → s.files = t.files →
            main before s = (.ret exitSuccess, s.printed text) →
            main again u = (.ret exitSuccess, u.printed text)) := by
  obtain ⟨v, o, hopen, hdirty, hwritten⟩ := normalized_of_ret hargv hrun
  obtain ⟨-, -, -, -, -, hv, -⟩ := openVolume_of_ret hopen
  have hle := block2_le hv.blocks
  refine ⟨v, o, hopen, hdirty, hwritten, fun again u hfile hrefused => ?_⟩
  have hfile' : u.files output = some v.disk.image := hfile.trans hwritten
  refine ⟨fun other hagain => main_normalize_of_accepted hv hagain hrefused hfile', ?_⟩
  intro hinside hagain before s text hbefore henv hsame hfuel hfiles hprinted
  obtain ⟨v', o', text', err, hopen', hcatalog, htext⟩ :=
    (main_catalog_eq_iff hbefore).mp hprinted
  -- both runs open the same file, and the same volume
  have hfound : before.found s.files input = inv.found t.files input := by
    rw [Invocation.found, Invocation.found, hsame, hfiles]
  rw [henv, hfound, hopen] at hopen'
  cases hopen'
  obtain rfl : text = cStr text' := List.append_cancel_left (congrArg Terminal.stdout htext)
  -- the output is the same image, at the same addresses
  obtain ⟨-, overrun, hfirst⟩ := openVolume_first hv rfl again.env
  have himage := image_ofImage v.disk.image again.env.past
  have hw := hv.of_image_eq (w := ⟨Disk.ofImage v.disk.image again.env.past⟩) himage
  have hren : v.Renamed ⟨Disk.ofImage v.disk.image again.env.past⟩ :=
    (Volume.Renamed.refl v).of_image_eq rfl (by omega) himage
  have halias := hren.alias hv hw (sameSlots_of_image_eq hv.blocks hinside himage)
    fun hbitmap => bitmap_eq_of_image_eq hv hbitmap himage
  obtain ⟨body, hbody, hcatalog'⟩ := halias.catalog _ _ _ _ hcatalog
  have hname : Entry.fileName (Volume.header ⟨Disk.ofImage v.disk.image again.env.past⟩)
      = Entry.fileName v.header :=
    fileName_congr fun k hk => mem_eq_of_image_eq himage (by rw [Volume.root]; omega)
  rw [hname, ← hbody, hfuel] at hcatalog'
  have hfound' : again.found u.files output = .regular v.disk.image :=
    found_of_not_refused hrefused hfile'
  exact (main_catalog_eq_iff hagain).mpr
    ⟨_, _, text', err, (congrArg _ hfound').trans hfirst, hcatalog', rfl⟩

end

/-! ### An example -/

/-- An empty volume of one track, which has its bitmap in the first block. -/
structure Blank (v : Volume) : Prop where
  files : fileCount (v.headerOf (.image Volume.root)) = 0
  bitmap : v.bitMapPointer = 0
  blocks : v.disk.numBlocks = 8

theorem blank_of_image_eq {v : Volume} (himage : v.disk.image = Image.formatted 4096 8) :
    Blank v := by
  have hsame : v.disk.image = (Disk.ofImage (Image.formatted 4096 8) fun _ => 0).image :=
    himage.trans (image_ofImage _ _).symm
  have hsize : v.disk.size = 4096 := congrArg Image.size himage
  have hmem : ∀ a < 4096, v.disk.mem a = (Image.formatted 4096 8).byte a := fun a ha =>
    (mem_eq_of_image_eq hsame ha).trans (if_pos ha)
  constructor
  · exact leRead16_congr (q := fun _ => 0) (hmem 1061 (by decide)) (hmem 1062 (by decide))
  · exact leRead16_congr (q := fun _ => 0) (hmem 1063 (by decide)) (hmem 1064 (by decide))
  · rw [Disk.numBlocks, hsize]
    decide

namespace Blank

variable {v w : Volume}

/-- It is empty under every name. -/
theorem of_renamed (hv : v.Accepted) (hren : v.Renamed w) (hw : Blank w) : Blank v := by
  have hle := block2_le hv.blocks
  constructor
  · rw [← hw.files]
    exact (hren.fileCount_eq (n := 2) hv.blocks).symm
  · rw [← hw.bitmap]
    exact (leRead16_congr (hren.mem 1063 (by omega) (by decide))
      (hren.mem 1064 (by omega) (by decide))).symm
  · exact hren.numBlocks.symm.trans hw.blocks

/-- Nothing is looked at. -/
theorem not_examines (hblank : Blank v) {h : DirectoryHandle} (hhandle : v.Handles h)
    (e : EntryPtr) : ¬ NextExamines v h e := by
  have hend : ∀ fuel err, DirectoryHandle.nextEntry v fuel (.opened (.image Volume.root), err)
      = (.ret none, (.opened (.image Volume.root), .endOfFile)) :=
    fun fuel err => nextEntry_end rfl hblank.files.symm fuel
  have hopened : h = .opened (.image Volume.root) := by
    induction hhandle with
    | root => rfl
    | next head hnext ih =>
      rw [ih, hend] at hnext
      cases hnext
      rfl
    | child head hnext _ _ _ ih =>
      rw [ih, hend] at hnext
      cases hnext
  rintro ⟨key, hheader, hcount, -⟩
  rw [hopened] at hheader hcount
  cases hheader
  exact hcount hblank.files.symm

theorem bitmapInside (hblank : Blank v) : v.BitmapInside := by
  rw [Volume.BitmapInside, hblank.bitmap, hblank.blocks]
  decide

theorem bitmapApart (hblank : Blank v) : v.BitmapApart where
  inside := hblank.bitmapInside
  apart i hi := by
    rw [hblank.blocks] at hi
    rw [hblank.bitmap]
    omega

theorem catalog (hblank : Blank v) (hv : v.Accepted) (err : Err) :
    ∃ text, Prodosfs.catalog v 65536 (ascii "/") err = (.ret (some text), .endOfFile) :=
  ⟨_, catalog_of_iterates hv (openDirectory_root hv _ err) (.nil rfl hblank.files.symm) (by decide)
    (length_titleLine_lt _) hblank.bitmapInside⟩

end Blank

/-- A protected image. -/
def smallTerminal : Terminal where
  files path :=
    if path = ascii "in" then some ((Image.formatted 4096 8).protected (ascii "SECRET")) else none
  stdout := []
  stderr := []

/-- A run with the password, in which everything succeeds but giving the image a new name. -/
def smallRun (argv : List Str) (choices : List Choice) : Invocation where
  argv := argv
  env := withPassword
  refused _ := none
  fuel := 65536
  calls := ⟨true, some 4096, true, ""⟩
  errno := 0
  host _ := ⟨fun _ => 0, ⟨true, some 4096, true, ""⟩, fun _ _ _ => none⟩
  choices := choices
  calls_write := by decide
  host_write _ := by decide
  host_moves := by
    intro s old new fs fs' h
    cases h

/-- The image is normalised. -/
def normalizing : Invocation :=
  smallRun [ascii "diskutil", ascii "normalize", ascii "in", ascii "out"] []

/-- The protected image is opened with the password. -/
theorem open_small : ∃ v o, openVolume withPassword
    (.regular ((Image.formatted 4096 8).protected (ascii "SECRET"))) = (.ret v, o) ∧
      v.disk.dirty = true ∧ v.disk.image = Image.formatted 4096 8 := by
  have hx : Volume.Accepted ⟨Disk.ofImage (Image.formatted 4096 8) fun _ => 0⟩ :=
    accepted_formatted _ (by decide) (by decide) (by decide) (by decide)
  have hpassword : password withPassword.passwordFile = some (ascii "SECRET") := by decide
  obtain ⟨v, o, hopen, himage⟩ := openVolume_protected hx hpassword (by decide) (by decide)
  obtain ⟨contents, hregular, -, hblocks, hloc, -⟩ := openVolume_of_ret hopen
  cases hregular
  have htidy := hloc.tidy (by rw [hloc.numBlocks_eq]; exact hblocks) fun h =>
    absurd h.2.1 (by decide)
  refine ⟨v, o, hopen, htidy.dirty_of_ne fun h => ?_, himage⟩
  have hbyte := congrArg (fun x => Image.byte x 1028) (himage.symm.trans h)
  exact absurd hbyte (by decide)

theorem main_normalizing : ∃ t, main normalizing smallTerminal = (.ret exitSuccess, t) := by
  obtain ⟨v, o, hopen, hdirty, himage⟩ := open_small
  have hsize : v.disk.size = 4096 := congrArg Image.size himage
  have hsave : ∃ fs, v.save normalizing.calls (ascii "out") smallTerminal.files
      = (.ret true, fs) := Disk.save_of_calls rfl (congrArg some hsize.symm) rfl _ _
  obtain ⟨fs, hsave⟩ := hsave
  exact ⟨_, main_normalize_of_save rfl hopen hdirty hsave⟩

theorem size_smallTerminal : ∀ path x, smallTerminal.files path = some x → x.size < 2 ^ 41 := by
  intro path x h
  simp only [smallTerminal, Option.ite_none_right_eq_some, Option.some.injEq] at h
  rw [← h.2]
  decide

/-- The output of `normalize` is the whole image of a volume opened from the input. In every
environment it is opened without a change, with the files and the catalogue of that volume. -/
theorem history_kept_small : ∃ x v w,
    (Call.after main smallTerminal [normalizing]).files (ascii "out") = some x ∧
    smallTerminal.files.Gave v w ∧ x = w.disk.image ∧
    ∀ env, ∃ u o, openVolume env (.regular x) = (.ret u, o) ∧ u.disk.dirty = false ∧
      u.disk.image = x ∧ v.Alias u ∧
      ∃ text err, catalog u 65536 (ascii "/") .none = (.ret (some text), err) := by
  obtain ⟨t, hrun⟩ := main_normalizing
  obtain ⟨v, o, hopen, -, himage⟩ := open_small
  obtain ⟨v', o', hopen', -, hwritten⟩ := normalized_of_ret rfl hrun
  cases hopen.symm.trans hopen'
  rw [himage] at hwritten
  have hx : (Call.after main smallTerminal [normalizing]).files (ascii "out")
      = some (Image.formatted 4096 8) := by
    rw [Call.after, List.foldl_cons, List.foldl_nil, hrun]
    exact hwritten
  rcases history_kept size_smallTerminal [normalizing] hx with
    ⟨path₀, hfile⟩ | ⟨v, w, hgave, himage, hreopen⟩ | ⟨_, _, _, -, -, -, hrejected⟩
  · -- the only file there was is protected
    simp only [smallTerminal, Option.ite_none_right_eq_some, Option.some.injEq] at hfile
    exact absurd (congrArg (fun x => Image.byte x 1028) hfile.2) (by decide)
  · refine ⟨_, v, w, hx, hgave, himage, fun env => ?_⟩
    obtain ⟨u, o, hagain, hdirty, himage', halias⟩ := hreopen env
    obtain ⟨_, _, _, _, -, hopened⟩ := hgave.opened
    obtain ⟨-, -, -, -, -, hv, -⟩ := openVolume_of_ret hopened
    have hblank : Blank v := .of_renamed hv hgave.renamed (blank_of_image_eq himage.symm)
    have halias := halias (fun h hhandle e he => absurd he (hblank.not_examines hhandle e))
      hblank.bitmapApart
    obtain ⟨text, hcatalog⟩ := hblank.catalog hv .none
    obtain ⟨body, -, hcatalog'⟩ := halias.catalog _ _ _ _ hcatalog
    exact ⟨u, o, hagain, hdirty, himage', halias, _, _, hcatalog'⟩
  · obtain ⟨u, o, hagain⟩ := openVolume_formatted noPassword 4096 8 (by decide) (by decide)
      (by decide) (by decide)
    exact absurd hagain (hrejected noPassword u o)

/-- The input stays as it is, also when the output is given another name. -/
theorem history_confined_small :
    (Call.after main smallTerminal [normalizing,
      smallRun [ascii "diskutil", ascii "rename", ascii "out"] [.volumeName (ascii "B")]]).files
        (ascii "in") = smallTerminal.files (ascii "in") :=
  (history_confined size_smallTerminal (by decide) (by decide)).1 (by decide)

/-- The output of `normalize` is refused by `normalize`, and has the catalogue of the input. -/
theorem normalized_stays_small : ∃ t text, main normalizing smallTerminal = (.ret exitSuccess, t) ∧
    main (smallRun [ascii "diskutil", ascii "normalize", ascii "out", ascii "out"] []) t
      = (.ret exitFailure,
          t.complained (ascii "diskutil: volume is already normal prodos disk\n")) ∧
    main (smallRun [ascii "diskutil", ascii "catalog", ascii "in"] []) smallTerminal
      = (.ret exitSuccess, smallTerminal.printed text) ∧
    main (smallRun [ascii "diskutil", ascii "catalog", ascii "out"] []) t
      = (.ret exitSuccess, t.printed text) := by
  obtain ⟨t, hrun⟩ := main_normalizing
  obtain ⟨v, o, hopen, -, himage⟩ := open_small
  obtain ⟨v', o', hopen', -, -, hagain⟩ := normalized_stays rfl hrun
  cases hopen.symm.trans hopen'
  obtain ⟨-, -, -, -, -, hv, -⟩ := openVolume_of_ret hopen
  have hblank := blank_of_image_eq himage
  obtain ⟨text, hcatalog⟩ := hblank.catalog hv .none
  have hfound : (smallRun [ascii "diskutil", ascii "catalog", ascii "in"] []).found
      smallTerminal.files (ascii "in")
        = .regular ((Image.formatted 4096 8).protected (ascii "SECRET")) :=
    found_of_not_refused rfl rfl
  have hbefore : main (smallRun [ascii "diskutil", ascii "catalog", ascii "in"] []) smallTerminal
      = (.ret exitSuccess, smallTerminal.printed (cStr text)) :=
    (main_catalog_eq_iff rfl).mpr
      ⟨v, o, text, _, (congrArg (openVolume withPassword) hfound).trans hopen, hcatalog, rfl⟩
  have hrefused := (hagain (smallRun [ascii "diskutil", ascii "normalize", ascii "out", ascii "out"]
    []) t rfl rfl).1 (ascii "out") rfl
  have hsame := (hagain (smallRun [ascii "diskutil", ascii "catalog", ascii "out"] []) t rfl rfl).2
    (fun h hhandle e he => absurd he (hblank.not_examines hhandle e)) rfl
    (smallRun [ascii "diskutil", ascii "catalog", ascii "in"] []) smallTerminal (cStr text)
    rfl rfl rfl rfl rfl hbefore
  exact ⟨t, cStr text, hrun, hrefused, hbefore, hsame⟩

end Diskutil

end Prodosfs
