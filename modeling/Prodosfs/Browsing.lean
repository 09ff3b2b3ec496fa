import Prodosfs.Serving
import Prodosfs.General.Alike

/-!
# Browsing

A program that goes through the file system lists a directory, and gives the callbacks the path of
the directory with a listed name behind it. It gets the entry that was listed as long as there are
no more than two components in that path, whatever suffix the name has been listed with; and an
error everywhere below, since the path is taken apart at the wrong places.

What the letters of the path look like does not matter, except for the virtual file. `strcasecmp`
compares the names, and nothing else that is done with a path looks at its letters. The name of the
virtual file is compared as it is, and the path of its directory is printed as it was given.

## Main definitions

* `Fh.SameLetters` — two objects that only differ in the letters of a catalogue

## Main results

* `directoryAt_listed` — where the path of a listed name leads to
* `listed_served` — what has been listed can be looked at, opened and gone into
* `upTo_catalog` — what the catalogue takes from the path
* `case_insensitive` — paths with the same letters are the same to the callbacks
-/

namespace Prodosfs

/-! ### Listed names -/

section
variable {m : Mount} {fuel : ℕ} {names : List Str} {name path : Str} {key : BlockPtr} {e : EntryPtr}

/-- The path of a virtual file is told by what comes behind the last slash. -/
theorem virtualFileId_append (hslash : 47 ∉ name) (hname : name ≠ ascii ".CATALOG") (path : Str) :
    virtualFileId (path ++ ascii "/" ++ name) = .none := by
  have hsplit : path ++ ascii "/" ++ name = path ++ joinPath [name] := by
    rw [joinPath_one, List.append_assoc]
    rfl
  have hfilename : pathFilename (path ++ ascii "/" ++ name) = pathFilename (joinPath [name]) := by
    rw [hsplit, joinPath_one, pathFilename, pathFilename, List.reverse_append, List.reverse_cons,
      List.append_assoc]
    have hall : ∀ c ∈ name.reverse, decide (c ≠ 47) = true := by
      intro c hc
      simpa using fun h : c = 47 => hslash (h ▸ List.mem_reverse.mp hc)
    rw [List.takeWhile_append_of_pos hall, List.takeWhile_append_of_pos hall]
    rfl
  have hnone := virtualFileId_joinPath hslash
  rw [if_neg hname] at hnone
  rw [virtualFileId, hfilename]
  exact hnone

/-- Below the second level nothing is found: the second component has the slash behind it. -/
theorem lookup_below {v : Volume} (hwf : v.WellFormed) (hunique : v.UniqueNames)
    (hlisted : v.tree.Listed v.nameOf (.image Volume.root) names key) (hlevel : ¬ names.length ≤ 1)
    (name : Str) : v.lookup (splitPath (joinPath (names ++ [name]))) = .error .name := by
  have hslash : ∀ n ∈ names, 47 ∉ n := fun n hn =>
    not_mem_of_isValidName (validName_of_listed hwf hlisted n hn) (by decide)
  have hwalk := hlisted.walk (named_of_listed hwf hunique)
  match names, hlevel with
  | [], hlevel => exact absurd (Nat.zero_le _) hlevel
  | [_], hlevel => exact absurd le_rfl hlevel
  | a :: b :: names, _ =>
    obtain ⟨c, more, hmore⟩ := List.exists_cons_of_ne_nil
      (List.append_ne_nil_of_right_ne_nil names (List.cons_ne_nil name []))
    obtain ⟨n, rest, hsplit, h47⟩ :=
      splitPath_joinPath_more c more (hslash a (by simp)) (hslash b (by simp))
    cases hwalk with
    | into hfind hchild _ =>
      have hinto := (NameTree.Walk.into hfind hchild (.here _)).lookup (List.cons_ne_nil n rest)
      have hreach := reachable_of_walk hwf (NameTree.Walk.into hfind hchild (.here _)) .root
      rw [List.cons_append, List.cons_append, hmore, hsplit]
      exact hinto.trans (NameTree.lookup_of_find_none (find_eq_none hwf hreach (by decide) h47))

/-- A name in a directory under its path is looked up in that directory, down to the second
level. -/
theorem lookup_inside {v : Volume} (hwf : v.WellFormed) (hunique : v.UniqueNames)
    (hlisted : v.tree.Listed v.nameOf (.image Volume.root) names key) (hlevel : names.length ≤ 1)
    (hname : 47 ∉ name) :
    v.lookup (splitPath (joinPath (names ++ [name]))) = v.tree.lookup key [name] := by
  have hslash : ∀ n ∈ names ++ [name], 47 ∉ n :=
    List.forall_mem_append.mpr ⟨fun n hn =>
      not_mem_of_isValidName (validName_of_listed hwf hlisted n hn) (by decide),
      List.forall_mem_singleton.mpr hname⟩
  rw [splitPath_of_length_le (List.append_ne_nil_of_right_ne_nil names (List.cons_ne_nil name []))
    hslash (by simpa using hlevel)]
  exact (hlisted.walk (named_of_listed hwf hunique)).lookup (List.cons_ne_nil name [])

theorem joinPath_append (names : List Str) (name : Str) :
    joinPath (names ++ [name]) = joinPath names ++ ascii "/" ++ name := by
  simp [joinPath, ascii]

/-- A listed name with the path of its directory in front of it is not the root. -/
theorem joinPath_append_ne_root (hname : name ≠ []) :
    joinPath names ++ ascii "/" ++ name ≠ ascii "/" := by
  intro h
  have hlen := congrArg List.length h
  have hpos := List.length_pos_iff.mpr hname
  simp only [List.length_append] at hlen
  omega

/-- An entry under its own name, in a directory under its path: it is what the path leads to, down
to the second level, and below the path leads nowhere. -/
theorem atPath_listed {v : Volume} (hwf : v.WellFormed) (hunique : v.UniqueNames)
    (hlisted : v.tree.Listed v.nameOf (.image Volume.root) names key) (he : e ∈ v.entries key) :
    v.atPath (joinPath names ++ ascii "/" ++ v.nameOf e)
      = if names.length ≤ 1 then .ok e else .error .name := by
  have hreach := reachable_of_listed hwf hlisted
  obtain ⟨es, hkey⟩ := hwf.directory hreach
  have hvalid := hwf.validName hreach hkey e (hkey.entries_eq ▸ he)
  have hne : v.nameOf e ≠ [] := List.ne_nil_of_length_pos (isValidName_iff.mp hvalid).1
  rw [Volume.atPath_of_ne_root (joinPath_append_ne_root hne), ← joinPath_append]
  split
  · have hslash : 47 ∉ v.nameOf e := not_mem_of_isValidName hvalid (by decide)
    rw [lookup_inside hwf hunique hlisted ‹_› hslash]
    exact NameTree.lookup_last ((named_of_listed hwf hunique hlisted).find he)
  · exact lookup_below hwf hunique hlisted ‹_› _

/-- A path of listed names: the suffix comes off again, and it is not a virtual file with it or
without it. -/
theorem listedPath (hwf : m.volume.WellFormed)
    (hlisted : m.volume.tree.Listed m.volume.nameOf (.image Volume.root) names key)
    (he : e ∈ m.volume.entries key)
    (hpath : path = joinPath names ++ ascii "/" ++ m.listedName e) :
    prodosFilename m.extensionMode path = joinPath names ++ ascii "/" ++ m.volume.nameOf e ∧
    virtualFileId path ≠ .catalog ∧
    virtualFileId (joinPath names ++ ascii "/" ++ m.volume.nameOf e) ≠ .catalog := by
  have hreach := reachable_of_listed hwf hlisted
  obtain ⟨es, hkey⟩ := hwf.directory hreach
  have hmem : e ∈ es := hkey.entries_eq ▸ he
  have hvalid := hwf.validName hreach hkey e hmem
  have hcolon : ∀ n, isValidName n → (58 : UInt8) ∉ n := fun n h =>
    not_mem_of_isValidName h (by decide)
  have hcolons : 58 ∉ joinPath names :=
    not_mem_joinPath (by decide) fun n hn => hcolon n (validName_of_listed hwf hlisted n hn)
  obtain ⟨hslash, hcatalog, hmark, -⟩ := listedName_of_isValidName (m := m) hvalid
  have hfilename : prodosFilename m.extensionMode path
      = joinPath names ++ ascii "/" ++ m.volume.nameOf e := by
    have hnul : 0 ∉ exportedFilename m.extensionMode (m.volume.entry e) := by
      obtain ⟨hnul, -⟩ := not_mem_name_getFileTypeInfo (Entry.fileType (m.volume.entry e))
      have hname : 0 ∉ Entry.fileName (m.volume.entry e) :=
        not_mem_of_isValidName hvalid (by decide)
      rw [exportedFilename]
      split
      · simp only [List.mem_append, not_or]
        exact ⟨⟨hname, by decide⟩, hnul⟩
      · exact hname
    rw [hpath, Mount.listedName, cStr_of_not_mem hnul]
    exact prodosFilename_exportedFilename m.extensionMode hcolons (hcolon _ hvalid)
  refine ⟨hfilename, ?_, ?_⟩
  · rw [hpath, virtualFileId_append hslash hcatalog]
    decide
  · have hname : 47 ∉ m.volume.nameOf e := not_mem_of_isValidName hvalid (by decide)
    have hne : m.volume.nameOf e ≠ ascii ".CATALOG" := by
      intro h
      rw [Volume.nameOf] at h
      rw [h] at hvalid
      exact absurd hvalid (by decide)
    rw [virtualFileId_append hname hne]
    decide

/-- The directory under the path of a listed entry: a file is no directory, and with its suffix it
is not even found. -/
theorem directoryAt_listed {m : Mount} (hwf : m.volume.WellFormed) (hunique : m.volume.UniqueNames)
    (hlisted : m.volume.tree.Listed m.volume.nameOf (.image Volume.root) names key)
    (he : e ∈ m.volume.entries key)
    (hpath : path = joinPath names ++ ascii "/" ++ m.listedName e) :
    m.volume.directoryAt path
      = if names.length ≤ 1 then
          if Entry.isDirectory (m.volume.entry e) then .ok (m.volume.keyBlock e)
          else if m.extensionMode = .on ∧ Entry.isFile (m.volume.entry e) then .error .name
          else .error .directory
        else .error .name := by
  have hreach := reachable_of_listed hwf hlisted
  obtain ⟨es, hkey⟩ := hwf.directory hreach
  have hvalid := hwf.validName hreach hkey e (hkey.entries_eq ▸ he)
  obtain ⟨hslash, -, hcolon, hstripped⟩ := listedName_of_isValidName (m := m) hvalid
  have hempty : prodosFilename m.extensionMode [] = [] := by
    cases m.extensionMode <;> rfl
  have hne : m.listedName e ≠ [] := fun h => by
    rw [h, hempty] at hstripped
    rw [← hstripped] at hvalid
    exact absurd hvalid (by decide)
  rw [Volume.directoryAt, hpath, if_neg (joinPath_append_ne_root hne), ← joinPath_append]
  by_cases hlevel : names.length ≤ 1
  · rw [if_pos hlevel, lookup_inside hwf hunique hlisted hlevel hslash]
    by_cases hsuffix : m.extensionMode = .on ∧ Entry.isFile (m.volume.entry e)
    · have hnot : ¬ Entry.isDirectory (m.volume.entry e) = true := fun h => by
        simpa [isFile_of_isDirectory h] using hsuffix.2
      rw [if_neg hnot, if_pos hsuffix, NameTree.lookup_of_find_none
        (find_eq_none hwf hreach (by decide) (hcolon.mpr hsuffix))]
    · have hsame : m.listedName e = m.volume.nameOf e := by
        rw [prodosFilename, if_neg fun h => hsuffix (hcolon.mp h.2)] at hstripped
        exact hstripped
      rw [if_neg hsuffix, hsame,
        NameTree.lookup_last ((named_of_listed hwf hunique hlisted).find he)]
  · rw [if_neg hlevel, lookup_below hwf hunique hlisted hlevel]

/-- **What has been listed can be looked at, opened and gone into,** down to the second level, and
nothing below. A file is not gone into, and a directory not opened. -/
theorem listed_served (hv : m.volume.Sound) (hunique : m.volume.UniqueNames)
    (hlisted : m.volume.tree.Listed m.volume.nameOf (.image Volume.root) names key)
    (he : e ∈ m.volume.entries key) (hpath : path = joinPath names ++ ascii "/" ++ m.listedName e)
    (hserviceable : Serviceable fuel path) (st : Stat) (err : Err) :
    if names.length ≤ 1 then
      (∃ blocks err', prodosfsGetattr m fuel path st err = (.ret (0, m.stat blocks e), err')) ∧
      (Entry.isFile (m.volume.entry e) →
        (∃ fh err', prodosfsOpen m fuel path err = (.ret (0, some fh), err') ∧
          Serves m fuel (.opened fh) (.file e)) ∧
        ∃ err', prodosfsOpendir m fuel path err
          = (.ret (if m.extensionMode = .on then -2 else -20, none), err')) ∧
      (Entry.isDirectory (m.volume.entry e) →
        (∃ dh err', prodosfsOpendir m fuel path err = (.ret (0, some dh), err') ∧
          Serves m fuel (.directory dh)
            (.directory (m.volume.entries (m.volume.keyBlock e)))) ∧
        ∃ err', prodosfsOpen m fuel path err = (.ret (-5, none), err'))
    else
      (∃ err', prodosfsGetattr m fuel path st err = (.ret (-2, st), err')) ∧
      (∃ err', prodosfsOpen m fuel path err = (.ret (-2, none), err')) ∧
      ∃ err', prodosfsOpendir m fuel path err = (.ret (-2, none), err') := by
  have hwf := hv.wellFormed
  obtain ⟨hfilename, hid, hid'⟩ := listedPath hwf hlisted he hpath
  have hat := atPath_listed hwf hunique hlisted he
  obtain ⟨r, st', err₁, hgetattr, hstat⟩ := getattr_serves hv hserviceable st err
  have hopen := open_serves hv hserviceable err
  have hopendir := opendir_serves hv hserviceable err
  rw [Mount.StatAnswer, if_neg hid, hfilename, hat] at hstat
  rw [Mount.openFile] at hopen
  simp only [hfilename, if_neg hid', hat] at hopen
  rw [directoryAt_listed hwf hunique hlisted he hpath] at hopendir
  split
  · rename_i hlevel
    simp only [if_pos hlevel] at hstat hopen hopendir
    obtain ⟨rest, -, hstat⟩ := hstat
    cases hstat
    refine ⟨⟨_, err₁, hgetattr⟩, fun hfile => ⟨?_, ?_⟩, fun hdirectory => ⟨?_, ?_⟩⟩
    · simpa only [if_pos hfile] using hopen
    · have hnot : ¬ Entry.isDirectory (m.volume.entry e) = true := fun h => by
        rw [isFile_of_isDirectory h] at hfile
        cases hfile
      by_cases hmode : m.extensionMode = .on
      · simpa only [if_neg hnot, if_pos hmode, if_pos (And.intro hmode hfile), missingErrno]
          using hopendir
      · simpa only [if_neg hnot, if_neg hmode, if_neg fun h => hmode (And.left h), missingErrno]
          using hopendir
    · simpa only [if_pos hdirectory] using hopendir
    · simpa [isFile_of_isDirectory hdirectory] using hopen
  · rename_i hlevel
    simp only [if_neg hlevel] at hstat hopen hopendir
    cases hstat
    exact ⟨⟨err₁, hgetattr⟩, hopen, hopendir⟩

end

theorem mem_entries_small : ∀ d ∈ smallSurvey, ∀ e ∈ d.2, e ∈ smallVolume.entries d.1 := by
  intro d hd e he
  rwa [(directoryAt_small d hd).entries_eq]

/-- The text file of the small volume is opened under the name it is listed by and cannot be gone
into, and the file two directories below is not even found. -/
theorem listed_served_small :
    (∃ fh err', prodosfsOpen (smallMount .on) 2000000 (ascii "/T:TXT") .none
        = (.ret (0, some fh), err') ∧
      Serves (smallMount .on) 2000000 (.opened fh) (.file textFile)) ∧
    (∃ err', prodosfsOpendir (smallMount .on) 2000000 (ascii "/T:TXT") .none
      = (.ret (-2, none), err')) ∧
    ∃ err', prodosfsOpen (smallMount .on) 2000000 (ascii "/D/E/F:TXT") .none
      = (.ret (-2, none), err') := by
  have hT := mem_entries_small (.image 1024, [textFile, ⟨.image 1536, 12⟩]) (by decide) textFile
    (by decide)
  have hE := mem_entries_small (.image 2048, [⟨.image 2048, 1⟩]) (by decide) ⟨.image 2048, 1⟩
    (by decide)
  have hF := mem_entries_small (.image 2560, [⟨.image 2560, 1⟩]) (by decide) ⟨.image 2560, 1⟩
    (by decide)
  have hchild : smallVolume.tree.child ⟨.image 2048, 1⟩ = some (.image 2560) := by decide
  have hlisted : smallVolume.tree.Listed smallVolume.nameOf (.image Volume.root)
      ([ascii "D"] ++ [smallVolume.nameOf ⟨.image 2048, 1⟩]) (.image 2560) :=
    .into listed_small hE hchild
  have htext : Serviceable 2000000 (ascii "/T:TXT") := ⟨by decide, by decide⟩
  have htoo : Serviceable 2000000 (ascii "/D/E/F:TXT") := ⟨by decide, by decide⟩
  have hfile := listed_served (m := smallMount .on) sound_small uniqueNames_small .here hT
    (by decide) htext
    ⟨0, 0, 0, 0, 0, 0, 0⟩ .none
  have hdeep := listed_served (m := smallMount .on) sound_small uniqueNames_small hlisted hF
    (by decide) htoo
    ⟨0, 0, 0, 0, 0, 0, 0⟩ .none
  rw [if_pos (by decide)] at hfile
  rw [if_neg (by decide)] at hdeep
  obtain ⟨hopen, hopendir⟩ := hfile.2.1 (by decide)
  exact ⟨hopen, hopendir, hdeep.2.1⟩

/-! ### The letters of a path -/

/-- The path with small letters. -/
def lowered (path : Str) : Str := path.map tolower

theorem tolower_tolower (c : UInt8) : tolower (tolower c) = tolower c :=
  forall_byte (P := fun c => tolower (tolower c) = tolower c) (by decide +kernel) c

section
variable {v : Volume} {fuel : ℕ} {path path' : Str}

theorem lowered_lowered (path : Str) : lowered (lowered path) = lowered path := by
  rw [lowered, lowered, List.map_map]
  exact List.map_congr_left fun c _ => tolower_tolower c

theorem beq_comp_tolower {d : UInt8} (hd : d = 0 ∨ d = 47 ∨ d = 58) :
    ((· == d) ∘ tolower) = fun c : UInt8 => c == d := by
  funext c
  rw [Function.comp_apply, Bool.eq_iff_iff, beq_iff_eq, beq_iff_eq]
  exact tolower_eq_iff hd c

theorem ne_comp_tolower {d : UInt8} (hd : d = 0 ∨ d = 47 ∨ d = 58) :
    ((fun c : UInt8 => decide (c ≠ d)) ∘ tolower) = fun c : UInt8 => decide (c ≠ d) := by
  funext c
  rw [Function.comp_apply, decide_eq_decide, ne_eq, ne_eq, tolower_eq_iff hd]

theorem findFrom_lowered (path : Str) (start : ℕ) :
    findFrom (lowered path) 47 start = findFrom path 47 start := by
  have hindex : ∀ s : Str, (s.map tolower).idxOf? 47 = s.idxOf? 47 := by
    intro s
    unfold List.idxOf?
    rw [List.findIdx?_map, beq_comp_tolower (by decide)]
  rw [findFrom, findFrom, lowered, ← List.map_drop, hindex]

theorem substr_lowered (path : Str) (start count : ℕ) :
    substr (lowered path) start count = lowered (substr path start count) := by
  rw [substr, substr, lowered, lowered, List.map_take, List.map_drop]

/-- The loop of the splitter. The induction is on its bound. -/
theorem splitLoop_lowered (path : Str) : ∀ (rounds start : ℕ),
    splitLoop (lowered path) rounds start = (splitLoop path rounds start).map lowered
  | 0, _ => rfl
  | rounds + 1, start => by
    rw [splitLoop, splitLoop, findFrom_lowered]
    have hlength : (lowered path).length = path.length := List.length_map _
    cases findFrom path 47 start with
    | none => simp only [substr_lowered, hlength, List.map_cons, List.map_nil]
    | some pos =>
      simp only [substr_lowered, splitLoop_lowered path rounds, List.map_cons]

theorem first_lowered (path : Str) : (lowered path).getD 0 0 = 47 ↔ path.getD 0 0 = 47 := by
  cases path with
  | nil => exact Iff.rfl
  | cons c path => exact tolower_eq_iff (by decide) c

theorem splitPath_lowered (path : Str) :
    splitPath (lowered path) = (splitPath path).map lowered := by
  have hlength : (lowered path).length = path.length := List.length_map _
  rw [splitPath, splitPath, splitLoop_lowered, hlength, if_congr (first_lowered path) rfl rfl]

theorem cStr_lowered (name : Str) : cStr (lowered name) = lowered (cStr name) := by
  rw [cStr, cStr, lowered, List.takeWhile_map, ne_comp_tolower (by decide), lowered]

theorem nameMatches_lowered (entry : Block) (name : Str) :
    Entry.nameMatches entry (lowered name) = Entry.nameMatches entry name := by
  have htwice : (lowered (cStr name)).map tolower = (cStr name).map tolower :=
    lowered_lowered (cStr name)
  rw [Entry.nameMatches, Entry.nameMatches, strcaseeq, strcaseeq, cStr_lowered, htwice]

/-- The loop of `GetEntry`. The induction is on its bound. -/
theorem getEntryLoop_lowered (bound : ℕ) : ∀ (rounds : ℕ) (entry : Option EntryPtr)
    (path : List Str), getEntryLoop v bound rounds entry (path.map lowered)
      = getEntryLoop v bound rounds entry path
  | 0, _, _ => rfl
  | _ + 1, none, [] => rfl
  | _ + 1, none, _ :: _ => rfl
  | _ + 1, some _, [] => rfl
  | rounds + 1, some entry, name :: path => by
    have hpath := fun entry => getEntryLoop_lowered bound rounds entry path
    have hname := fun entry => getEntryLoop_lowered bound rounds entry (name :: path)
    simp only [List.map_cons] at hname
    simp only [List.map_cons, getEntryLoop, nameMatches_lowered, List.map_eq_nil_iff, hpath, hname]

theorem lowered_eq_root_iff (path : Str) : lowered path = ascii "/" ↔ path = ascii "/" := by
  have hslash : ascii "/" = [47] := rfl
  match path with
  | [] => exact Iff.rfl
  | [c] =>
    simp only [lowered, List.map_cons, List.map_nil, hslash, List.cons.injEq, and_true]
    exact tolower_eq_iff (by decide) c
  | _ :: _ :: _ => exact iff_of_false (by simp [lowered, hslash]) (by simp [hslash])

theorem getEntry_lowered (path : Str) : getEntry v fuel (lowered path) = getEntry v fuel path := by
  rw [getEntry, getEntry, splitPath_lowered, if_congr (lowered_eq_root_iff path) rfl rfl]
  simp only [getEntryLoop_lowered]

/-- **`GetEntry` does not look at the case of letters,** on any volume. -/
theorem getEntry_congr (h : sameName path path') :
    getEntry v fuel path = getEntry v fuel path' := by
  have hlowered : lowered path = lowered path' := beq_iff_eq.mp h
  rw [← getEntry_lowered path, hlowered, getEntry_lowered]

theorem openDirectory_congr (h : sameName path path') :
    openDirectory v fuel path = openDirectory v fuel path' := by
  have hroot : path = ascii "/" ↔ path' = ascii "/" := by
    rw [← lowered_eq_root_iff path, ← lowered_eq_root_iff path',
      (beq_iff_eq.mp h : lowered path = lowered path')]
  rw [openDirectory, openDirectory, getEntry_congr h, if_congr hroot rfl rfl]

theorem prodosFilename_lowered (mode : ExtensionMode) (path : Str) :
    prodosFilename mode (lowered path) = lowered (prodosFilename mode path) := by
  have hmem : 58 ∈ lowered path ↔ 58 ∈ path := by
    rw [lowered, List.mem_map]
    constructor
    · rintro ⟨c, hc, h⟩
      rwa [(tolower_eq_iff (by decide) c).mp h] at hc
    · exact fun h => ⟨58, h, by decide⟩
  rw [prodosFilename, prodosFilename, if_congr (and_congr_right' hmem) rfl rfl]
  split
  · rw [lowered, lowered, ← List.map_reverse, List.dropWhile_map, ne_comp_tolower (by decide),
      ← List.map_drop, ← List.map_reverse]
  · rfl

theorem sameName_prodosFilename (mode : ExtensionMode) (h : sameName path path') :
    sameName (prodosFilename mode path) (prodosFilename mode path') := by
  have hlowered : lowered path = lowered path' := beq_iff_eq.mp h
  refine beq_iff_eq.mpr ?_
  change lowered (prodosFilename mode path) = lowered (prodosFilename mode path')
  rw [← prodosFilename_lowered, hlowered, prodosFilename_lowered]

/-! ### The text of the virtual file -/

theorem all_slash_lowered (path : Str) : (lowered path).all (· == 47) = path.all (· == 47) := by
  rw [lowered, List.all_map, beq_comp_tolower (by decide)]

theorem parentPath_lowered (path : Str) :
    parentPath (lowered path) = lowered (parentPath path) := by
  have hparent : (((lowered path).reverse.dropWhile (· ≠ 47)).dropWhile (· == 47)).reverse
      = lowered ((path.reverse.dropWhile (· ≠ 47)).dropWhile (· == 47)).reverse := by
    rw [lowered, lowered, ← List.map_reverse, List.dropWhile_map, ne_comp_tolower (by decide),
      List.dropWhile_map, beq_comp_tolower (by decide), ← List.map_reverse]
  have hempty : lowered ((path.reverse.dropWhile (· ≠ 47)).dropWhile (· == 47)).reverse = [] ↔
      ((path.reverse.dropWhile (· ≠ 47)).dropWhile (· == 47)).reverse = [] := List.map_eq_nil_iff
  rw [parentPath, parentPath, all_slash_lowered]
  simp only [hparent, hempty, first_lowered]
  split
  · rfl
  · split
    · rfl
    · rfl

theorem lowered_titleLine (volumeName path : Str) :
    lowered (titleLine volumeName (lowered path)) = lowered (titleLine volumeName path) := by
  have hroot : isRootPath (lowered path) = isRootPath path := by
    have hempty : lowered path = [] ↔ path = [] := List.map_eq_nil_iff
    rw [isRootPath, isRootPath, all_slash_lowered]
    simp only [ne_eq, hempty]
  rw [titleLine, titleLine, hroot, cStr_lowered]
  split
  · rfl
  · simp only [lowered, List.map_append, List.map_map]
    congr 2
    exact List.map_congr_left fun c _ => tolower_tolower c

theorem sameName_titleLine (volumeName : Str) (h : sameName path path') :
    sameName (titleLine volumeName path) (titleLine volumeName path') := by
  have hlowered : lowered path = lowered path' := beq_iff_eq.mp h
  refine beq_iff_eq.mpr ?_
  change lowered (titleLine volumeName path) = lowered (titleLine volumeName path')
  rw [← lowered_titleLine, hlowered, lowered_titleLine]

/-- A line with other letters fits as well or as badly. -/
theorem upTo_formatLine {σ : Type} {line line' : Str} (h : sameName line line') :
    Call.UpTo (fun a b => sameName a b) (formatLine line : Call Exn σ Str) (formatLine line') := by
  have hlength : line.length = line'.length := by
    simpa using congrArg List.length (beq_iff_eq.mp h)
  rw [formatLine, formatLine, hlength]
  split
  · exact .refl sameName_refl Call.fault
  · exact .pure h

theorem sameName_append {a b : Str} (h : sameName a b) (c : Str) : sameName (a ++ c) (b ++ c) := by
  rw [sameName, beq_iff_eq] at h ⊢
  rw [List.map_append, List.map_append, h]

/-- The loop over the entries goes on behind what it is given. The induction is on its bound. -/
theorem upTo_catalogLoop (bound rounds : ℕ) : ∀ {output output' : Str}, sameName output output' →
    Call.UpTo (fun a b => sameName a b) (catalogLoop v bound rounds output)
      (catalogLoop v bound rounds output') := by
  induction rounds with
  | zero => exact fun _ => .refl sameName_refl Call.timeout
  | succ rounds ih =>
    intro output output' h
    refine .bind_right fun entry => ?_
    cases entry with
    | none => exact .pure h
    | some entry => exact .bind_right fun line => ih (sameName_append h line)

/-- **The text of the virtual file has the letters of the path in it,** and nothing else of it. -/
theorem upTo_catalog (h : sameName path path') :
    Call.UpTo (Option.Rel fun a b => sameName a b) (catalog v fuel path)
      (catalog v fuel path') := by
  have hlowered : lowered path = lowered path' := beq_iff_eq.mp h
  have hparent : sameName (parentPath path) (parentPath path') := by
    refine beq_iff_eq.mpr ?_
    change lowered (parentPath path) = lowered (parentPath path')
    rw [← parentPath_lowered, hlowered, parentPath_lowered]
  rw [catalog, catalog, openDirectory_congr hparent]
  refine .bind_right fun dh => ?_
  cases dh with
  | none => exact .pure .none
  | some dh =>
    refine .bind_right fun volumeName => ?_
    refine .bind (upTo_formatLine (sameName_titleLine volumeName hparent)) fun title title' ht => ?_
    refine .bind_right fun columns => ?_
    refine .bind ((upTo_catalogLoop fuel fuel (sameName_append ht columns)).withLocal dh)
      fun output output' ho => ?_
    refine .bind_right fun totalBlocks => .bind_right fun blocksUsed => .bind_right fun totals => ?_
    exact .pure (.some (sameName_append ho totals))

end

/-- Two objects are the same, up to the letters of a catalogue. -/
def Fh.SameLetters : Fh → Fh → Prop
  | .catalog text, .catalog text' => Option.Rel (fun a b => sameName a b) text text'
  | .file handle, .file handle' => handle = handle'
  | _, _ => False

/-- **The callbacks do not look at the case of letters,** on any volume and whatever they come to,
unless they take one of the paths, and not the other, for that of the virtual file. The text of the
virtual file has the path in it as it was given, so that it has the letters of one path or of the
other. -/
theorem case_insensitive (m : Mount) (fuel : ℕ) {path path' : Str} (h : sameName path path') :
    (virtualFileId path = virtualFileId path' →
      prodosfsGetattr m fuel path = prodosfsGetattr m fuel path') ∧
    (virtualFileId (prodosFilename m.extensionMode path) = .none →
      virtualFileId (prodosFilename m.extensionMode path') = .none →
      prodosfsOpen m fuel path = prodosfsOpen m fuel path') ∧
    (virtualFileId (prodosFilename m.extensionMode path) = .catalog →
      virtualFileId (prodosFilename m.extensionMode path') = .catalog →
      Call.UpTo (fun r r' => r.1 = r'.1 ∧ Option.Rel Fh.SameLetters r.2 r'.2)
        (prodosfsOpen m fuel path) (prodosfsOpen m fuel path')) ∧
    prodosfsGetxattr m fuel path = prodosfsGetxattr m fuel path' ∧
    prodosfsListxattr m fuel path = prodosfsListxattr m fuel path' ∧
    prodosfsOpendir m fuel path = prodosfsOpendir m fuel path' := by
  have hname := sameName_prodosFilename m.extensionMode h
  have hfilename : ∀ v : Volume, getEntry v fuel (prodosFilename m.extensionMode path)
      = getEntry v fuel (prodosFilename m.extensionMode path') := fun v => getEntry_congr hname
  refine ⟨fun hid => ?_, fun hid hid' => ?_, fun hid hid' => ?_, ?_, ?_, ?_⟩
  · funext st
    rw [prodosfsGetattr, prodosfsGetattr, hid, hfilename]
  · rw [prodosfsOpen, prodosfsOpen, hid, hid', openFile, openFile, hfilename]
    rfl
  · have hvirtual : virtualFileMode ≠ .none := by decide
    rw [prodosfsOpen, prodosfsOpen, if_pos ⟨hvirtual, hid⟩, if_pos ⟨hvirtual, hid'⟩]
    exact .bind (upTo_catalog hname) fun text text' ht => .pure ⟨rfl, .some ht⟩
  · funext name size
    rw [prodosfsGetxattr, prodosfsGetxattr, getEntry_congr h]
  · funext size
    rw [prodosfsListxattr, prodosfsListxattr, hfilename]
  · rw [prodosfsOpendir, prodosfsOpendir, openDirectory_congr h]

/-- The text file of the small volume, and the virtual file of its directory. -/
theorem case_insensitive_small :
    prodosfsGetattr (smallMount .on) 2000000 (ascii "/t:txt")
        = prodosfsGetattr (smallMount .on) 2000000 (ascii "/T:TXT") ∧
      prodosfsOpen (smallMount .on) 2000000 (ascii "/t:txt")
        = prodosfsOpen (smallMount .on) 2000000 (ascii "/T:TXT") ∧
      Call.UpTo (fun r r' => r.1 = r'.1 ∧ Option.Rel Fh.SameLetters r.2 r'.2)
        (prodosfsOpen (smallMount .on) 2000000 (ascii "/d/.CATALOG"))
        (prodosfsOpen (smallMount .on) 2000000 (ascii "/D/.CATALOG")) := by
  have hsame : sameName (ascii "/t:txt") (ascii "/T:TXT") := by decide
  have hdirectory : sameName (ascii "/d/.CATALOG") (ascii "/D/.CATALOG") := by decide
  obtain ⟨hgetattr, hopen, -⟩ := case_insensitive (smallMount .on) 2000000 hsame
  obtain ⟨-, -, hcatalog, -⟩ := case_insensitive (smallMount .on) 2000000 hdirectory
  exact ⟨hgetattr (by decide), hopen (by decide) (by decide), hcatalog (by decide) (by decide)⟩

end Prodosfs
