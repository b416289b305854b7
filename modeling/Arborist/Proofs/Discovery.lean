import Arborist.Discovery
import Arborist.Proofs.FileSystem
import Arborist.Proofs.Glob.Exclusion

/-!
# `Arborist.Proofs.Discovery`: which source files are excluded

An exclusion pattern takes out the paths that it matches, and besides them every path with the
pattern's own name among its pieces. The name is what is left of the text without its stars, so it
is the same for `name`, `name/**`, `**/name` and `**/name/**`.

`Exclusion.IsFaithful` says for which patterns the name makes no difference, and
`Exclusion.Valid.isFaithful_iff` that these are all: for any other pattern there is the path of a
source file that the pattern does not match and still excludes. A pattern that is bound to the start
of the path is never faithful.
-/

set_option autoImplicit false

namespace Arborist

/-! ### Names of source files -/

namespace Path

/-- A name has no slash in it: it is a single piece of a path. -/
theorem IsName.slash_not_mem {name : String} (h : IsName name) : '/' ∉ name.toList :=
  slash_not_mem_of_mem_pieces (h.1 ▸ List.mem_singleton_self _)

/-- A text without a slash is a name if it is longer than two characters. Shorter texts may be a
dot, two dots or nothing at all, which are not names. -/
theorem isName_ofList {cs : List Char} (hslash : '/' ∉ cs) (hlength : 2 < cs.length) :
    IsName (String.ofList cs) := by
  constructor
  · rw [pieces, Text.splitAll_eq_splitOn, String.toList_ofList, List.splitOn_eq_singleton hslash]
  · have hlonger : ∀ short : List Char, short.length ≤ 2 → cs ≠ short := by
      rintro short hle rfl
      omega
    rw [String.toList_ofList, Component.ofPiece?,
      if_neg (not_or.2 ⟨hlonger _ (by decide), hlonger _ (by decide)⟩),
      if_neg (hlonger _ (by decide))]

/-- The file name of a path is its last piece, if that is a name. Pieces in front of it have no
influence. -/
theorem fileName?_of_getLast? {path name : String} (hname : IsName name)
    (hlast : (pieces path).getLast? = some name.toList) : fileName? path = some name := by
  obtain ⟨before, hpieces⟩ := List.getLast?_eq_some_iff.1 hlast
  have hcomponent : (components path).getLast? = some (.normal name) := by
    rw [components, hpieces, List.filterMap_append]
    simp [hname.2]
  rw [fileName?, hcomponent]

/-- A name is a path whose file name is the name itself. -/
theorem IsName.fileName?_eq {name : String} (h : IsName name) : fileName? name = some name :=
  fileName?_of_getLast? h (by rw [h.1, List.getLast?_singleton])

/-- The extension of a path is that of its last piece, if that is a name. -/
theorem extension?_of_getLast? {path name : String} (hname : IsName name)
    (hlast : (pieces path).getLast? = some name.toList) : extension? path = extension? name := by
  rw [extension?, extension?, fileName?_of_getLast? hname hlast, hname.fileName?_eq]

/-- The extension of a name is what stands behind its last dot, unless the name begins with that
dot. -/
theorem extension?_ofList_append {stem extension : List Char} (hstem : stem ≠ [])
    (hdot : '.' ∉ extension) (hname : IsName (String.ofList (stem ++ '.' :: extension))) :
    extension? (String.ofList (stem ++ '.' :: extension)) = some (String.ofList extension) := by
  have hsplit : Text.splitFirst? '.' (extension.reverse ++ '.' :: stem.reverse) =
      some (extension.reverse, stem.reverse) :=
    Text.splitFirst?_append (by simpa using hdot) _
  rw [extension?, hname.fileName?_eq]
  simp [hsplit, hstem]

end Path

/-- What the path of a source file below a directory is like: its pieces are names, and it has the
extension. -/
structure IsSourcePath (path : String) : Prop where
  isName_of_mem : ∀ piece ∈ Path.pieces path, Path.IsName (String.ofList piece)
  extension?_eq : Path.extension? path = some Snapshot.sourceExtension

/-- Every name is that of a directory with longer names around it, on the way to a source file. The
names around it are longer so that a pattern for the name cannot match them by accident. -/
theorem exists_isSourcePath_around {name : List Char} (hname : Path.IsName (String.ofList name)) :
    ∃ outer inner, ('/' ∉ outer ∧ name.length < outer.length) ∧
      ('/' ∉ inner ∧ name.length < inner.length) ∧
      Path.pieces (Path.ofPieces [outer, name, inner]) = [outer, name, inner] ∧
      IsSourcePath (Path.ofPieces [outer, name, inner]) := by
  have hslash : '/' ∉ name := by simpa using hname.slash_not_mem
  -- More letters than the name has will do, with the extension behind those of the file.
  let outer := List.replicate (name.length + 3) 'a'
  let inner := outer ++ '.' :: Snapshot.sourceExtension.toList
  have houter : '/' ∉ outer := by simp [outer, List.mem_replicate]
  have hinner : '/' ∉ inner := by simp [inner, houter, Snapshot.sourceExtension]
  have houter_length : outer.length = name.length + 3 := List.length_replicate
  have hinner_length : outer.length < inner.length := by simp [inner]
  have hinner_name : Path.IsName (String.ofList inner) := Path.isName_ofList hinner (by omega)
  have hpieces : Path.pieces (Path.ofPieces [outer, name, inner]) = [outer, name, inner] := by
    rw [Path.pieces_ofPieces (by simp [houter, hslash, hinner]), if_neg (by simp)]
  refine ⟨outer, inner, ⟨houter, by omega⟩, ⟨hinner, by omega⟩, hpieces, ?_, ?_⟩
  · rw [hpieces]
    simpa using ⟨Path.isName_ofList houter (by omega), hname, hinner_name⟩
  · rw [Path.extension?_of_getLast? hinner_name (by simp [hpieces]),
      Path.extension?_ofList_append (by simp [outer]) (by decide) hinner_name, String.ofList_toList]

/-! ### Patterns and their names -/

namespace Exclusion

/-- The pattern matches the whole path. -/
def Matches (e : Exclusion) (path : String) : Prop := e.glob.Matches path.toList

instance (e : Exclusion) (path : String) : Decidable (e.Matches path) :=
  decidable_of_iff _ Glob.accepts_iff

/-- The name of a pattern is its text without the stars for directories around it, if something is
left and no further star is in it. -/
theorem plainName?_eq_some_iff {e : Exclusion} {name : List Char} :
    e.plainName? = some name ↔
      Glob.bareText e.text.toList = name ∧ name ≠ [] ∧ '*' ∉ name := by
  show (if (Glob.bareText e.text.toList).isEmpty || (Glob.bareText e.text.toList).contains '*'
    then none else some (Glob.bareText e.text.toList)) = some name ↔ _
  constructor
  · intro h
    split at h
    · cases h
    · rename_i hplain
      cases h
      simp only [Bool.or_eq_true, List.isEmpty_iff, List.contains_iff_mem, not_or] at hplain
      exact ⟨rfl, hplain⟩
  · rintro ⟨rfl, hne, hstar⟩
    rw [if_neg]
    simpa using ⟨hne, hstar⟩

/-- A pattern excludes the paths that it matches and those that have its name among their pieces. -/
theorem excludes_iff {e : Exclusion} {path : String} :
    e.excludes path = true ↔
      e.Matches path ∨ ∃ name, e.plainName? = some name ∧ name ∈ Path.pieces path := by
  rw [excludes, Bool.or_eq_true, Glob.accepts_iff, Matches]
  cases e.plainName? with
  | none => simp
  | some name => simp

/-- The tokens are those of the text. -/
def Valid (e : Exclusion) : Prop := Glob.exclusion? e.text = some e.glob

instance (e : Exclusion) : Decidable e.Valid :=
  inferInstanceAs (Decidable (_ = _))

/-- A pattern that is read has the text it was read from, and its tokens are those of the text. So a
pattern that was read is determined by its text. -/
theorem ofText?_eq_some_iff {text : String} {e : Exclusion} :
    ofText? text = some e ↔ e.text = text ∧ e.Valid := by
  rw [ofText?, Option.map_eq_some_iff]
  constructor
  · rintro ⟨glob, hglob, rfl⟩
    exact ⟨rfl, hglob⟩
  · rintro ⟨rfl, he⟩
    exact ⟨e.glob, he, rfl⟩

/-- The tokens of a valid pattern with a name are those of the name, with or without directories
above it and with or without all that is beneath it. This is what connects the text of a pattern,
which the name is cut out of, with its tokens, which do the matching. -/
theorem Valid.exists_names {e : Exclusion} (he : e.Valid) {name : List Char}
    (hplain : e.plainName? = some name) (hslash : '/' ∉ name) :
    ∃ above beneath, Glob.Names name above beneath e.text.toList e.glob := by
  obtain ⟨rfl, hne, hstar⟩ := plainName?_eq_some_iff.1 hplain
  have hread : Glob.Reads none e.text.toList e.glob := Glob.readsFrom_of_exclusionFrom? he
  exact hread.exists_names hne hstar hslash

/-- The name of the pattern makes no difference: a path cannot have such a piece, or the pattern
goes over all directories above the name and over all that is below it, the name has no brackets,
and it is not that of a source file. -/
def IsFaithful (e : Exclusion) : Prop :=
  ∀ name ∈ e.plainName?, Path.IsName (String.ofList name) →
    "**/".toList <+: e.text.toList ∧ "/**".toList <:+ e.text.toList ∧ '[' ∉ name ∧
      Path.extension? (String.ofList name) ≠ some Snapshot.sourceExtension

instance (e : Exclusion) : Decidable e.IsFaithful :=
  inferInstanceAs (Decidable (∀ name ∈ e.plainName?, _))

/-- A faithful pattern excludes only what it matches: a source file with the name on its path has it
as the name of a directory, and a faithful pattern matches all that is below directories of that
name. -/
theorem Valid.matches_of_mem_pieces {e : Exclusion} (he : e.Valid) (hfaithful : e.IsFaithful)
    {path : String} (hpath : IsSourcePath path) {name : List Char}
    (hplain : e.plainName? = some name) (hmem : name ∈ Path.pieces path) : e.Matches path := by
  obtain ⟨-, hne, hstar⟩ := plainName?_eq_some_iff.1 hplain
  have hname := hpath.isName_of_mem name hmem
  obtain ⟨hstart, hend, hbracket, hextension⟩ := hfaithful name hplain hname
  obtain ⟨hslash, lead, back, htext, hlead, hback⟩ := Path.mem_pieces_iff.1 hmem
  obtain ⟨above, beneath, hnames⟩ := he.exists_names hplain hslash
  rcases hback with rfl | ⟨inner, rfl⟩
  · -- The name is that of the file, so it has the extension of the file.
    rw [List.append_nil] at htext
    have hlast := Path.getLast?_pieces hslash htext hlead
    rw [← String.toList_ofList (l := name)] at hlast
    have hsame := Path.extension?_of_getLast? hname hlast
    exact absurd (hsame.symm.trans hpath.extension?_eq) hextension
  · rw [Matches, htext]
    exact hnames.matches_below ((hnames.starts_iff hne hstar hbracket).1 hstart)
      ((hnames.ends_iff hne hstar hbracket).1 hend) hbracket hlead

/-- The faithful patterns are those that exclude exactly the source files that they match. For the
way back, a pattern is tried on two paths: one with a directory of its name in the middle, and the
name itself. -/
theorem Valid.isFaithful_iff {e : Exclusion} (he : e.Valid) :
    e.IsFaithful ↔
      ∀ path, IsSourcePath path → (e.excludes path = true ↔ e.Matches path) := by
  constructor
  · intro hfaithful path hpath
    rw [excludes_iff]
    refine or_iff_left_of_imp ?_
    rintro ⟨name, hplain, hmem⟩
    exact he.matches_of_mem_pieces hfaithful hpath hplain hmem
  · intro hexact name hplain hname
    obtain ⟨-, hne, hstar⟩ := plainName?_eq_some_iff.1 hplain
    have hslash : '/' ∉ name := by simpa using hname.slash_not_mem
    obtain ⟨above, beneath, hnames⟩ := he.exists_names hplain hslash
    have hmatches : ∀ path, IsSourcePath path → name ∈ Path.pieces path → e.Matches path :=
      fun path hpath hmem => (hexact path hpath).1 (excludes_iff.2 (.inr ⟨name, hplain, hmem⟩))
    -- A directory of the name, somewhere in the middle of a path, says all but the extension.
    obtain ⟨outer, inner, houter, hinner, hpieces, hpath⟩ := exists_isSourcePath_around hname
    have haround := hmatches _ hpath (by simp [hpieces])
    have htext : (Path.ofPieces [outer, name, inner]).toList =
        outer ++ '/' :: (name ++ '/' :: inner) := by
      simp [Path.ofPieces]
    rw [Matches, htext] at haround
    obtain ⟨habove, hbeneath, hbracket⟩ :=
      hnames.of_matches_between hslash houter.1 hinner.1 houter.2 hinner.2 haround
    refine ⟨(hnames.starts_iff hne hstar hbracket).2 habove,
      (hnames.ends_iff hne hstar hbracket).2 hbeneath, hbracket, ?_⟩
    -- With the extension, the name is the path of a source file, and nothing is below that.
    intro hextension
    have hfile : IsSourcePath (String.ofList name) := by
      refine ⟨?_, hextension⟩
      rw [hname.1]
      simpa using hname
    have hself := hmatches _ hfile (by simp [hname.1])
    rw [Matches, String.toList_ofList] at hself
    exact hnames.not_matches_of_beneath hbeneath hslash hself

/-- A name without wildcards excludes all paths that it lies on, whatever stands around it in the
pattern. Whatever else the pattern could match has the name among its pieces as well. -/
theorem Valid.excludes_iff_mem_pieces {e : Exclusion} (he : e.Valid) {name : List Char}
    (hplain : e.plainName? = some name) (hslash : '/' ∉ name) (hmark : '?' ∉ name)
    (hbracket : '[' ∉ name) (path : String) :
    e.excludes path = true ↔ name ∈ Path.pieces path := by
  rw [excludes_iff, hplain]
  constructor
  · rintro (hmatches | ⟨_, ⟨⟩, hmem⟩)
    · obtain ⟨above, beneath, hnames⟩ := he.exists_names hplain hslash
      exact Path.mem_pieces_iff.2 ⟨hslash, hnames.exists_eq_of_matches hbracket hmark hmatches⟩
    · exact hmem
  · intro hmem
    exact .inr ⟨name, rfl, hmem⟩

end Exclusion

/-- Patterns are read one by one, and all of them have to be valid. The result has them in the order
in which they were given. -/
theorem readExclusions_eq_ok_iff {patterns : List String} {exclusions : List Exclusion} :
    readExclusions patterns = .ok exclusions ↔
      exclusions.map Exclusion.text = patterns ∧ ∀ e ∈ exclusions, e.Valid := by
  induction patterns generalizing exclusions with
  | nil =>
      have hnil : readExclusions [] = .ok [] := rfl
      rw [hnil]
      cases exclusions <;> simp
  | cons text patterns ih =>
      -- One pattern is read in front of the others, and an invalid one ends the reading at once.
      have hcons : readExclusions (text :: patterns) = .ok exclusions ↔
          ∃ e rest, Exclusion.ofText? text = some e ∧ readExclusions patterns = .ok rest ∧
            exclusions = e :: rest := by
        cases hread : Exclusion.ofText? text with
        | none =>
            have herror : readExclusions (text :: patterns) = .error (.invalidPattern text) := by
              rw [readExclusions, List.mapM_cons, hread]
              exact rfl
            simp [herror]
        | some e =>
            have hbind : readExclusions (text :: patterns) =
                (readExclusions patterns).bind fun rest => .ok (e :: rest) := by
              rw [readExclusions, List.mapM_cons, hread]
              exact rfl
            rw [hbind]
            cases readExclusions patterns <;> simp [Except.bind, eq_comm]
      simp only [hcons, ih, Exclusion.ofText?_eq_some_iff]
      constructor
      · rintro ⟨e, rest, ⟨rfl, he⟩, ⟨rfl, hrest⟩, rfl⟩
        exact ⟨rfl, List.forall_mem_cons.2 ⟨he, hrest⟩⟩
      · rintro ⟨hmap, hvalid⟩
        cases exclusions with
        | nil => cases hmap
        | cons e rest =>
            obtain ⟨rfl, rfl⟩ := List.cons.inj hmap
            obtain ⟨he, hrest⟩ := List.forall_mem_cons.1 hvalid
            exact ⟨e, rest, ⟨rfl, he⟩, ⟨rfl, hrest⟩, rfl⟩

/-! ### Discovered paths -/

namespace Snapshot

variable {s : Snapshot} {options : IgnoreOptions} {exclusions : List Exclusion} {path : String}

/-- The names on the way to files can stand in paths. -/
def ProperNames (s : Snapshot) : Prop := ∀ file ∈ s.files, ∀ name ∈ file.1, Path.IsName name

instance (s : Snapshot) : Decidable s.ProperNames :=
  inferInstanceAs (Decidable (∀ file ∈ s.files, ∀ name ∈ file.1, Path.IsName name))

/-- The paths that are discovered: those of the files below the root that have the extension, are
not ignored and are not excluded, each as it is spelled from the root on. -/
theorem mem_sourcePaths :
    path ∈ s.sourcePaths options exclusions ↔
      ∃ file ∈ s.files, (options.root.length < file.1.length ∧ options.root <+: file.1) ∧
        path = String.intercalate "/" (file.1.drop options.root.length) ∧
        Path.extension? path = some sourceExtension ∧
        s.isIgnoredFile options file.1 = false ∧ ∀ e ∈ exclusions, e.excludes path = false := by
  simp only [sourcePaths, List.mem_filterMap, List.mem_filter]
  constructor
  · rintro ⟨⟨file, text⟩, ⟨hfile, hbelow⟩, hpath⟩
    dsimp only at hpath hbelow
    -- The three tests of a path stand in one condition.
    split at hpath
    · rename_i hkept
      cases hpath
      simp only [Bool.and_eq_true, decide_eq_true_iff, Bool.not_eq_true', List.any_eq_false,
        Bool.not_eq_true] at hkept
      exact ⟨(file, text), hfile, by simpa using hbelow, rfl, hkept.1.1, hkept.2, hkept.1.2⟩
    · cases hpath
  · rintro ⟨⟨file, text⟩, hfile, hbelow, rfl, hextension, hignored, hexcluded⟩
    refine ⟨(file, text), ⟨hfile, by simpa using hbelow⟩, ?_⟩
    have hany : exclusions.any
        (·.excludes (String.intercalate "/" (file.drop options.root.length))) = false :=
      List.any_eq_false.2 fun e he => by simp [hexcluded e he]
    simp [hextension, hignored, hany]

/-- Exclusions leave the paths that none of them excludes. What is ignored is decided without
them. -/
theorem mem_sourcePaths_iff :
    path ∈ s.sourcePaths options exclusions ↔
      path ∈ s.sourcePaths options [] ∧ ∀ e ∈ exclusions, e.excludes path = false := by
  rw [mem_sourcePaths, mem_sourcePaths]
  constructor
  · rintro ⟨file, hfile, hbelow, hpath, hextension, hignored, hexcluded⟩
    exact ⟨⟨file, hfile, hbelow, hpath, hextension, hignored, List.forall_mem_nil _⟩, hexcluded⟩
  · rintro ⟨⟨file, hfile, hbelow, hpath, hextension, hignored, -⟩, hexcluded⟩
    exact ⟨file, hfile, hbelow, hpath, hextension, hignored, hexcluded⟩

/-- A discovered path is that of a source file: its pieces are the names of the places on the way,
and the root is no longer in front of them. -/
theorem isSourcePath_of_mem_sourcePaths (hs : s.ProperNames)
    (h : path ∈ s.sourcePaths options exclusions) : IsSourcePath path := by
  obtain ⟨file, hfile, ⟨hlonger, -⟩, rfl, hextension, -⟩ := mem_sourcePaths.1 h
  refine ⟨?_, hextension⟩
  let names := file.1.drop options.root.length
  have hnames : ∀ name ∈ names, Path.IsName name :=
    fun name hname => hs file hfile name (List.mem_of_mem_drop hname)
  have hpath : String.intercalate "/" names = Path.ofPieces (names.map String.toList) := by
    simp [Path.ofPieces, Function.comp_def]
  have hslash : ∀ piece ∈ names.map String.toList, '/' ∉ piece := by
    intro piece hpiece
    obtain ⟨name, hname, rfl⟩ := List.mem_map.1 hpiece
    exact (hnames name hname).slash_not_mem
  -- The file is below the root, so some name is left.
  have hne : names.map String.toList ≠ [] := by
    have hlength : names.length = file.1.length - options.root.length := List.length_drop
    rw [Ne, List.map_eq_nil_iff, ← List.length_eq_zero_iff]
    omega
  rw [hpath, Path.pieces_ofPieces hslash, if_neg hne]
  intro piece hpiece
  obtain ⟨name, hname, rfl⟩ := List.mem_map.1 hpiece
  rw [String.ofList_toList]
  exact hnames name hname

end Snapshot

/-- Exclusion patterns take out what they match and what their names lie on. Valid patterns leave
those of the discovered files that no pattern matches and that have no pattern's name among the
pieces of their path.

That a pattern takes out exactly the source files that it matches is so if and only if it is
faithful, and faithful patterns therefore leave the files that none of them matches. For a name
without wildcards, on the other hand, it does not matter what stands around it: `name`, `name/**`,
`**/name` and `**/name/**` take out the same files, those with the name anywhere on their path. -/
theorem excluded_iff_matched_or_named {patterns : List String} {exclusions : List Exclusion}
    (h : readExclusions patterns = .ok exclusions) :
    (exclusions.map Exclusion.text = patterns ∧ ∀ e ∈ exclusions, e.Valid) ∧
    (∀ (s : Snapshot) (options : IgnoreOptions) (path : String),
      path ∈ s.sourcePaths options exclusions ↔
        path ∈ s.sourcePaths options [] ∧ ¬∃ e ∈ exclusions,
          e.Matches path ∨ ∃ name, e.plainName? = some name ∧ name ∈ Path.pieces path) ∧
    (∀ e ∈ exclusions,
      e.IsFaithful ↔ ∀ path, IsSourcePath path → (e.excludes path = true ↔ e.Matches path)) ∧
    ((∀ e ∈ exclusions, e.IsFaithful) →
      ∀ (s : Snapshot) (options : IgnoreOptions) (path : String), s.ProperNames →
        (path ∈ s.sourcePaths options exclusions ↔
          path ∈ s.sourcePaths options [] ∧ ¬∃ e ∈ exclusions, e.Matches path)) ∧
    (∀ e ∈ exclusions, ∀ name, e.plainName? = some name →
      '/' ∉ name → '?' ∉ name → '[' ∉ name →
        ∀ path, e.excludes path = true ↔ name ∈ Path.pieces path) := by
  obtain ⟨htexts, hvalid⟩ := readExclusions_eq_ok_iff.1 h
  refine ⟨⟨htexts, hvalid⟩, ?_, ?_, ?_, ?_⟩
  · intro s options path
    rw [Snapshot.mem_sourcePaths_iff]
    simp only [← Exclusion.excludes_iff, not_exists, not_and, Bool.not_eq_true]
  · intro e he
    exact (hvalid e he).isFaithful_iff
  · intro hfaithful s options path hs
    rw [Snapshot.mem_sourcePaths_iff]
    refine and_congr_right fun hpath => ?_
    -- That a pattern is faithful says something about source paths only, and discovered paths are
    -- such.
    have hsource := Snapshot.isSourcePath_of_mem_sourcePaths hs hpath
    have hexact : ∀ e ∈ exclusions, (e.excludes path = true ↔ e.Matches path) :=
      fun e he => (hvalid e he).isFaithful_iff.1 (hfaithful e he) path hsource
    constructor
    · rintro hkept ⟨e, he, hmatches⟩
      exact absurd ((hexact e he).2 hmatches) (by simp [hkept e he])
    · intro hnone e he
      rw [← Bool.not_eq_true]
      exact fun hexcluded => hnone ⟨e, he, (hexact e he).1 hexcluded⟩
  · intro e he name hplain hslash hmark hbracket path
    exact (hvalid e he).excludes_iff_mem_pieces hplain hslash hmark hbracket path

/-- All that is below the directories called `target`. -/
def belowTarget : Exclusion :=
  ⟨"**/target/**", .directories :: "target/".toList.map .char ++ [.run true]⟩

/-- All that is below the directory `gen` at the start. -/
def belowGen : Exclusion := ⟨"gen/**", "gen/".toList.map .char ++ [.run true]⟩

/-- The file `build.rs` at the start. -/
def buildScript : Exclusion := ⟨"build.rs", "build.rs".toList.map .char⟩

/-- Source files with each of these names at the start and further down. -/
def nestedSources : Snapshot where
  files :=
    [["build.rs"], ["sub", "build.rs"], ["gen", "a.rs"], ["src", "gen", "b.rs"],
      ["target", "c.rs"], ["sub", "target", "d.rs"], ["src", "lib.rs"]].map (·, some "")

/-- A faithful pattern and one that is not, on a directory that has files with their names at
several depths. -/
theorem excluded_iff_matched_or_named_nested :
    readExclusions ["**/target/**"] = .ok [belowTarget] ∧ belowTarget.IsFaithful ∧
      nestedSources.ProperNames ∧
      (∀ path, path ∈ nestedSources.sourcePaths ⟨[], false⟩ [belowTarget] ↔
        path ∈ nestedSources.sourcePaths ⟨[], false⟩ [] ∧ ¬∃ e ∈ [belowTarget], e.Matches path) ∧
      readExclusions ["gen/**"] = .ok [belowGen] ∧ ¬belowGen.IsFaithful ∧
      ∀ path, belowGen.excludes path = true ↔ "gen".toList ∈ Path.pieces path := by
  have htarget : readExclusions ["**/target/**"] = .ok [belowTarget] :=
    readExclusions_eq_ok_iff.2 ⟨rfl, by decide +kernel⟩
  have hgen : readExclusions ["gen/**"] = .ok [belowGen] :=
    readExclusions_eq_ok_iff.2 ⟨rfl, by decide +kernel⟩
  have hfaithful : belowTarget.IsFaithful := by decide +kernel
  have hnames : nestedSources.ProperNames := by decide +kernel
  refine ⟨htarget, hfaithful, hnames, ?_, hgen, by decide +kernel, ?_⟩
  · intro path
    exact (excluded_iff_matched_or_named htarget).2.2.2.1 (by simpa using hfaithful) nestedSources
      ⟨[], false⟩ path hnames
  · -- Not faithful, but its name has no wildcards, so it takes out what has the name on its path.
    exact (excluded_iff_matched_or_named hgen).2.2.2.2 belowGen (by simp) "gen".toList
      (by decide +kernel) (by decide) (by decide) (by decide)

/-- Patterns that are bound to the start take out files further down, which they do not match. One
of the files is in a directory of the excluded name, the other has the excluded name itself. -/
theorem anchored_exclusions_reach_further :
    readExclusions ["gen/**", "build.rs"] = .ok [belowGen, buildScript] ∧
      nestedSources.ProperNames ∧
      ∀ path ∈ ["src/gen/b.rs", "sub/build.rs"],
        path ∈ nestedSources.sourcePaths ⟨[], false⟩ [] ∧
          path ∉ nestedSources.sourcePaths ⟨[], false⟩ [belowGen, buildScript] ∧
          ¬∃ e ∈ [belowGen, buildScript], e.Matches path :=
  ⟨readExclusions_eq_ok_iff.2 ⟨rfl, by decide +kernel⟩, by decide +kernel, by decide +kernel⟩

end Arborist
