import Arborist.Command.ConfigLookup
import Arborist.Proofs.FileSystem

/-!
# `Arborist.Proofs.Command.ConfigLookup`: which configuration file is found

A path on the command line is taken as it is. Otherwise the search goes through the ancestors of the
target, and these are the front parts of its text: `frontConfig?` follows each of them through the
file system and takes the first directory that holds a configuration file.

The directories that hold the checked one are something else. `IsNearestConfig` speaks about them:
the nearest one with a configuration file, no further out than a given directory.
`frontConfig?_eq_some_iff` says when the two agree. A path that never goes up passes through all
directories between its start and its end, so a path from the root finds the nearest configuration
file there is, and a relative one finds the nearest one inside the working directory. A path that
goes up again can find a file in a directory that does not hold the checked one, and a relative path
misses the files outside the working directory.
-/

set_option autoImplicit false

namespace Arborist

open Arborist.Path (Component names components)

namespace Snapshot

/-- The configuration file in a directory; the plain name comes before the hidden one. -/
def configAt? (s : Snapshot) (directory : Place) : Option Place :=
  if s.isFileAt (directory ++ ["treelint.toml"]) then some (directory ++ ["treelint.toml"])
  else if s.isFileAt (directory ++ [".treelint.toml"]) then some (directory ++ [".treelint.toml"])
  else none

/-- `file` is the configuration file of the directory nearest to `checked` that has one, among
`checked` and the directories that hold it, no further out than `top`. -/
def IsNearestConfig (s : Snapshot) (top checked file : Place) : Prop :=
  ∃ directory ∈ checked.inits, top <+: directory ∧ s.configAt? directory = some file ∧
    ∀ inner ∈ checked.inits, directory.length < inner.length → s.configAt? inner = none

instance (s : Snapshot) (top checked file : Place) :
    Decidable (s.IsNearestConfig top checked file) :=
  inferInstanceAs (Decidable (∃ _ ∈ _, _))

/-- The directory that a check of a place is about: a file is checked in the directory that holds
it. -/
def checkedDirectory (s : Snapshot) (place : Place) : Place :=
  if s.isFileAt place then place.dropLast else place

/-! ### The nearest configuration file -/

/-- If the outermost directory that counts is the checked one, then only its own file can be the
nearest. -/
theorem isNearestConfig_self {s : Snapshot} {top file : Place} :
    s.IsNearestConfig top top file ↔ s.configAt? top = some file := by
  constructor
  · rintro ⟨directory, hdirectory, htop, hfile, -⟩
    obtain rfl : top = directory :=
      htop.eq_of_length_le ((List.mem_inits _ _).1 hdirectory).length_le
    exact hfile
  · intro hfile
    refine ⟨top, (List.mem_inits _ _).2 (List.prefix_refl top), List.prefix_refl top, hfile, ?_⟩
    intro inner hinner hlonger
    have hle := ((List.mem_inits _ _).1 hinner).length_le
    omega

/-- One directory further in: its own file comes first, and then what is nearest further out. This
is the step of the search, which goes from the checked directory outwards. -/
theorem isNearestConfig_concat {s : Snapshot} {top directory file : Place} {name : String}
    (htop : top <+: directory) :
    s.IsNearestConfig top (directory ++ [name]) file ↔
      s.configAt? (directory ++ [name]) = some file ∨
        s.configAt? (directory ++ [name]) = none ∧ s.IsNearestConfig top directory file := by
  have hinits : ∀ place, place ∈ (directory ++ [name]).inits ↔
      place = directory ++ [name] ∨ place ∈ directory.inits := by
    intro place
    rw [List.mem_inits, List.mem_inits, List.prefix_concat_iff]
  have hlength : ∀ place ∈ directory.inits, place.length < (directory ++ [name]).length := by
    intro place hplace
    have hle := ((List.mem_inits _ _).1 hplace).length_le
    rw [List.length_append, List.length_singleton]
    omega
  -- The directory itself is longer than all that are further out, so its file hides theirs.
  constructor
  · rintro ⟨outer, houter, houterTop, hfile, hnone⟩
    rcases (hinits outer).1 houter with rfl | houter
    · exact .inl hfile
    · refine .inr ⟨hnone _ ((hinits _).2 (.inl rfl)) (hlength outer houter), ?_⟩
      exact ⟨outer, houter, houterTop, hfile,
        fun inner hinner => hnone inner ((hinits inner).2 (.inr hinner))⟩
  · rintro (hfile | ⟨hhere, outer, houter, houterTop, hfile, hnone⟩)
    · refine ⟨directory ++ [name], (hinits _).2 (.inl rfl), htop.trans (List.prefix_append _ _),
        hfile, ?_⟩
      intro inner hinner hlonger
      rcases (hinits inner).1 hinner with rfl | hinner
      · exact absurd hlonger (Nat.lt_irrefl _)
      · exact absurd hlonger (Nat.lt_asymm (hlength inner hinner))
    · refine ⟨outer, (hinits outer).2 (.inr houter), houterTop, hfile, ?_⟩
      intro inner hinner hlonger
      rcases (hinits inner).1 hinner with rfl | hinner
      · exact hhere
      · exact hnone inner hinner hlonger

/-- There is no configuration file in a place that is no directory. A place with a file inside is a
directory, so this needs nothing about the file system. -/
theorem configAt?_eq_none {s : Snapshot} {place : Place} (h : s.isDirectoryAt place = false) :
    s.configAt? place = none := by
  have hfile : ∀ name, s.isFileAt (place ++ [name]) = false := by
    intro name
    rw [Bool.eq_false_iff]
    intro hfile
    rw [isDirectoryAt_of_isFileAt hfile] at h
    cases h
  rw [configAt?, hfile, hfile]
  rfl

/-- A file holds no configuration file, so the search may as well start from it as from the
directory that holds it. -/
theorem Consistent.isNearestConfig_concat_file {s : Snapshot} (hs : s.Consistent)
    {top directory file : Place} {name : String} (htop : top <+: directory)
    (h : s.isFileAt (directory ++ [name]) = true) :
    s.IsNearestConfig top (directory ++ [name]) file ↔ s.IsNearestConfig top directory file := by
  rw [isNearestConfig_concat htop, configAt?_eq_none (hs.isDirectoryAt_eq_false h)]
  simp

/-- The nearest configuration file for the checked directory is the one for the checked place, which
is a directory or a file in it. -/
theorem Consistent.isNearestConfig_checkedDirectory {s : Snapshot} (hs : s.Consistent)
    {top file : Place} (htop : s.isDirectoryAt top = true) (ns : List String) :
    s.IsNearestConfig top (s.checkedDirectory (top ++ ns)) file ↔
      s.IsNearestConfig top (top ++ ns) file := by
  rw [checkedDirectory]
  split
  · rename_i hfile
    cases ns using List.reverseRecOn with
    | nil =>
        -- The outermost place is a directory, so the file has a name behind it.
        rw [List.append_nil] at hfile
        rw [hs.isDirectoryAt_eq_false hfile] at htop
        cases htop
    | append_singleton ns name =>
        rw [← List.append_assoc] at hfile ⊢
        rw [List.dropLast_concat, hs.isNearestConfig_concat_file (List.prefix_append _ _) hfile]
  · rfl

/-- The search through the front parts of components, the longest first, finds the nearest
configuration file. The induction takes the last component away: it either names one directory more,
or leads nowhere. -/
theorem findSome?_configAt?_iff {s : Snapshot} {top file : Place} {cs : List Component} :
    (cs.inits.reverse.findSome? fun front => s.configAt? (top ++ names front)) = some file ↔
      s.IsNearestConfig top (top ++ names cs) file := by
  induction cs using List.reverseRecOn with
  | nil =>
      rw [show names [] = [] from rfl, List.append_nil, isNearestConfig_self]
      simp [names]
  | append_singleton cs c ih =>
      rw [Path.reverse_inits_concat, List.findSome?_cons]
      have hnames := Path.names_concat cs c
      cases hname : c.name? with
      | some name =>
          rw [hname, Option.toList_some] at hnames
          rw [hnames, ← List.append_assoc, isNearestConfig_concat (List.prefix_append _ _), ← ih]
          cases s.configAt? (top ++ names cs ++ [name]) <;> simp
      | none =>
          -- The component leads nowhere else, so the same directory is looked at again.
          rw [hname, Option.toList_none, List.append_nil] at hnames
          rw [hnames, ← ih]
          cases hhere : s.configAt? (top ++ names cs) with
          | none => rfl
          | some found =>
              have hagain : (cs.inits.reverse.findSome? fun front =>
                  s.configAt? (top ++ names front)) = some found := by
                cases cs using List.reverseRecOn with
                | nil => simpa using hhere
                | append_singleton cs c =>
                    rw [Path.reverse_inits_concat, List.findSome?_cons, hhere]
              rw [hagain]

/-- A path that never goes up leads to the place that its names spell. If there is no directory in
that place, then there is no configuration file in it either, so nothing is lost by looking
there. -/
theorem Consistent.bind_directoryFrom {s : Snapshot} (hs : s.Consistent) {cs : List Component}
    (hup : Component.parent ∉ cs) (place : Place) :
    (s.directoryFrom place cs).bind s.configAt? = s.configAt? (place ++ names cs) := by
  rw [hs.directoryFrom_eq hup]
  split
  · rfl
  · rename_i hdirectory
    rw [configAt?_eq_none (Bool.eq_false_iff.2 hdirectory), Option.bind_none]

/-! ### The search -/

/-- The configuration file that is taken from a directory is the one in the place that the directory
leads to. The left side looks for paths, the right side for places. -/
theorem map_locate_find? (s : Snapshot) (directory : String) :
    ((configNames.map (Path.join directory)).find? s.isFile).map
        (fun path => (s.locate path).toOption) =
      ((s.directoryFrom (s.origin directory) (components directory)).bind s.configAt?).map
        some := by
  have hlocate : ∀ name ∈ configNames, (s.locate (Path.join directory name)).toOption =
      (s.directoryFrom (s.origin directory) (components directory)).map (· ++ [name]) := by
    intro name hname
    have hnames : ∀ name ∈ configNames, Path.IsName name := by decide
    exact s.toOption_locate_join (hnames name hname) directory
  have hplain := hlocate "treelint.toml" (by decide)
  have hhidden := hlocate ".treelint.toml" (by decide)
  simp only [configNames, List.map_cons, List.map_nil, List.find?_cons, List.find?_nil, isFile_eq]
  cases hdirectory : s.directoryFrom (s.origin directory) (components directory) with
  -- The path leads to no directory, so neither name is found in it.
  | none =>
      rw [hdirectory] at hplain hhidden
      rw [hplain, hhidden]
      rfl
  | some place =>
      rw [hdirectory, Option.map_some] at hplain hhidden
      simp only [hplain, hhidden, Option.any_some, Option.bind_some, configAt?]
      cases s.isFileAt (place ++ ["treelint.toml"]) with
      | true => simp [hplain]
      | false => cases s.isFileAt (place ++ [".treelint.toml"]) <;> simp [hhidden]

end Snapshot

namespace Environment

/-- The first configuration file in the directories that the front parts of the target lead to, the
longest part first. -/
def frontConfig? (env : Environment) (target : String) : Option Place :=
  (components (env.searchStart target)).inits.reverse.findSome? fun front =>
    (env.files.directoryFrom (env.files.origin target) front).bind env.files.configAt?

/-- A search depends only on what its function gives for the elements of the list. -/
private theorem findSome?_congr {α β : Type} {l : List α} {f g : α → Option β}
    (h : ∀ a ∈ l, f a = g a) : l.findSome? f = l.findSome? g := by
  rw [← List.head?_filterMap, ← List.head?_filterMap, List.filterMap_congr h]

/-- The search starts from the root or from the working directory, as the target does. The parent of
a path is absolute if the path is. -/
theorem isAbsolute_searchStart (env : Environment) (target : String) :
    Path.isAbsolute (env.searchStart target) = Path.isAbsolute target := by
  rw [searchStart]
  split
  · cases hparent : Path.parent? target with
    | none => rfl
    | some parent => exact Path.isAbsolute_parent? hparent
  · rfl

/-- The search through the ancestors of the target finds the path of the file that `frontConfig?`
finds. Ancestors are texts and front parts are lists of components; both come in the same order,
except that the text of a root has a component of its own. -/
theorem map_locate_projectConfig? (env : Environment) (target : String) :
    (env.projectConfig? target).map (fun path => (env.files.locate path).toOption) =
      (env.frontConfig? target).map some := by
  have hroot : ∀ place,
      env.files.directoryFrom place [.root] = env.files.directoryFrom place [] := by
    intro place
    exact env.files.directoryFrom_front_append place "/" []
  rw [projectConfig?, frontConfig?, ← Path.findSome?_ancestors (by rw [hroot]), List.map_findSome?,
    List.map_findSome?]
  apply findSome?_congr
  intro directory hdirectory
  -- An ancestor of the target starts where the target starts, at the root or in the working
  -- directory.
  have horigin : env.files.origin directory = env.files.origin target := by
    rw [Snapshot.origin, Snapshot.origin, Path.isAbsolute_of_mem_ancestorsUpTo hdirectory,
      isAbsolute_searchStart]
  rw [Function.comp_apply, env.files.map_locate_find?, horigin]
  rfl

/-- A file is not searched itself, and nothing is missed by that: the search starts at its parent,
and there is no configuration file inside a file. -/
theorem isNearestConfig_searchStart {env : Environment} (hfiles : env.files.Consistent)
    {target : String} (hup : Component.parent ∉ components target) {file : Place} :
    env.files.IsNearestConfig (env.files.origin target)
        (env.files.origin target ++ names (components (env.searchStart target))) file ↔
      env.files.IsNearestConfig (env.files.origin target)
        (env.files.origin target ++ names (components target)) file := by
  rw [searchStart]
  split
  · rename_i hfile
    cases hparent : Path.parent? target with
    | none => rfl
    | some parent =>
        obtain ⟨c, hc⟩ := Path.components_eq_concat hparent
        have hplace := Snapshot.isFileAt_of_isFile hup hfile
        rw [Option.getD_some, hc, Path.names_concat]
        -- A last piece without a name, such as a dot, does not lead anywhere else.
        cases hname : c.name? with
        | none => rw [Option.toList_none, List.append_nil]
        | some name =>
            rw [hc, Path.names_concat, hname, Option.toList_some, ← List.append_assoc] at hplace
            rw [Option.toList_some, ← List.append_assoc,
              hfiles.isNearestConfig_concat_file (List.prefix_append _ _) hplace]
  · rfl

/-- The search starts at the target or at its parent, so its components are the first ones of the
target. -/
theorem isPrefix_components_searchStart (env : Environment) (target : String) :
    components (env.searchStart target) <+: components target := by
  rw [searchStart]
  split
  · cases hparent : Path.parent? target with
    | none => exact List.prefix_refl _
    | some parent =>
        obtain ⟨c, hc⟩ := Path.components_eq_concat hparent
        rw [Option.getD_some, hc]
        exact List.prefix_append _ _
  · exact List.prefix_refl _

/-- A path that never goes up finds the nearest configuration file between its start and the checked
directory. Each of its front parts leads to a directory that holds the next one, so that the front
parts are all directories in between. -/
theorem frontConfig?_eq_some_iff {env : Environment} (hfiles : env.files.Consistent)
    {target : String} (hup : Component.parent ∉ components target) {file : Place} :
    env.frontConfig? target = some file ↔
      env.files.IsNearestConfig (env.files.origin target)
        (env.files.checkedDirectory (env.files.origin target ++ names (components target)))
        file := by
  -- Behind front parts that never go up, looking for a directory is looking at the place itself.
  have hlook : ∀ front ∈ (components (env.searchStart target)).inits.reverse,
      (env.files.directoryFrom (env.files.origin target) front).bind env.files.configAt? =
        env.files.configAt? (env.files.origin target ++ names front) := by
    intro front hfront
    have hinit := (List.mem_inits _ _).1 (List.mem_reverse.1 hfront)
    have hstart := hinit.trans (env.isPrefix_components_searchStart target)
    exact hfiles.bind_directoryFrom (fun hmem => hup (hstart.subset hmem)) _
  rw [frontConfig?, findSome?_congr hlook, Snapshot.findSome?_configAt?_iff,
    isNearestConfig_searchStart hfiles hup,
    hfiles.isNearestConfig_checkedDirectory (env.files.isDirectoryAt_origin target)]

/-- A path on the command line is taken as it is. Otherwise the file that `frontConfig?` finds comes
first, and the global one is asked for only if there is none. What `frontConfig?` finds for a path
that never goes up is the nearest configuration file between the start of the path and the checked
directory. -/
theorem config_lookup_finds_nearest (env : Environment) (target : String) :
    (∀ given, env.configFile? target (some given) = some given) ∧
    (∀ file, env.frontConfig? target = some file →
      ∃ path, env.configFile? target none = some path ∧ env.files.locate path = .ok file) ∧
    (env.frontConfig? target = none →
      env.configFile? target none =
        (env.globalDirectory?.map (Path.join · "config.toml")).filter env.files.isFile) ∧
    (env.files.Consistent → Component.parent ∉ components target →
      ∀ file, env.frontConfig? target = some file ↔
        env.files.IsNearestConfig (env.files.origin target)
          (env.files.checkedDirectory (env.files.origin target ++ names (components target)))
          file) := by
  have hproject := env.map_locate_projectConfig? target
  refine ⟨fun given => rfl, ?_, ?_, fun hfiles hup file => frontConfig?_eq_some_iff hfiles hup⟩
  · intro file hfound
    rw [hfound, Option.map_some, Option.map_eq_some_iff] at hproject
    obtain ⟨path, hpath, hlocate⟩ := hproject
    refine ⟨path, by rw [configFile?, hpath]; rfl, ?_⟩
    -- The file was found by its path, so the path leads somewhere, and that is the place.
    cases hplace : env.files.locate path with
    | error e =>
        rw [hplace] at hlocate
        cases hlocate
    | ok place =>
        rw [hplace] at hlocate
        rw [Option.some.inj hlocate]
  · intro hnone
    rw [hnone, Option.map_none, Option.map_eq_none_iff] at hproject
    rw [configFile?, hproject]
    rfl

/-- A file in a directory without a configuration file gets the hidden one of the directory above,
and not the plain one further out. -/
theorem config_lookup_finds_nearest_hidden :
    let env : Environment := { files := {
      workingDirectory := ["w"]
      files := [(["p", "treelint.toml"], some ""), (["p", "q", ".treelint.toml"], some ""),
        (["p", "q", "r", "a.rs"], some "")] } }
    env.files.Consistent ∧ Component.parent ∉ components "/p/q/r/a.rs" ∧
      ∃ path, env.configFile? "/p/q/r/a.rs" none = some path ∧
        env.files.locate path = .ok ["p", "q", ".treelint.toml"] := by
  intro env
  have hfiles : env.files.Consistent := by decide +kernel
  have hup : Component.parent ∉ components "/p/q/r/a.rs" := by decide +kernel
  obtain ⟨-, hfound, -, hnearest⟩ := env.config_lookup_finds_nearest "/p/q/r/a.rs"
  refine ⟨hfiles, hup, hfound _ ((hnearest hfiles hup _).2 ?_)⟩
  decide +kernel

/-- A path that goes up again finds the file of a directory that it has left. A relative path does
not find the file next to the working directory, which the same directory gets by its path from the
root. -/
theorem config_found_outside_ancestors :
    let inside : Environment := { files := {
      workingDirectory := ["w"]
      files := [(["w", "sub", "treelint.toml"], some ""), (["w", "a.rs"], some "")] } }
    let outside : Environment := { files := {
      workingDirectory := ["p", "w"]
      files := [(["p", "treelint.toml"], some ""), (["p", "w", "a.rs"], some "")] } }
    (inside.files.locate "sub/.." = .ok ["w"] ∧
      (∀ directory ∈ ["w"].inits, inside.files.configAt? directory = none) ∧
      inside.configFile? "sub/.." none = some "sub/treelint.toml") ∧
    outside.files.locate "." = .ok ["p", "w"] ∧
      outside.files.IsNearestConfig [] ["p", "w"] ["p", "treelint.toml"] ∧
      outside.configFile? "." none = none ∧
      outside.configFile? "/p/w" none = some "/p/treelint.toml" := by
  refine ⟨⟨rfl, ?_, ?_⟩, rfl, ?_, ?_, ?_⟩ <;> decide +kernel

end Environment

end Arborist
