import Arborist.FileSystem
import Arborist.Proofs.Path.Components

/-!
# `Arborist.Proofs.FileSystem`: where the components of a path lead

`Snapshot.follow` walks the pieces of a path. `Snapshot.directoryFrom` says the same about
components: each of them starts at a directory, a name goes down, two dots go up, and the end has to
be a directory too. `toOption_locate_join` joins the two: a name below a directory is looked up in
the place that the components of the directory lead to.

Files and directories of a snapshot are two lists, so a snapshot can name one place twice.
`Snapshot.Consistent` excludes this. Then a path that never goes up leads to the place that its
names spell, and `directoryFrom_eq` says when there is a directory.
-/

set_option autoImplicit false

namespace Arborist

namespace Path

/-- The name of a component, if it is a name. -/
def Component.name? : Component → Option String
  | .normal name => some name
  | _ => none

/-- The names among components. -/
def names (cs : List Component) : List String := cs.filterMap Component.name?

/-- A last component adds its name to the names, if it has one. -/
theorem names_concat (cs : List Component) (c : Component) :
    names (cs ++ [c]) = names cs ++ c.name?.toList := by
  rw [names, names, List.filterMap_append]
  cases hname : c.name? <;> simp [hname]

/-- The front of a path has no name, so the names of a path are those of its pieces. -/
theorem names_components (path : String) :
    names (components path) = names ((pieces path).filterMap Component.ofPiece?) := by
  rw [components, names, List.filterMap_append, front]
  split
  · rfl
  · split <;> rfl

/-- A text that stands for itself in a path: it has no slash, and it is not empty, a dot or two
dots. -/
def IsName (name : String) : Prop :=
  pieces name = [name.toList] ∧ Component.ofPiece? name.toList = some (.normal name)

instance (name : String) : Decidable (IsName name) :=
  inferInstanceAs (Decidable (_ ∧ _))

/-- Whether a path is absolute is decided by its first character, which stays when something is
added at the end. -/
theorem isAbsolute_append {base : String} (h : base ≠ "") (path : String) :
    isAbsolute (base ++ path) = isAbsolute base := by
  have hne : base.toList ≠ [] := by simpa using h
  rw [isAbsolute, isAbsolute, String.toList_append, List.head?_append_of_ne_nil _ hne]

/-- A name below a directory is the last piece, and the pieces before it stand for the components of
the directory. Whether the directory is written with a slash at its end makes no difference for
that. -/
theorem pieces_join {name : String} (hname : IsName name) (directory : String) :
    isAbsolute (join directory name) = isAbsolute directory ∧
      ∃ ps, pieces (join directory name) = ps ++ [name.toList] ∧
        ps.filterMap Component.ofPiece? = (pieces directory).filterMap Component.ofPiece? := by
  have hrelative : isAbsolute name = false := by
    rw [Bool.eq_false_iff, Ne, isAbsolute_iff, hname.1]
    simp
  rw [join, hrelative, Bool.false_or]
  split
  · rename_i hempty
    obtain rfl : directory = "" := by simpa using hempty
    exact ⟨hrelative, [], hname.1, by decide⟩
  · rename_i hempty
    have hne : directory ≠ "" := by simpa using hempty
    split
    · rename_i hslash
      -- The slash at the end is the one that stands in front of the name.
      obtain ⟨front, hfront⟩ := List.getLast?_eq_some_iff.1 hslash
      have hdirectory : directory = String.ofList front ++ "/" := by
        rw [← String.ofList_toList (s := directory), hfront, String.ofList_append]
      have hpieces := pieces_append (String.ofList front) ""
      rw [String.append_empty, ← hdirectory] at hpieces
      refine ⟨isAbsolute_append hne name, pieces (String.ofList front), ?_, ?_⟩
      · rw [hdirectory, pieces_append, hname.1]
      · rw [hpieces, List.filterMap_append]
        exact (List.append_nil _).symm
    · refine ⟨?_, pieces directory, ?_, rfl⟩
      · rw [String.append_assoc, isAbsolute_append hne]
      · rw [pieces_append, hname.1]

end Path

namespace Snapshot

open Arborist.Path (Component names)

/-- A file stands at the place. -/
def isFileAt (s : Snapshot) (place : Place) : Bool :=
  match s.entryAt? place with
  | some (.file _) => true
  | _ => false

/-- Where the walk along a path starts. -/
def origin (s : Snapshot) (path : String) : Place :=
  if Path.isAbsolute path then [] else s.workingDirectory

/-- The place behind one component. -/
def placeAfter (place : Place) : Component → Place
  | .normal name => place ++ [name]
  | .parent => place.dropLast
  | .root | .current => place

/-- The directory that components lead to; all places on the way are directories, too. -/
def directoryFrom (s : Snapshot) (place : Place) : List Component → Option Place
  | [] => if s.entryAt? place = some .directory then some place else none
  | c :: cs =>
    if s.entryAt? place = some .directory then s.directoryFrom (placeAfter place c) cs else none

/-! ### Walking a path -/

/-- A path is that of a file if it leads to a place and a file stands there. An error on the way
counts as no file. -/
theorem isFile_eq (s : Snapshot) (path : String) :
    s.isFile path = (s.locate path).toOption.any s.isFileAt := by
  rw [isFile, entry]
  cases s.locate path with
  | error e => rfl
  | ok place =>
      simp only [bind, Except.bind, Except.toOption, Option.any_some, isFileAt]
      rcases s.entryAt? place with _ | _ | _ <;> rfl

/-- One step of the walk: it needs a directory, and an idle piece stays there. Why a step fails is
left out of account. -/
theorem toOption_follow_cons (s : Snapshot) (place : Place) (piece : List Char)
    (rest : List (List Char)) :
    (s.follow place (piece :: rest)).toOption =
      if s.entryAt? place = some .directory then
        (s.follow ((Component.ofPiece? piece).elim place (placeAfter place)) rest).toOption
      else none := by
  rw [follow]
  cases hentry : s.entryAt? place with
  | none => rfl
  | some found =>
      cases found with
      | file text => rfl
      -- The idle pieces, two dots, and a name.
      | directory =>
          rw [if_pos rfl, Component.ofPiece?]
          simp only [Path.isIdle, decide_eq_true_eq]
          split
          · rfl
          · split <;> rfl

/-- Components lead nowhere from a place that is no directory, not even if there are none of
them. -/
theorem directoryFrom_of_ne {s : Snapshot} {place : Place}
    (h : s.entryAt? place ≠ some .directory) (cs : List Component) :
    s.directoryFrom place cs = none := by
  cases cs with
  | nil => rw [directoryFrom, if_neg h]
  | cons c cs => rw [directoryFrom, if_neg h]

/-- The front of a path does not move: it is the root or the current directory, and the walk starts
there anyway. -/
theorem directoryFrom_front_append (s : Snapshot) (place : Place) (path : String)
    (cs : List Component) :
    s.directoryFrom place (Path.front path ++ cs) = s.directoryFrom place cs := by
  -- A component that stays in its place can be left out, even where no directory stands.
  have hstay : ∀ c, placeAfter place c = place →
      s.directoryFrom place (c :: cs) = s.directoryFrom place cs := by
    intro c hc
    rw [directoryFrom, hc]
    split
    · rfl
    · rename_i hentry
      rw [directoryFrom_of_ne hentry]
  rw [Path.front]
  split
  · exact hstay .root rfl
  · split
    · exact hstay .current rfl
    · rfl

/-- The walk to a name goes to the directory that the components before it lead to. The name itself
is not looked up, so nothing need stand there. The induction is over the pieces before the name. -/
theorem toOption_follow_append_name (s : Snapshot) {name : String} (hname : Path.IsName name)
    (place : Place) (ps : List (List Char)) :
    (s.follow place (ps ++ [name.toList])).toOption =
      (s.directoryFrom place (ps.filterMap Component.ofPiece?)).map (· ++ [name]) := by
  induction ps generalizing place with
  | nil =>
      rw [List.nil_append, toOption_follow_cons, hname.2, List.filterMap_nil, directoryFrom]
      split <;> rfl
  | cons piece ps ih =>
      rw [List.cons_append, toOption_follow_cons, ih]
      cases hpiece : Component.ofPiece? piece with
      -- An idle piece: the walk still asks for a directory, and so do the components behind it.
      | none =>
          rw [List.filterMap_cons_none hpiece, Option.elim_none]
          split
          · rfl
          · rename_i hentry
            rw [directoryFrom_of_ne hentry, Option.map_none]
      | some c =>
          rw [List.filterMap_cons_some hpiece, directoryFrom, Option.elim_some]
          split <;> rfl

/-- A name below a directory stands in the place that the directory leads to. The empty path is the
one that leads nowhere, and a path that ends in a name is not empty. -/
theorem toOption_locate_join (s : Snapshot) {name : String} (hname : Path.IsName name)
    (directory : String) :
    (s.locate (Path.join directory name)).toOption =
      (s.directoryFrom (s.origin directory) (Path.components directory)).map (· ++ [name]) := by
  obtain ⟨habsolute, ps, hpieces, hcomponents⟩ := Path.pieces_join hname directory
  -- An empty path would have an empty last piece, which is no name.
  have hne : (Path.join directory name).isEmpty = false := by
    rw [Bool.eq_false_iff]
    intro hempty
    have hjoin : Path.join directory name = "" := by simpa using hempty
    rw [hjoin] at hpieces
    have hlast := congrArg List.getLast? hpieces
    rw [List.getLast?_concat] at hlast
    have hnil : name.toList = [] := (Option.some.inj hlast).symm
    have hsome := hname.2
    rw [hnil] at hsome
    cases hsome
  rw [locate, hne, habsolute, hpieces, Path.components, directoryFrom_front_append, ← hcomponents]
  exact toOption_follow_append_name s hname _ ps

/-- A path that never goes up leads to the place that its names spell, if it leads anywhere. Idle
pieces make no difference to it. -/
theorem eq_of_toOption_follow {s : Snapshot} {place found : Place} {ps : List (List Char)}
    (hup : Component.parent ∉ ps.filterMap Component.ofPiece?)
    (h : (s.follow place ps).toOption = some found) :
    found = place ++ names (ps.filterMap Component.ofPiece?) := by
  induction ps generalizing place with
  | nil =>
      obtain rfl : place = found := Option.some.inj h
      exact (List.append_nil _).symm
  | cons piece ps ih =>
      rw [toOption_follow_cons] at h
      split at h
      · cases hpiece : Component.ofPiece? piece with
        | none =>
            rw [hpiece] at h
            rw [List.filterMap_cons_none hpiece] at hup ⊢
            exact ih hup h
        | some c =>
            rw [hpiece] at h
            rw [List.filterMap_cons_some hpiece] at hup ⊢
            rw [ih (List.not_mem_of_not_mem_cons hup) h]
            -- The root and the current directory are no names, and going up is ruled out.
            cases c with
            | root => rfl
            | current => rfl
            | parent => exact absurd List.mem_cons_self hup
            | normal name => exact List.append_assoc _ _ _
      · cases h

/-- The file that a path leads to stands at the place that the names of the path spell, provided
that the path never goes up. -/
theorem isFileAt_of_isFile {s : Snapshot} {path : String}
    (hup : Component.parent ∉ Path.components path) (h : s.isFile path = true) :
    s.isFileAt (s.origin path ++ names (Path.components path)) = true := by
  rw [isFile_eq, Option.any_eq_true_iff_get] at h
  obtain ⟨hsome, hfile⟩ := h
  obtain ⟨found, hfound⟩ := Option.isSome_iff_exists.1 hsome
  rw [Option.get_of_eq_some hsome hfound] at hfile
  rw [locate] at hfound
  split at hfound
  · cases hfound
  · have hnames := eq_of_toOption_follow
      (fun hmem => hup (List.mem_append_right _ hmem)) hfound
    rw [Path.names_components]
    exact hnames ▸ hfile

/-! ### Consistent snapshots -/

/-- No place is both a file and a directory. -/
def Consistent (s : Snapshot) : Prop := ∀ file ∈ s.files, s.isDirectoryAt file.1 = false

instance (s : Snapshot) : Decidable s.Consistent :=
  inferInstanceAs (Decidable (∀ file ∈ s.files, _))

/-- What holds a directory is a directory. A place is a directory for one of four reasons, and each
of them passes on to the places around it. -/
theorem isDirectoryAt_mono {s : Snapshot} {outer inner : Place} (hle : outer <+: inner)
    (h : s.isDirectoryAt inner = true) : s.isDirectoryAt outer = true := by
  simp only [isDirectoryAt, Bool.or_eq_true, List.any_eq_true, Bool.and_eq_true, decide_eq_true_eq,
    List.isPrefixOf_iff_prefix, List.isEmpty_iff] at h ⊢
  rcases h with ((hnil | hworking) | ⟨known, hknown, hinner⟩) | ⟨file, hfile, hlength, hinner⟩
  · rw [hnil] at hle
    exact .inl (.inl (.inl (List.prefix_nil.1 hle)))
  · exact .inl (.inl (.inr (hle.trans hworking)))
  · exact .inl (.inr ⟨known, hknown, hle.trans hinner⟩)
  · exact .inr ⟨file, hfile, Nat.lt_of_le_of_lt hle.length_le hlength, hle.trans hinner⟩

/-- A file stands only at the places that the snapshot lists. Everywhere else there is a directory
or nothing. -/
theorem exists_mem_files {s : Snapshot} {place : Place} (h : s.isFileAt place = true) :
    ∃ file ∈ s.files, file.1 = place := by
  rw [isFileAt, entryAt?] at h
  split at h
  · rename_i hentry
    split at hentry
    · rename_i hfind
      exact ⟨_, List.mem_of_find?_eq_some hfind, by simpa using List.find?_some hfind⟩
    · split at hentry <;> cases hentry
  · cases h

/-- A file stands in a directory: the places around a listed file count as directories. -/
theorem isDirectoryAt_of_isFileAt {s : Snapshot} {place : Place} {name : String}
    (h : s.isFileAt (place ++ [name]) = true) : s.isDirectoryAt place = true := by
  obtain ⟨file, hfile, hplace⟩ := exists_mem_files h
  simp only [isDirectoryAt, Bool.or_eq_true, List.any_eq_true]
  refine .inr ⟨file, hfile, ?_⟩
  rw [hplace]
  simp

/-- The walk along a path starts at a directory, the root or the working directory. -/
theorem isDirectoryAt_origin (s : Snapshot) (path : String) :
    s.isDirectoryAt (s.origin path) = true := by
  rw [origin]
  split <;> simp [isDirectoryAt]

/-- In a consistent snapshot a file is no directory. -/
theorem Consistent.isDirectoryAt_eq_false {s : Snapshot} (hs : s.Consistent) {place : Place}
    (h : s.isFileAt place = true) : s.isDirectoryAt place = false := by
  obtain ⟨file, hfile, rfl⟩ := exists_mem_files h
  exact hs file hfile

/-- In a consistent snapshot a directory is found wherever there is one. Without consistency, a file
at the same place would be found in its stead. -/
theorem Consistent.entryAt?_eq_directory_iff {s : Snapshot} (hs : s.Consistent) {place : Place} :
    s.entryAt? place = some .directory ↔ s.isDirectoryAt place = true := by
  rw [entryAt?]
  split
  · rename_i file _ hfind
    have hplace : file = place := by simpa using List.find?_some hfind
    have hfalse := hs _ (List.mem_of_find?_eq_some hfind)
    rw [hplace] at hfalse
    simp [hfalse]
  · simp

/-- Components that never go up lead to a directory exactly if there is one at the place that their
names spell. All places on the way are directories as well then. -/
theorem Consistent.directoryFrom_eq {s : Snapshot} (hs : s.Consistent) {cs : List Component}
    (hup : Component.parent ∉ cs) (place : Place) :
    s.directoryFrom place cs =
      if s.isDirectoryAt (place ++ names cs) then some (place ++ names cs) else none := by
  induction cs generalizing place with
  | nil => simp [directoryFrom, names, hs.entryAt?_eq_directory_iff]
  | cons c cs ih =>
      have hafter : placeAfter place c ++ names cs = place ++ names (c :: cs) := by
        cases c with
        | root => rfl
        | current => rfl
        | parent => exact absurd List.mem_cons_self hup
        | normal name => exact List.append_assoc _ _ _
      rw [directoryFrom, ih (List.not_mem_of_not_mem_cons hup), hafter]
      split
      · rfl
      · rename_i hplace
        -- Without a directory on the way there is none at the end.
        rw [hs.entryAt?_eq_directory_iff] at hplace
        rw [if_neg (mt (isDirectoryAt_mono (List.prefix_append _ _)) hplace)]

end Snapshot

end Arborist
