import Arborist.Path
import Arborist.Proofs.Text.Lines
import Mathlib.Data.List.Infix

/-!
# `Arborist.Proofs.Path.Components`: cutting paths by their texts

The functions on paths cut and join texts: they take pieces between slashes away and put slashes
between the rest again. What they mean is said by components. `components_relativeTo?` says that a
path below a base has the components behind those of the base, `components_parent?` that a parent
has all components but the last, and `map_components_ancestors` that the ancestors of a path have
the front parts of its components.

A piece that stands for no component is idle. Between the text and the components there are the
pieces, idle ones included: `componentsOf` reads them, and `components_ofPieces` says that it does
not matter whether pieces are read at once or put into a text first.
-/

set_option autoImplicit false

namespace Arborist.Path

/-! ### Pieces -/

/-- A slash between two texts parts their pieces. -/
theorem pieces_append (first second : String) :
    pieces (first ++ "/" ++ second) = pieces first ++ pieces second := by
  simp only [pieces, Text.splitAll_eq_splitOn, String.toList_append, List.append_assoc]
  exact List.splitOn_append_cons_self _ _

/-- Every text has a piece, if only an empty one. -/
theorem pieces_ne_nil (path : String) : pieces path ≠ [] := by
  rw [pieces, Text.splitAll_eq_splitOn]
  exact List.splitOn_ne_nil _ _

/-- What is between slashes has no slash. The induction follows the text: a character goes to the
piece behind it, a slash starts a new piece. -/
theorem slash_not_mem_of_mem_splitAll {cs piece : List Char} (h : piece ∈ Text.splitAll '/' cs) :
    '/' ∉ piece := by
  induction cs generalizing piece with
  | nil =>
      obtain rfl := List.mem_singleton.1 h
      exact List.not_mem_nil
  | cons c cs ih =>
      rw [Text.splitAll] at h
      split at h
      · rcases List.mem_cons.1 h with rfl | h
        · exact List.not_mem_nil
        · exact ih h
      · -- The character is put in front of the first piece of the rest, or is a piece by itself.
        rename_i hc
        cases hsplit : Text.splitAll '/' cs with
        | nil =>
            rw [hsplit] at h
            obtain rfl := List.mem_singleton.1 h
            simpa using Ne.symm hc
        | cons next rest =>
            rw [hsplit] at h ih
            rcases List.mem_cons.1 h with rfl | h
            · have hnext : '/' ∉ next := ih (by simp)
              simpa [hnext] using Ne.symm hc
            · exact ih (by simp [h])

/-- Pieces are found again in the text that they make up; no pieces make up the empty text, which
has one. -/
theorem pieces_ofPieces {ps : List (List Char)} (hslash : ∀ p ∈ ps, '/' ∉ p) :
    pieces (ofPieces ps) = if ps = [] then [[]] else ps := by
  rw [pieces, Text.splitAll_eq_splitOn, ofPieces, String.toList_intercalate, List.map_map]
  have hmap : ps.map (String.toList ∘ String.ofList) = ps := by simp
  rw [hmap]
  split
  · rename_i hnil
    rw [hnil]
    rfl
  · rename_i hne
    exact List.splitOn_intercalate '/' hslash hne

/-- A piece among others stands in the joined text behind a slash or at the start, and before a
slash or at the end. -/
theorem exists_intercalate_eq (before : List (List Char)) (piece : List Char)
    (after : List (List Char)) :
    ∃ lead back, ['/'].intercalate (before ++ piece :: after) = lead ++ (piece ++ back) ∧
      (lead = [] ∨ ∃ names, lead = names ++ ['/']) ∧ (back = [] ∨ ∃ rest, back = '/' :: rest) := by
  induction before with
  | nil =>
      cases after with
      | nil => exact ⟨[], [], by simp, .inl rfl, .inl rfl⟩
      | cons next after =>
          refine ⟨[], '/' :: ['/'].intercalate (next :: after), ?_, .inl rfl, .inr ⟨_, rfl⟩⟩
          rw [List.nil_append, List.intercalate_cons_cons]
          simp
  | cons first before ih =>
      obtain ⟨lead, back, heq, hlead, hback⟩ := ih
      refine ⟨first ++ '/' :: lead, back, ?_, .inr ?_, hback⟩
      · -- Something follows `first`, be it `piece`, so a slash stands behind it.
        obtain ⟨next, rest, hrest⟩ := List.exists_cons_of_ne_nil
          (List.append_ne_nil_of_right_ne_nil before (List.cons_ne_nil piece after))
        rw [List.cons_append, hrest, List.intercalate_cons_cons, ← hrest, heq]
        simp
      · rcases hlead with rfl | ⟨names, rfl⟩
        · exact ⟨first, rfl⟩
        · exact ⟨first ++ '/' :: names, by simp⟩

/-- A piece stands between slashes or the ends of the text, and has no slash itself. It may be
empty, as between two slashes in a row. -/
theorem mem_pieces_iff {path : String} {piece : List Char} :
    piece ∈ pieces path ↔ '/' ∉ piece ∧ ∃ lead back, path.toList = lead ++ (piece ++ back) ∧
      (lead = [] ∨ ∃ names, lead = names ++ ['/']) ∧ (back = [] ∨ ∃ rest, back = '/' :: rest) := by
  constructor
  · intro hmem
    refine ⟨slash_not_mem_of_mem_splitAll hmem, ?_⟩
    obtain ⟨before, after, hsplit⟩ := List.mem_iff_append.1 hmem
    have hpath : ['/'].intercalate (before ++ piece :: after) = path.toList := by
      rw [← hsplit, pieces, Text.splitAll_eq_splitOn, List.intercalate_splitOn]
    rw [← hpath]
    exact exists_intercalate_eq before piece after
  · rintro ⟨hslash, lead, back, hpath, hlead, hback⟩
    rw [pieces, Text.splitAll_eq_splitOn, hpath]
    -- The text is split at the slash before the piece, and what is behind it begins with the piece.
    have hpiece : piece ∈ (piece ++ back).splitOn '/' := by
      rcases hback with rfl | ⟨rest, rfl⟩
      · simp [List.splitOn_eq_singleton hslash]
      · simp [List.splitOn_append_cons_self, List.splitOn_eq_singleton hslash]
    rcases hlead with rfl | ⟨names, rfl⟩
    · exact hpiece
    · rw [List.append_assoc, List.singleton_append, List.splitOn_append_cons_self]
      exact List.mem_append_right _ hpiece

/-- What stands behind the last slash is the last piece. Without any slash, the whole text is the
only piece. -/
theorem getLast?_pieces {path : String} {lead piece : List Char} (hslash : '/' ∉ piece)
    (htext : path.toList = lead ++ piece) (hlead : lead = [] ∨ ∃ names, lead = names ++ ['/']) :
    (pieces path).getLast? = some piece := by
  rw [pieces, Text.splitAll_eq_splitOn, htext]
  rcases hlead with rfl | ⟨names, rfl⟩
  · rw [List.nil_append, List.splitOn_eq_singleton hslash]
    rfl
  · rw [List.append_assoc, List.singleton_append, List.splitOn_append_cons_self,
      List.splitOn_eq_singleton hslash, List.getLast?_concat]

/-! ### Components of pieces -/

/-- The component that only the front of a path can have, from the pieces of the path. -/
def frontOf : List (List Char) → List Component
  | [] :: _ :: _ => [.root]
  | ['.'] :: _ => [.current]
  | _ => []

/-- The components that pieces stand for. -/
def componentsOf (ps : List (List Char)) : List Component :=
  frontOf ps ++ ps.filterMap Component.ofPiece?

/-- An idle piece is one without a component. -/
theorem isIdle_iff {piece : List Char} : isIdle piece = true ↔ Component.ofPiece? piece = none := by
  rw [isIdle, decide_eq_true_iff, Component.ofPiece?]
  split
  · simp_all
  · split <;> simp_all

/-- A path starts with a slash if its first piece is empty and not the only one. The empty text has
one piece, which is empty, and does not start with a slash. -/
theorem isAbsolute_iff {path : String} :
    isAbsolute path = true ↔ ∃ piece rest, pieces path = [] :: piece :: rest := by
  rw [isAbsolute, pieces]
  cases path.toList with
  | nil => simp [Text.splitAll]
  | cons c cs =>
      by_cases hc : c = '/'
      · subst hc
        -- Something is behind the slash, be it an empty piece.
        have hne : Text.splitAll '/' cs ≠ [] := by
          rw [Text.splitAll_eq_splitOn]
          exact List.splitOn_ne_nil _ _
        obtain ⟨piece, rest, hsplit⟩ := List.exists_cons_of_ne_nil hne
        simp [Text.splitAll, hsplit]
      · cases hsplit : Text.splitAll '/' cs <;> simp [Text.splitAll, hc, hsplit]

/-- If pieces have no component at the front, then neither has a front part of them: the root and a
leading dot are seen in the first two pieces. -/
theorem frontOf_of_prefix {qs ps : List (List Char)} (h : qs <+: ps) (hps : frontOf ps = []) :
    frontOf qs = [] := by
  obtain ⟨rest, rfl⟩ := h
  rw [frontOf.eq_def]
  split
  · cases hps
  · cases hps
  · rfl

/-- The front of a path can be read off its pieces. So pieces that are equal make paths with equal
components. -/
theorem front_eq (path : String) : front path = frontOf (pieces path) := by
  rw [front]
  split
  · rename_i habsolute
    obtain ⟨piece, rest, hpieces⟩ := isAbsolute_iff.1 habsolute
    rw [hpieces, frontOf]
  · rename_i hrelative
    split
    · rename_i hdot
      obtain ⟨rest, hpieces⟩ := List.head?_eq_some_iff.1 hdot
      rw [hpieces, frontOf]
    · rename_i hdot
      rw [isAbsolute_iff] at hrelative
      -- Neither of the two special forms applies, and `frontOf` asks for the same two.
      rw [frontOf.eq_def]
      split
      · rename_i piece rest hpieces
        exact absurd ⟨piece, rest, hpieces⟩ hrelative
      · rename_i rest hpieces
        exact absurd (by rw [hpieces, List.head?_cons]) hdot
      · rfl

/-- So can all of its components. -/
theorem components_eq (path : String) : components path = componentsOf (pieces path) := by
  rw [components, front_eq, componentsOf]

/-- Pieces put into a text and read again have the same components. Only the case of no pieces needs
a look, since the empty text has one, which is idle. -/
theorem components_ofPieces {ps : List (List Char)} (hslash : ∀ p ∈ ps, '/' ∉ p) :
    components (ofPieces ps) = componentsOf ps := by
  rw [components_eq, pieces_ofPieces hslash]
  split
  · rename_i hnil
    rw [hnil]
    rfl
  · rfl

/-- A slash in front of a path makes it start at the root. -/
theorem components_slash_append (path : String) :
    components ("/" ++ path) = .root :: (pieces path).filterMap Component.ofPiece? := by
  obtain ⟨piece, rest, hpieces⟩ := List.exists_cons_of_ne_nil (pieces_ne_nil path)
  have happend := pieces_append "" path
  rw [String.empty_append] at happend
  rw [components_eq, happend, hpieces]
  rfl

/-! ### Idle pieces at the end -/

/-- Idle pieces contribute nothing. -/
theorem filterMap_idle {ps : List (List Char)} (h : ∀ p ∈ ps, isIdle p = true) :
    ps.filterMap Component.ofPiece? = [] :=
  List.filterMap_eq_nil_iff.2 fun p hp => isIdle_iff.1 (h p hp)

/-- What is dropped at the end are idle pieces. -/
theorem eq_dropIdleEnd_append (ps : List (List Char)) :
    ∃ idle, (∀ p ∈ idle, isIdle p = true) ∧ ps = dropIdleEnd ps ++ idle := by
  refine ⟨(ps.reverse.takeWhile isIdle).reverse, ?_, ?_⟩
  · intro p hp
    exact List.all_eq_true.1 List.all_takeWhile p (List.mem_reverse.1 hp)
  · rw [dropIdleEnd, ← List.reverse_append, List.takeWhile_append_dropWhile, List.reverse_reverse]

/-- Therefore dropping them changes no component. -/
theorem filterMap_dropIdleEnd (ps : List (List Char)) :
    (dropIdleEnd ps).filterMap Component.ofPiece? = ps.filterMap Component.ofPiece? := by
  obtain ⟨idle, hidle, hps⟩ := eq_dropIdleEnd_append ps
  have hsplit := congrArg (List.filterMap Component.ofPiece?) hps
  rw [List.filterMap_append, filterMap_idle hidle, List.append_nil] at hsplit
  exact hsplit.symm

/-- The pieces that are kept were there before. -/
theorem mem_of_mem_dropIdleEnd {ps : List (List Char)} {p : List Char} (h : p ∈ dropIdleEnd ps) :
    p ∈ ps := by
  obtain ⟨idle, -, hps⟩ := eq_dropIdleEnd_append ps
  rw [hps]
  exact List.mem_append_left _ h

/-- A piece that is not idle keeps what stands before it, idle pieces included. Only those behind it
are dropped. -/
theorem dropIdleEnd_append_cons {last : List Char} (hlast : isIdle last = false)
    (before : List (List Char)) {idle : List (List Char)} (hidle : ∀ p ∈ idle, isIdle p = true) :
    dropIdleEnd (before ++ last :: idle) = before ++ [last] := by
  have hreverse : ∀ p ∈ idle.reverse, isIdle p = true := fun p hp => hidle p (List.mem_reverse.1 hp)
  rw [dropIdleEnd, List.reverse_append, List.reverse_cons, List.append_assoc,
    List.dropWhile_append_of_pos hreverse, List.singleton_append,
    List.dropWhile_cons_of_neg (by simp [hlast])]
  simp

/-- Pieces that stand for some component have a last piece that does. All pieces behind it are
idle. -/
theorem exists_last_piece {ps : List (List Char)} (h : ps.filterMap Component.ofPiece? ≠ []) :
    ∃ before last idle, ps = before ++ last :: idle ∧ isIdle last = false ∧
      ∀ p ∈ idle, isIdle p = true := by
  induction ps with
  | nil => exact absurd rfl h
  | cons p ps ih =>
      by_cases hps : ps.filterMap Component.ofPiece? = []
      · -- Nothing behind `p` stands for a component, so `p` does.
        have hp : isIdle p = false := by
          cases hidle : isIdle p with
          | false => rfl
          | true => exact absurd (by simp [isIdle_iff.1 hidle, hps]) h
        exact ⟨[], p, ps, rfl, hp, fun q hq => isIdle_iff.2 (List.filterMap_eq_nil_iff.1 hps q hq)⟩
      · obtain ⟨before, last, idle, rfl, hlast, hidle⟩ := ih hps
        exact ⟨p :: before, last, idle, rfl, hlast, hidle⟩

/-- A piece of a path has no slash. -/
theorem slash_not_mem_of_mem_pieces {path : String} {piece : List Char} (h : piece ∈ pieces path) :
    '/' ∉ piece :=
  slash_not_mem_of_mem_splitAll h

/-- Behind the front, too, pieces are found again in the text that they make up. No pieces at all
make the empty text, whose one piece stands for nothing. -/
theorem filterMap_pieces_ofPieces {ps : List (List Char)} (hslash : ∀ p ∈ ps, '/' ∉ p) :
    (pieces (ofPieces ps)).filterMap Component.ofPiece? = ps.filterMap Component.ofPiece? := by
  rw [pieces_ofPieces hslash]
  split
  · rename_i hnil
    rw [hnil]
    rfl
  · rfl

/-- The end of a text that stands for no component can be taken away. A path from the root, one that
starts with a dot and any other are treated apart, because the first piece has a meaning of its own
in the first two. -/
theorem components_trimEnd (path : String) : components (trimEnd path) = components path := by
  have hslash : ∀ p ∈ pieces path, '/' ∉ p := fun p hp => slash_not_mem_of_mem_pieces hp
  rw [trimEnd, components_eq path]
  cases hpieces : pieces path with
  | nil => exact absurd hpieces (pieces_ne_nil path)
  | cons first rest =>
      rw [hpieces] at hslash
      have hrest : ∀ p ∈ dropIdleEnd rest, '/' ∉ p := fun p hp =>
        hslash p (List.mem_cons_of_mem _ (mem_of_mem_dropIdleEnd hp))
      dsimp only
      split
      · -- The first piece is empty and stands for the root. The rest is trimmed by itself.
        rename_i habsolute
        obtain ⟨piece, rest', hcons⟩ := isAbsolute_iff.1 habsolute
        obtain ⟨rfl, rfl⟩ := List.cons.inj (hpieces.symm.trans hcons)
        rw [components_slash_append, filterMap_pieces_ofPieces hrest, filterMap_dropIdleEnd]
        rfl
      · rename_i hrelative
        split
        · -- The first piece is a dot, which is kept in front of the rest.
          rename_i hdot
          subst hdot
          rw [components_ofPieces (List.forall_mem_cons.2 ⟨by decide, hrest⟩), componentsOf,
            componentsOf, List.filterMap_cons_none rfl, List.filterMap_cons_none rfl,
            filterMap_dropIdleEnd]
          rfl
        · rename_i hdot
          have hall : ∀ p ∈ dropIdleEnd (first :: rest), '/' ∉ p := fun p hp =>
            hslash p (mem_of_mem_dropIdleEnd hp)
          -- Nothing special is in front, and trimming does not bring anything there.
          have hfront : frontOf (first :: rest) = [] := by
            rw [← hpieces, ← front_eq, front, if_neg hrelative,
              if_neg (by simpa [hpieces] using hdot)]
          obtain ⟨idle, -, hsplit⟩ := eq_dropIdleEnd_append (first :: rest)
          rw [components_ofPieces hall, componentsOf, componentsOf, filterMap_dropIdleEnd, hfront,
            frontOf_of_prefix ⟨idle, hsplit.symm⟩ hfront]

/-! ### Paths below a base -/

/-- Dropping components counts the pieces that stand for one. Idle pieces in between are dropped
with them and not counted. -/
theorem filterMap_dropComponents (count : Nat) (ps : List (List Char)) :
    (dropComponents count ps).filterMap Component.ofPiece? =
      (ps.filterMap Component.ofPiece?).drop count := by
  fun_induction dropComponents count ps with
  | case1 ps => rfl
  | case2 count => rfl
  | case3 count piece ps hidle ih => rw [ih, List.filterMap_cons_none (isIdle_iff.1 hidle)]
  | case4 count piece ps hbusy ih =>
      obtain ⟨c, hc⟩ := Option.ne_none_iff_exists'.1 (mt isIdle_iff.2 hbusy)
      rw [ih, List.filterMap_cons_some hc, List.drop_succ_cons]

/-- The pieces that are left were there before. -/
theorem mem_of_mem_dropComponents {count : Nat} {ps : List (List Char)} {p : List Char}
    (h : p ∈ dropComponents count ps) : p ∈ ps := by
  fun_induction dropComponents count ps with
  | case1 ps => exact h
  | case2 count => exact h
  | case3 count piece ps _ ih => exact List.mem_cons_of_mem _ (ih h)
  | case4 count piece ps _ ih => exact List.mem_cons_of_mem _ (ih h)

/-- Idle pieces at the start can be dropped as well. -/
theorem filterMap_dropWhile_isIdle (ps : List (List Char)) :
    (ps.dropWhile isIdle).filterMap Component.ofPiece? = ps.filterMap Component.ofPiece? := by
  have hidle : ∀ p ∈ ps.takeWhile isIdle, isIdle p = true := List.all_eq_true.1 List.all_takeWhile
  conv_rhs => rw [← List.takeWhile_append_dropWhile (p := isIdle) (l := ps), List.filterMap_append,
    filterMap_idle hidle, List.nil_append]

/-- Pieces behind the idle ones have no component of their own at the front. An empty piece or a dot
at the front would itself be idle. -/
theorem frontOf_dropWhile_isIdle (ps : List (List Char)) : frontOf (ps.dropWhile isIdle) = [] := by
  induction ps with
  | nil => rfl
  | cons p ps ih =>
      rw [List.dropWhile_cons]
      split
      · exact ih
      · rename_i hbusy
        rw [frontOf.eq_def]
        split
        · rename_i hcons
          obtain ⟨rfl, -⟩ := List.cons.inj hcons
          exact absurd rfl hbusy
        · rename_i hcons
          obtain ⟨rfl, -⟩ := List.cons.inj hcons
          exact absurd rfl hbusy
        · rfl

/-- The front of a path is one component at most. -/
theorem length_front_le (path : String) : (front path).length ≤ 1 := by
  rw [front]
  split
  · rfl
  · split
    · rfl
    · exact Nat.zero_le 1

/-- A path below a base has the components of the base and then its own. The pieces to drop are
counted by components; since the base has one at least, the front of the path goes with it. -/
theorem components_relativeTo? {path base rest : String} (h : relativeTo? path base = some rest) :
    components path = components base ++ components rest := by
  simp only [relativeTo?] at h
  split at h
  · rename_i hstart
    obtain ⟨behind, hbehind⟩ := List.isPrefixOf_iff_prefix.1 hstart
    split at h
    · rename_i hnil
      cases h
      rw [components_trimEnd, List.isEmpty_iff.1 hnil, List.nil_append]
    · rename_i hne
      cases h
      -- The base has at least one component, so it takes the front of the path with it.
      have hcount : (front path).length ≤ (components base).length :=
        (length_front_le path).trans (List.length_pos_iff.2 (by simpa using hne))
      generalize hcut : (components base).length - (front path).length = count
      generalize hps : (dropComponents count (pieces path)).dropWhile isIdle = ps
      have hslash : ∀ p ∈ dropIdleEnd ps, '/' ∉ p := by
        intro p hp
        rw [← hps] at hp
        have hdropped := (List.dropWhile_sublist _).subset (mem_of_mem_dropIdleEnd hp)
        exact slash_not_mem_of_mem_pieces (mem_of_mem_dropComponents hdropped)
      have hfront : frontOf (dropIdleEnd ps) = [] := by
        obtain ⟨idle, -, hsplit⟩ := eq_dropIdleEnd_append ps
        exact frontOf_of_prefix ⟨idle, hsplit.symm⟩ (hps ▸ frontOf_dropWhile_isIdle _)
      have hrest : components (ofPieces (dropIdleEnd ps)) = behind := by
        calc components (ofPieces (dropIdleEnd ps))
            = ps.filterMap Component.ofPiece? := by
              rw [components_ofPieces hslash, componentsOf, hfront, List.nil_append,
                filterMap_dropIdleEnd]
          _ = ((pieces path).filterMap Component.ofPiece?).drop count := by
              rw [← hps, filterMap_dropWhile_isIdle, filterMap_dropComponents]
          _ = (components path).drop (components base).length := by
              rw [show components path = front path ++ _ from rfl, List.drop_append,
                List.drop_eq_nil_of_le hcount, List.nil_append, hcut]
          _ = behind := by rw [← hbehind, List.drop_left]
      rw [hrest, hbehind]
  · cases h

/-- A path is not below a base exactly if its components do not start with those of the base. How
the two are written makes no difference beyond that. -/
theorem relativeTo?_eq_none_iff {path base : String} :
    relativeTo? path base = none ↔ ¬ components base <+: components path := by
  rw [← List.isPrefixOf_iff_prefix, relativeTo?]
  split
  · rename_i hstart
    split <;> simp [hstart]
  · rename_i hstart
    simpa using hstart

/-- The path that is recorded for a file: the one below the root, or the whole one if it is not
below the root. -/
def below (root path : String) : String := (relativeTo? path root).getD path

/-- `cs` without `base` at its front, if it starts with it. -/
def stripped (base cs : List Component) : List Component :=
  if base <+: cs then cs.drop base.length else cs

/-- Nothing is taken away if there is nothing to take or it is not in front. Otherwise the list gets
shorter. -/
theorem stripped_eq_self_iff {base cs : List Component} :
    stripped base cs = cs ↔ base = [] ∨ ¬ base <+: cs := by
  rw [stripped]
  split
  · rename_i hstart
    obtain ⟨rest, rfl⟩ := hstart
    simp
  · rename_i hstart
    simp [hstart]

/-- The recorded path has the components behind those of the root, or all of them if it is not below
the root. -/
theorem components_below (root path : String) :
    components (below root path) = stripped (components root) (components path) := by
  rw [below, stripped]
  cases hrelative : relativeTo? path root with
  | none => rw [if_neg (relativeTo?_eq_none_iff.1 hrelative), Option.getD_none]
  | some rest =>
      rw [components_relativeTo? hrelative, if_pos (List.prefix_append _ _), List.drop_left,
        Option.getD_some]

/-! ### Parents and ancestors -/

/-- Only the front of a path stands for the root or for a leading dot. -/
theorem ne_front_of_mem_filterMap {ps : List (List Char)} {c : Component}
    (h : c ∈ ps.filterMap Component.ofPiece?) : c ≠ .root ∧ c ≠ .current := by
  obtain ⟨p, -, hp⟩ := List.mem_filterMap.1 h
  rw [Component.ofPiece?] at hp
  split at hp
  · cases hp
  · split at hp <;> cases hp <;> simp

/-- The parent of a path that ends in a name or goes up: the pieces before the last one that is not
idle. -/
theorem components_pieces_before {path : String} {before idle : List (List Char)}
    {last : List Char} (hpieces : pieces path = before ++ last :: idle)
    (hlast : isIdle last = false) :
    components (if isAbsolute path then trimEnd ("/" ++ ofPieces (before.drop 1))
      else trimEnd (ofPieces before)) = front path ++ before.filterMap Component.ofPiece? := by
  have hslash : ∀ p ∈ before, '/' ∉ p := by
    intro p hp
    exact slash_not_mem_of_mem_pieces (by rw [hpieces]; exact List.mem_append_left _ hp)
  split
  · rename_i habsolute
    obtain ⟨piece, rest, hcons⟩ := isAbsolute_iff.1 habsolute
    cases before with
    | nil =>
        -- A path from the root has an idle piece in front of its first slash.
        rw [hpieces] at hcons
        obtain ⟨rfl, -⟩ := List.cons.inj hcons
        cases hlast
    | cons first before =>
        rw [hpieces] at hcons
        obtain ⟨rfl, -⟩ := List.cons.inj hcons
        have hbefore : ∀ p ∈ before, '/' ∉ p := fun p hp => hslash p (List.mem_cons_of_mem _ hp)
        rw [components_trimEnd, components_slash_append, List.drop_one, List.tail_cons,
          filterMap_pieces_ofPieces hbefore, front, if_pos habsolute]
        rfl
  · rename_i hrelative
    rw [components_trimEnd, components_ofPieces hslash, componentsOf]
    congr 1
    by_cases hdot : (pieces path).head? = some ['.']
    · rw [front, if_neg hrelative, if_pos hdot]
      cases before with
      | nil =>
          rw [hpieces] at hdot
          obtain rfl : last = ['.'] := Option.some.inj hdot
          cases hlast
      | cons first before =>
          rw [hpieces] at hdot
          obtain rfl : first = ['.'] := Option.some.inj hdot
          rfl
    · have hfront : front path = [] := by rw [front, if_neg hrelative, if_neg hdot]
      rw [hfront]
      rw [front_eq] at hfront
      exact frontOf_of_prefix ⟨last :: idle, hpieces.symm⟩ hfront

/-- A path without names has a parent only if it is a dot. It is then the empty path; the root and
the empty path have none. -/
theorem parent?_of_no_names {path : String}
    (hnames : (pieces path).filterMap Component.ofPiece? = []) :
    (components path = [] ∧ parent? path = none) ∨
      (components path = [.root] ∧ parent? path = none) ∨
      (components path = [.current] ∧ parent? path = some "") := by
  have hcomponents : components path = front path := by rw [components, hnames, List.append_nil]
  rw [parent?, hcomponents, front]
  split
  · exact .inr (.inl ⟨rfl, rfl⟩)
  · split
    · exact .inr (.inr ⟨rfl, rfl⟩)
    · exact .inl ⟨rfl, rfl⟩

/-- Any other path has the parent with all components but the last. The last piece that is not idle
is taken away, with the idle ones behind it. -/
theorem parent?_of_names {path : String}
    (hnames : (pieces path).filterMap Component.ofPiece? ≠ []) :
    components path ≠ [] ∧ components path ≠ [.root] ∧
      ∃ parent, parent? path = some parent ∧ components parent = (components path).dropLast := by
  obtain ⟨before, last, idle, hpieces, hlast, hidle⟩ := exists_last_piece hnames
  obtain ⟨c, hc⟩ : ∃ c, Component.ofPiece? last = some c :=
    Option.ne_none_iff_exists'.1 fun hnone => by simp [isIdle_iff.2 hnone] at hlast
  have hcomponents : components path =
      front path ++ before.filterMap Component.ofPiece? ++ [c] := by
    rw [components, hpieces, List.filterMap_append, List.filterMap_cons_some hc,
      filterMap_idle hidle, List.append_assoc]
  -- `last` is the last piece that is not idle, so `before` is left when it is dropped.
  have hkept : (dropIdleEnd (pieces path)).dropLast = before := by
    rw [hpieces, dropIdleEnd_append_cons hlast before hidle, List.dropLast_concat]
  have hbusy : c ≠ .root ∧ c ≠ .current :=
    ne_front_of_mem_filterMap (show c ∈ [last].filterMap Component.ofPiece? by simp [hc])
  have hparent : parent? path = some (if isAbsolute path then
      trimEnd ("/" ++ ofPieces (before.drop 1)) else trimEnd (ofPieces before)) := by
    rw [parent?, hcomponents, List.getLast?_concat, hkept]
    -- The root and the current directory can only be in front.
    cases c with
    | root => exact absurd rfl hbusy.1
    | current => exact absurd rfl hbusy.2
    | parent => rfl
    | normal name => rfl
  refine ⟨by simp [hcomponents], ?_, _, hparent, ?_⟩
  · intro hroot
    have hlast := congrArg List.getLast? (hcomponents.symm.trans hroot)
    rw [List.getLast?_concat] at hlast
    exact hbusy.1 (Option.some.inj hlast)
  · rw [components_pieces_before hpieces hlast, hcomponents, List.dropLast_concat]

/-- A parent has all components but the last. So to go to the parent again and again comes to an
end. -/
theorem components_parent? {path parent : String} (h : parent? path = some parent) :
    components parent = (components path).dropLast := by
  by_cases hnames : (pieces path).filterMap Component.ofPiece? = []
  · -- Without a name the path is empty, the root or a dot, and only the dot has a parent.
    rcases parent?_of_no_names hnames with ⟨-, hnone⟩ | ⟨-, hnone⟩ | ⟨hdot, hsome⟩
    · rw [hnone] at h
      cases h
    · rw [hnone] at h
      cases h
    · rw [hsome] at h
      cases h
      rw [hdot]
      rfl
  · obtain ⟨-, -, other, hother, hcomponents⟩ := parent?_of_names hnames
    rw [hother] at h
    cases h
    exact hcomponents

/-- Only the root and the empty path have no parent. They are the paths at which a search upwards
ends. -/
theorem parent?_eq_none_iff {path : String} :
    parent? path = none ↔ components path = [] ∨ components path = [.root] := by
  by_cases hnames : (pieces path).filterMap Component.ofPiece? = []
  · rcases parent?_of_no_names hnames with ⟨hempty, hnone⟩ | ⟨hroot, hnone⟩ | ⟨hdot, hsome⟩
    · simp [hempty, hnone]
    · simp [hroot, hnone]
    · simp [hdot, hsome]
  · obtain ⟨hempty, hroot, parent, hparent, -⟩ := parent?_of_names hnames
    simp [hempty, hroot, hparent]

/-- A path goes one component further than its parent. -/
theorem components_eq_concat {path parent : String} (h : parent? path = some parent) :
    ∃ c, components path = components parent ++ [c] := by
  have hne : components path ≠ [] := by
    intro hnil
    rw [parent?_eq_none_iff.2 (.inl hnil)] at h
    cases h
  exact ⟨(components path).getLast hne, by rw [components_parent? h, List.dropLast_concat_getLast]⟩

/-- A path starts with a slash exactly if its first component is the root. No other piece stands for
the root, so it cannot come from anywhere else. -/
theorem isAbsolute_iff_head? {path : String} :
    isAbsolute path = true ↔ (components path).head? = some .root := by
  constructor
  · intro habsolute
    rw [components, front, if_pos habsolute]
    rfl
  · intro hhead
    by_contra hrelative
    rw [components, front, if_neg hrelative] at hhead
    split at hhead
    · cases hhead
    · exact (ne_front_of_mem_filterMap (List.mem_of_head? hhead)).1 rfl

/-- A parent starts where the path starts. The first component is taken away only from the root,
which has no parent, or from a path that does not start with a slash. -/
theorem isAbsolute_parent? {path parent : String} (h : parent? path = some parent) :
    isAbsolute parent = isAbsolute path := by
  have hne : components path ≠ [.root] := by
    intro hroot
    rw [parent?_eq_none_iff.2 (.inr hroot)] at h
    cases h
  rw [Bool.eq_iff_iff, isAbsolute_iff_head?, isAbsolute_iff_head?, components_parent? h]
  cases hcomponents : components path with
  | nil => rfl
  | cons c cs =>
      cases cs with
      -- A single component, and it is not the root.
      | nil =>
          rw [hcomponents] at hne
          simpa using fun hc => hne (by rw [hc])
      | cons d cs => rfl

/-- The longest front part comes first. -/
theorem reverse_inits_concat (cs : List Component) (c : Component) :
    (cs ++ [c]).inits.reverse = (cs ++ [c]) :: cs.inits.reverse := by
  simp [List.inits_append]

/-- The run over parents: it goes through the front parts of the components, the longest first. A
path from the root does not come down to the empty path. -/
theorem map_components_ancestorsUpTo {count : Nat} {path : String}
    (hcount : (components path).length ≤ count) :
    (ancestorsUpTo count path).map components ++ (if isAbsolute path then [[]] else []) =
      (components path).inits.reverse := by
  have hempty : ∀ {path}, components path = [] → isAbsolute path = false := by
    intro path hnil
    rw [Bool.eq_false_iff, Ne, isAbsolute_iff_head?, hnil]
    simp
  induction count generalizing path with
  | zero =>
      have hnil : components path = [] := List.length_eq_zero_iff.1 (Nat.le_zero.1 hcount)
      simp [ancestorsUpTo, hnil, hempty hnil]
  | succ count ih =>
      rw [ancestorsUpTo]
      cases hparent : parent? path with
      -- No parent: the path is empty or the root alone.
      | none =>
          rcases parent?_eq_none_iff.1 hparent with hnil | hroot
          · simp [hnil, hempty hnil]
          · simp [hroot, isAbsolute_iff_head?]
      | some parent =>
          obtain ⟨c, hc⟩ := components_eq_concat hparent
          have hlength : (components parent).length ≤ count := by
            rw [hc, List.length_append, List.length_singleton] at hcount
            omega
          -- The parent starts at the root if and only if the path does.
          have hrest := ih hlength
          rw [isAbsolute_parent? hparent] at hrest
          rw [List.map_cons, List.cons_append, hrest, hc, reverse_inits_concat]

/-- The ancestors of a path have the front parts of its components, longest first. The empty front
part belongs to an ancestor only if the path does not start at the root. -/
theorem map_components_ancestors (path : String) :
    (ancestors path).map components ++ (if isAbsolute path then [[]] else []) =
      (components path).inits.reverse :=
  map_components_ancestorsUpTo (Nat.le_refl _)

/-- All ancestors of a path start where the path starts, by induction on how many of them are asked
for. -/
theorem isAbsolute_of_mem_ancestorsUpTo {count : Nat} {path ancestor : String}
    (h : ancestor ∈ ancestorsUpTo count path) : isAbsolute ancestor = isAbsolute path := by
  induction count generalizing path with
  | zero => rw [List.mem_singleton.1 h]
  | succ count ih =>
      rw [ancestorsUpTo] at h
      cases hparent : parent? path with
      | none =>
          rw [hparent] at h
          rw [List.mem_singleton.1 h]
      | some parent =>
          rw [hparent] at h
          rcases List.mem_cons.1 h with rfl | h
          · rfl
          · rw [ih h, isAbsolute_parent? hparent]

/-- A search through the ancestors is one through the front parts of the components, if it does not
matter to it whether the root is written. -/
theorem findSome?_ancestors {α : Type} {look : List Component → Option α}
    (hroot : look [.root] = look []) (path : String) :
    (ancestors path).findSome? (look ∘ components) =
      (components path).inits.reverse.findSome? look := by
  rw [← map_components_ancestors, List.findSome?_append, List.findSome?_map]
  split
  · rename_i habsolute
    -- The front part without the root is looked at last, after the root itself.
    cases hfound : (ancestors path).findSome? (look ∘ components) with
    | some found => rfl
    | none =>
        have hmem : [Component.root] ∈ (ancestors path).map components := by
          have hinit : [Component.root] ∈ (components path).inits.reverse := by
            rw [List.mem_reverse, List.mem_inits]
            obtain ⟨rest, hrest⟩ := List.head?_eq_some_iff.1 (isAbsolute_iff_head?.1 habsolute)
            exact ⟨rest, hrest.symm⟩
          rw [← map_components_ancestors, if_pos habsolute] at hinit
          rcases List.mem_append.1 hinit with hmem | hnil
          · exact hmem
          · simp at hnil
        obtain ⟨ancestor, hancestor, hcomponents⟩ := List.mem_map.1 hmem
        have hnone := List.findSome?_eq_none_iff.1 hfound ancestor hancestor
        rw [Function.comp_apply, hcomponents, hroot] at hnone
        simp [hnone]
  · simp

end Arborist.Path
