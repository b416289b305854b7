import Arborist.Proofs.Tree.Builder
import Arborist.Proofs.Walk.Call

/-!
# `Arborist.Proofs.Tree.Growth`: trees from any sequence of calls

A builder takes its calls as they come: nodes may be left open, and there may be more `finish` calls
than open nodes. What has grown after some calls is a `Growth`, the trees that are closed and the
open nodes with the trees closed below each. It knows nothing of numbers and links.

The two are tied together by `Growth.replay`, which hands a growth to a fresh builder tree by tree.
Every call keeps the equation (`replay_perform`), so the builder after any calls is the replay of
what has grown (`run_eq_replay`). Once nothing is open, a growth is a forest, and the builder holds
its numbering.

What the calls tell by themselves, which nodes they open at which depth and how many of these are
still open, the growth tells as well (`opened_grow`, `length_frames_grow`). `build_run` puts this
together.
-/

set_option autoImplicit false

namespace Arborist

open OrderedTree (roots sizeAll numberedAll fitAll closedAll forestArena forest_induction)

/-! ### Calls -/

/-- What a node is opened with. -/
structure Opening where
  kind : NodeKind
  range : TextRange
  name : Option String
  deriving DecidableEq, Repr

/-- What a node is, apart from where. -/
def Opening.label (opening : Opening) : NodeKind × Option String := (opening.kind, opening.name)

/-- A call of a builder. -/
inductive BuilderCall where
  | start (opening : Opening)
  | leaf (opening : Opening)
  | finish
  deriving DecidableEq, Repr

namespace BuilderCall

/-- The node that a call opens. -/
def opening? : BuilderCall → Option Opening
  | .start opening => some opening
  | .leaf opening => some opening
  | .finish => none

/-- How many nodes are open after a call, if `depth` are open before it. -/
def depthAfter (depth : Nat) : BuilderCall → Nat
  | .start _ => depth + 1
  | .leaf _ => depth
  | .finish => depth - 1

/-- How many nodes are open after calls, if `depth` are open before them. -/
def openAfter (depth : Nat) (calls : List BuilderCall) : Nat := calls.foldl depthAfter depth

/-- The nodes that calls open, in order and each with its depth, if `depth` nodes are open before
them. -/
def openings : (depth : Nat) → List BuilderCall → List (Nat × Opening)
  | _, [] => []
  | depth, call :: calls =>
    (call.opening?.map (depth, ·)).toList ++ openings (call.depthAfter depth) calls

/-- How many roots calls open, if no node is open before them. -/
def rootsOpened (calls : List BuilderCall) : Nat :=
  (openings 0 calls).countP fun opened => opened.1 == 0

end BuilderCall

open BuilderCall (openings openAfter rootsOpened)

namespace TreeBuilder

/-- Carries out a call. -/
def perform (b : TreeBuilder) : BuilderCall → TreeBuilder
  | .start opening => b.start opening.kind opening.range opening.name
  | .leaf opening => b.leaf opening.kind opening.range opening.name
  | .finish => b.finish

/-- Carries out calls one after the other. -/
def run (b : TreeBuilder) (calls : List BuilderCall) : TreeBuilder := calls.foldl perform b

/-- A last tree is planted behind the others. -/
theorem plantAll_append_singleton (b : TreeBuilder) (ts : List OrderedTree) (t : OrderedTree) :
    b.plantAll (ts ++ [t]) = (b.plantAll ts).plant t := by
  induction ts generalizing b with
  | nil => rw [List.nil_append, plantAll_cons, plantAll_nil, plantAll_nil]
  | cons u ts ih => rw [List.cons_append, plantAll_cons, ih, plantAll_cons]

end TreeBuilder

/-! ### The nodes of a forest in order -/

namespace OrderedTree

mutual

/-- The nodes of a tree in pre-order, each with its depth, if `depth` nodes are above the tree. -/
def preorder (depth : Nat) : OrderedTree → List (Nat × Opening)
  | .node kind range name children =>
    (depth, ⟨kind, range, name⟩) :: preorderAll (depth + 1) children

/-- The nodes of a forest in pre-order, each with its depth. -/
def preorderAll (depth : Nat) : List OrderedTree → List (Nat × Opening)
  | [] => []
  | t :: ts => t.preorder depth ++ preorderAll depth ts

end

variable (depth : Nat)

/-- An empty forest has no nodes. -/
@[simp] theorem preorderAll_nil : preorderAll depth [] = [] := by rw [preorderAll]

/-- The nodes of the first tree come before those of the others, which are at the same depth. -/
@[simp] theorem preorderAll_cons (t : OrderedTree) (ts : List OrderedTree) :
    preorderAll depth (t :: ts) = t.preorder depth ++ preorderAll depth ts := by rw [preorderAll]

/-- A root comes before the nodes below it, which are one level deeper. -/
@[simp] theorem preorder_node (kind : NodeKind) (range : TextRange) (name : Option String)
    (children : List OrderedTree) :
    (node kind range name children).preorder depth =
      (depth, ⟨kind, range, name⟩) :: preorderAll (depth + 1) children := by
  rw [preorder]

/-- The nodes of a second forest come behind those of the first. -/
theorem preorderAll_append (ts us : List OrderedTree) :
    preorderAll depth (ts ++ us) = preorderAll depth ts ++ preorderAll depth us := by
  induction ts with
  | nil => simp
  | cons t ts ih => simp [ih]

/-- The order has every node of a forest once. -/
@[simp] theorem length_preorderAll (ts : List OrderedTree) :
    (preorderAll depth ts).length = sizeAll ts := by
  induction ts using forest_induction generalizing depth with
  | nil => simp
  | cons kind range name children ts ihc ihr =>
      simp only [preorderAll_cons, preorder_node, List.length_append, List.length_cons, ihc, ihr,
        sizeAll_cons, size_node]

/-- The order has every node of a tree once. -/
@[simp] theorem length_preorder (t : OrderedTree) : (t.preorder depth).length = t.size := by
  simpa using length_preorderAll depth [t]

variable {depth} in
/-- No node of a forest is at a lesser depth than its roots, since depth only grows on the way
down. -/
theorem le_depth_of_mem {ts : List OrderedTree} {opened : Nat × Opening}
    (h : opened ∈ preorderAll depth ts) : depth ≤ opened.1 := by
  induction ts using forest_induction generalizing depth with
  | nil => simp at h
  | cons kind range name children ts ihc ihr =>
      rw [preorderAll_cons, preorder_node, List.cons_append, List.mem_cons, List.mem_append] at h
      rcases h with rfl | hbelow | hright
      · exact Nat.le_refl _
      · exact Nat.le_of_succ_le (ihc hbelow)
      · exact ihr hright

/-- The roots of a forest are the nodes that are not below any other. So the number of trees can be
told from the depths alone. -/
theorem countP_preorderAll (ts : List OrderedTree) :
    (preorderAll 0 ts).countP (fun opened => opened.1 == 0) = ts.length := by
  induction ts with
  | nil => simp
  | cons t ts ih =>
      obtain ⟨kind, range, name, children⟩ := t
      -- Only the root itself has depth 0.
      have hbelow : (preorderAll 1 children).countP (fun opened => opened.1 == 0) = 0 := by
        rw [List.countP_eq_zero]
        intro opened hopened
        have := le_depth_of_mem hopened
        simp
        omega
      rw [preorderAll_cons, preorder_node, List.cons_append, List.countP_cons, List.countP_append,
        hbelow, ih]
      simp

/-- A builder keeps the shape of a forest, its kinds and its names. Only ranges differ, and only
those of a fitting builder. -/
theorem preorderAll_closedAll (fitting : Bool) (ts : List OrderedTree) :
    (preorderAll depth (closedAll fitting ts)).map (Prod.map id Opening.label) =
      (preorderAll depth ts).map (Prod.map id Opening.label) := by
  cases fitting with
  | false => rfl
  | true =>
      rw [closedAll_true]
      induction ts using forest_induction generalizing depth with
      | nil => simp
      | cons kind range name children ts ihc ihr => simp [fit_node, ihc, ihr, Opening.label]

/-- A builder leaves as many trees as there were. -/
theorem length_closedAll (fitting : Bool) (ts : List OrderedTree) :
    (closedAll fitting ts).length = ts.length := by
  rw [← length_roots 0 (closedAll fitting ts), roots_closedAll, length_roots]

end OrderedTree

open OrderedTree (preorderAll preorder_node preorderAll_append)

/-! ### Growth -/

/-- An open node and the trees that are closed below it. -/
structure Frame where
  opening : Opening
  closed : List OrderedTree

/-- What has grown so far: the closed trees that stand under no open node, and the open nodes,
innermost first. -/
structure Growth where
  closed : List OrderedTree := []
  frames : List Frame := []

namespace Growth

/-- One more closed tree under the innermost open node. -/
def attach (g : Growth) (t : OrderedTree) : Growth :=
  match g.frames with
  | [] => { g with closed := g.closed ++ [t] }
  | f :: frames => { g with frames := { f with closed := f.closed ++ [t] } :: frames }

/-- Opens a node under the innermost open one, with no child yet. -/
def start (g : Growth) (opening : Opening) : Growth :=
  { g with frames := ⟨opening, []⟩ :: g.frames }

/-- Closes the innermost open node, if there is one. -/
def finish (g : Growth) : Growth :=
  match g.frames with
  | [] => g
  | f :: frames =>
    attach { g with frames } (.node f.opening.kind f.opening.range f.opening.name f.closed)

/-- Carries out a call. -/
def perform (g : Growth) : BuilderCall → Growth
  | .start opening => g.start opening
  | .leaf opening => (g.start opening).finish
  | .finish => g.finish

/-- What has grown after calls. -/
def grow (g : Growth) (calls : List BuilderCall) : Growth := calls.foldl perform g

/-! ### Replay -/

/-- Hands the open nodes to a builder, outermost first, each with the trees closed below it. -/
def replayFrames (b : TreeBuilder) : List Frame → TreeBuilder
  | [] => b
  | f :: frames =>
    ((replayFrames b frames).start f.opening.kind f.opening.range f.opening.name).plantAll f.closed

/-- Hands a growth to a fresh builder. -/
def replay (fitting : Bool) (g : Growth) : TreeBuilder :=
  replayFrames (TreeBuilder.plantAll { fitting } g.closed) g.frames

/-- A fresh builder with a forest in it. -/
theorem plants_closed (fitting : Bool) (ts : List OrderedTree) :
    TreeBuilder.Plants { fitting } ts (TreeBuilder.plantAll { fitting } ts) :=
  TreeBuilder.plants_plantAll (by simp) ts

/-- The stack of the builder has an entry for each open node. Trees that are closed below an open
node leave nothing on the stack. -/
theorem length_stack_replay (fitting : Bool) (g : Growth) :
    (g.replay fitting).stack.length = g.frames.length := by
  obtain ⟨closed, frames⟩ := g
  induction frames with
  | nil => exact congrArg List.length (plants_closed fitting closed).stack
  | cons f frames ih =>
      rw [replay] at ih ⊢
      -- The trees below an open node are planted and closed, so they leave the stack as it was.
      have hplants : ∀ b : TreeBuilder,
          (b.start f.opening.kind f.opening.range f.opening.name).Plants f.closed _ := fun b =>
        TreeBuilder.plants_plantAll (by simp [TreeBuilder.size_start]) f.closed
      rw [replayFrames, (hplants _).stack, TreeBuilder.stack_start, List.length_cons, ih,
        List.length_cons]

/-- A node that is opened after the replay is the last one that is opened by it. -/
theorem replay_start (fitting : Bool) (g : Growth) (opening : Opening) :
    (g.start opening).replay fitting =
      (g.replay fitting).start opening.kind opening.range opening.name := by
  rw [replay, start, replayFrames, TreeBuilder.plantAll_nil, replay]

/-- A tree that is closed is planted behind the others below the innermost open node. -/
theorem replay_attach (fitting : Bool) (g : Growth) (t : OrderedTree) :
    (g.attach t).replay fitting = (g.replay fitting).plant t := by
  obtain ⟨closed, frames⟩ := g
  cases frames with
  | nil => exact TreeBuilder.plantAll_append_singleton _ closed t
  | cons f frames => exact TreeBuilder.plantAll_append_singleton _ f.closed t

/-- Closing a node turns an opening with trees planted behind it into the planting of one tree. If
no node is open, neither side changes. -/
theorem replay_finish (fitting : Bool) (g : Growth) :
    g.finish.replay fitting = (g.replay fitting).finish := by
  obtain ⟨closed, frames⟩ := g
  cases frames with
  | nil =>
      -- Nothing is open on either side, and a surplus call changes nothing.
      have hstack : (replay fitting ⟨closed, []⟩).stack = [] :=
        List.length_eq_zero_iff.1 (length_stack_replay fitting ⟨closed, []⟩)
      rw [TreeBuilder.finish, hstack, finish]
  | cons f frames =>
      rw [finish, replay_attach, TreeBuilder.plant_node, replay, replay, replayFrames]

/-- One call, carried out before the replay or after it. A leaf is a node that is opened and closed
at once, on both sides. -/
theorem replay_perform (fitting : Bool) (g : Growth) (call : BuilderCall) :
    (g.perform call).replay fitting = (g.replay fitting).perform call := by
  cases call with
  | start opening => exact replay_start fitting g opening
  | leaf opening =>
      rw [perform, replay_finish, replay_start]
      rfl
  | finish => exact replay_finish fitting g

/-- After any calls, the builder is the replay of what has grown. So what is known of planted
forests can be used for a builder after any calls. -/
theorem run_eq_replay (fitting : Bool) (calls : List BuilderCall) :
    TreeBuilder.run { fitting } calls = (grow {} calls).replay fitting := by
  -- From any growth on, since one call leads away from the empty one.
  have hrun : ∀ g : Growth, (g.replay fitting).run calls = (g.grow calls).replay fitting := by
    induction calls with
    | nil => exact fun g => rfl
    | cons call calls ih =>
        intro g
        rw [grow, List.foldl_cons, ← grow, ← ih, replay_perform]
        rfl
  rw [← hrun, replay, replayFrames, TreeBuilder.plantAll_nil]

/-! ### What the calls tell -/

/-- A closed tree opens and closes no other node. -/
@[simp] theorem length_frames_attach (g : Growth) (t : OrderedTree) :
    (g.attach t).frames.length = g.frames.length := by
  unfold attach
  split <;> simp [*]

/-- Closing leaves one node less open, or none. -/
theorem length_frames_finish (g : Growth) : g.finish.frames.length = g.frames.length - 1 := by
  unfold finish
  split <;> simp [*]

/-- How many nodes a call leaves open depends on the number of open nodes alone. Closing when none
is open leaves none open. -/
theorem length_frames_perform (g : Growth) (call : BuilderCall) :
    (g.perform call).frames.length = call.depthAfter g.frames.length := by
  cases call with
  | start opening => rfl
  | leaf opening =>
      rw [perform, length_frames_finish]
      rfl
  | finish => exact length_frames_finish g

/-- As many nodes are open as the calls leave open. -/
theorem length_frames_grow (g : Growth) (calls : List BuilderCall) :
    (g.grow calls).frames.length = openAfter g.frames.length calls := by
  induction calls generalizing g with
  | nil => rfl
  | cons call calls ih =>
      rw [grow, List.foldl_cons, ← grow, ih, length_frames_perform]
      rfl

/-- The nodes that were opened, those in the closed trees `before` the open nodes first. -/
def openedFrames (before : List (Nat × Opening)) : List Frame → List (Nat × Opening)
  | [] => before
  | f :: frames => openedFrames before frames ++
    (frames.length, f.opening) :: preorderAll (frames.length + 1) f.closed

/-- The nodes that were opened, in order and each with its depth. -/
def opened (g : Growth) : List (Nat × Opening) := openedFrames (preorderAll 0 g.closed) g.frames

/-- An opened node comes behind all others, at the depth of the nodes that are open. -/
theorem opened_start (g : Growth) (opening : Opening) :
    (g.start opening).opened = g.opened ++ [(g.frames.length, opening)] := by
  simp [opened, start, openedFrames]

/-- The nodes of a closed tree come behind all others, as deep as the tree stands. -/
theorem opened_attach (g : Growth) (t : OrderedTree) :
    (g.attach t).opened = g.opened ++ t.preorder g.frames.length := by
  obtain ⟨closed, frames⟩ := g
  cases frames with
  | nil => simp [opened, attach, openedFrames, preorderAll_append]
  | cons f frames => simp [opened, attach, openedFrames, preorderAll_append]

/-- Closing a node opens none, and the order of nodes and their depths stay as they are. -/
theorem opened_finish (g : Growth) : g.finish.opened = g.opened := by
  obtain ⟨closed, frames⟩ := g
  cases frames with
  | nil => rfl
  | cons f frames =>
      rw [finish, opened_attach, preorder_node]
      rfl

/-- A call adds the node that it opens, if it opens one. -/
theorem opened_perform (g : Growth) (call : BuilderCall) :
    (g.perform call).opened =
      g.opened ++ (call.opening?.map (g.frames.length, ·)).toList := by
  cases call with
  | start opening => exact opened_start g opening
  | leaf opening => exact (opened_finish _).trans (opened_start g opening)
  | finish => exact (opened_finish g).trans (List.append_nil _).symm

/-- The nodes are those that the calls open, in the same order and at the same depths. -/
theorem opened_grow (g : Growth) (calls : List BuilderCall) :
    (g.grow calls).opened = g.opened ++ openings g.frames.length calls := by
  induction calls generalizing g with
  | nil => simp [grow, openings]
  | cons call calls ih =>
      rw [grow, List.foldl_cons, ← grow, ih, opened_perform, length_frames_perform, openings,
        List.append_assoc]

end Growth

/-! ### What is built -/

namespace TreeBuilder

/-- Once everything is closed, the calls have planted a forest. Its nodes are those that the calls
opened, at the same depths, and the builder holds its numbering. -/
theorem exists_forest_of_run (fitting : Bool) {calls : List BuilderCall}
    (h : openAfter 0 calls = 0) :
    ∃ ts, preorderAll 0 ts = openings 0 calls ∧
      (run { fitting } calls).nodes = (forestArena (closedAll fitting ts)).nodes := by
  have hframes : (Growth.grow {} calls).frames = [] :=
    List.length_eq_zero_iff.1 ((Growth.length_frames_grow {} calls).trans h)
  have hopened := Growth.opened_grow {} calls
  have hrun := Growth.run_eq_replay fitting calls
  rw [Growth.opened, hframes, Growth.openedFrames] at hopened
  rw [Growth.replay, hframes, Growth.replayFrames] at hrun
  have hplants := Growth.plants_closed fitting (Growth.grow {} calls).closed
  -- No node is open, so what has grown is the list of closed trees.
  refine ⟨(Growth.grow {} calls).closed, ?_, ?_⟩
  · simpa [Growth.opened, Growth.openedFrames] using hopened
  · rw [hrun]
    apply Array.toList_inj.1
    rw [hplants.nodes]
    simp [adopt, forestArena]

/-- The stack of the builder has as many entries as the calls leave nodes open. -/
theorem length_stack_run (fitting : Bool) (calls : List BuilderCall) :
    (run { fitting } calls).stack.length = openAfter 0 calls := by
  rw [Growth.run_eq_replay, Growth.length_stack_replay, Growth.length_frames_grow]
  rfl

/-- A tree is built exactly if everything is closed and something was opened. What is built is then
the arena as it stands. -/
theorem build_run_eq_ok_iff (fitting : Bool) {calls : List BuilderCall} {tree : SyntaxTree} :
    (run { fitting } calls).build = .ok tree ↔ openAfter 0 calls = 0 ∧ openings 0 calls ≠ [] ∧
      tree = ⟨(run { fitting } calls).nodes⟩ := by
  rw [build, ← length_stack_run fitting calls]
  by_cases hstack : (run { fitting } calls).stack = []
  · have hclosed : openAfter 0 calls = 0 := by
      rw [← length_stack_run fitting calls, hstack]
      rfl
    obtain ⟨ts, hopenings, hnodes⟩ := exists_forest_of_run fitting hclosed
    -- There are as many nodes as there were openings.
    have hempty : (run { fitting } calls).nodes.isEmpty = true ↔ openings 0 calls = [] := by
      rw [Array.isEmpty_iff_size_eq_zero, hnodes, ← hopenings, ← List.length_eq_zero_iff,
        OrderedTree.length_preorderAll, ← OrderedTree.sizeAll_closedAll fitting ts,
        ← OrderedTree.size_forestArena]
      rfl
    by_cases hopened : openings 0 calls = []
    · simp [hstack, hempty.2 hopened, hopened]
    · have hsome : (run { fitting } calls).nodes.isEmpty = false := by
        simpa using mt hempty.1 hopened
      simp [hstack, hsome, hopened, eq_comm]
  · simp [hstack]

end TreeBuilder

namespace SyntaxTree

/-- What can be said of a tree that was built by these calls, whatever their ranges are. -/
structure GrownBy (calls : List BuilderCall) (tree : SyntaxTree) : Prop where
  /-- The arena is the numbering of the forest that has, in pre-order, the nodes that were opened,
  at the depths at which they were opened. -/
  forest : ∃ ts, tree = forestArena ts ∧
    (preorderAll 0 ts).map (Prod.map id Opening.label) =
      (openings 0 calls).map (Prod.map id Opening.label)
  linked : tree.Linked
  notEmpty : ∀ length, tree.validate length ≠ .error .empty
  rootFree : ∀ length, tree.validate length ≠ .error .rootHasParent
  noMissing : ∀ length parent child, tree.validate length ≠ .error (.missingChild parent child)
  noMismatch : ∀ length parent child,
    tree.validate length ≠ .error (.parentMismatch parent child)
  inPreorder : ∀ length expected found,
    tree.validate length ≠ .error (.notPreorder expected found)
  reachable : ∀ length count,
    tree.validate length = .error (.unreachable count) → 1 < rootsOpened calls
  /-- Going to the last child again and again comes to an end inside the arena. -/
  subtreeEnd : ∀ id < tree.size, ∃ stop, tree.subtreeEnd? id = some stop ∧ id < stop ∧
    stop ≤ tree.size
  /-- Going up the parent links comes to an end inside the arena. -/
  ancestors : ∀ id < tree.size, ∃ chain, tree.ancestors? id = some chain ∧
    ∀ a ∈ chain, a < tree.size
  /-- A walk never reads outside the arena. -/
  walk : ∀ file interest, walkRead? file tree interest = some (walk file tree interest)

/-- The numbering of a forest that has the opened nodes. All that the validation could object to are
ranges, and further roots if there are any; the ways through the arena end because they do so in
every numbering. -/
theorem grownBy_forestArena {calls : List BuilderCall} {t : OrderedTree} {ts : List OrderedTree}
    (hkept : (preorderAll 0 (t :: ts)).map (Prod.map id Opening.label) =
      (openings 0 calls).map (Prod.map id Opening.label))
    (hroots : (t :: ts).length = rootsOpened calls) : (forestArena (t :: ts)).GrownBy calls where
  forest := ⟨t :: ts, rfl, hkept⟩
  linked := OrderedTree.linked_forestArena (t :: ts)
  -- None of these is among the errors that are left for a forest.
  notEmpty length h := by simpa using of_validate_forestArena h
  rootFree length h := by simpa using of_validate_forestArena h
  noMissing length parent child h := by simpa using of_validate_forestArena h
  noMismatch length parent child h := by simpa using of_validate_forestArena h
  inPreorder length expected found h := by simpa using of_validate_forestArena h
  reachable length count h := by
    have hmore : ts ≠ [] := by simpa using of_validate_forestArena h
    rw [← hroots, List.length_cons]
    exact Nat.succ_lt_succ (List.length_pos_iff.2 hmore)
  subtreeEnd id hid := exists_subtreeEnd_forestArena (t :: ts) hid
  ancestors id hid := by
    obtain ⟨chain, hchain, hmem⟩ := mem_ancestors_forestArena (t :: ts) hid
    exact ⟨chain, hchain, fun a ha => Nat.lt_trans ((hmem a).1 ha).1 hid⟩
  walk file interest := walkRead?_eq fun entry hentry => by
    obtain ⟨stop, hstop, -⟩ := exists_subtreeEnd_forestArena (t :: ts)
      (lt_size_of_node? (mem_enumerated.1 hentry))
    exact ⟨stop, hstop⟩

end SyntaxTree

namespace TreeBuilder

/-- Building fails exactly if nodes are still open or none was opened, the opposite of
`build_run_eq_ok_iff`. -/
theorem build_run_eq_error_iff (fitting : Bool) (calls : List BuilderCall) :
    (∃ error, (run { fitting } calls).build = .error error) ↔
      0 < openAfter 0 calls ∨ openings 0 calls = [] := by
  constructor
  · rintro ⟨error, herror⟩
    by_cases hopened : openings 0 calls = []
    · exact .inr hopened
    · refine .inl (Nat.pos_of_ne_zero fun hclosed => ?_)
      have hok := (build_run_eq_ok_iff fitting).2 ⟨hclosed, hopened, rfl⟩
      rw [herror] at hok
      cases hok
  · intro hfails
    cases hbuild : (run { fitting } calls).build with
    | error error => exact ⟨error, rfl⟩
    | ok tree =>
        obtain ⟨hclosed, hopened, -⟩ := (build_run_eq_ok_iff fitting).1 hbuild
        rcases hfails with hopen | hnone
        · omega
        · exact absurd hnone hopened

/-- Whatever calls a builder takes, plain or fitting and with whatever ranges, it fails exactly if
nodes are still open or none was ever opened. Otherwise its arena is the pre-order numbering of a
forest. So the validation never finds it empty, a root with a parent, a missing child, a wrong
parent link or a wrong order, and finds unreachable nodes only if more than one root was opened; and
no subtree, ancestor or walk leads out of the arena. -/
theorem build_run (fitting : Bool) (calls : List BuilderCall) :
    ((∃ error, (run { fitting } calls).build = .error error) ↔
      0 < openAfter 0 calls ∨ openings 0 calls = []) ∧
    ∀ tree, (run { fitting } calls).build = .ok tree → tree.GrownBy calls := by
  refine ⟨build_run_eq_error_iff fitting calls, fun tree hbuild => ?_⟩
  obtain ⟨hclosed, hopened, rfl⟩ := (build_run_eq_ok_iff fitting).1 hbuild
  obtain ⟨ts, hopenings, hnodes⟩ := exists_forest_of_run fitting hclosed
  have hkept := OrderedTree.preorderAll_closedAll 0 fitting ts
  have hroots : (closedAll fitting ts).length = rootsOpened calls := by
    rw [OrderedTree.length_closedAll, ← OrderedTree.countP_preorderAll, hopenings, rootsOpened]
  rw [hopenings] at hkept
  rw [hnodes]
  cases hforest : closedAll fitting ts with
  | nil =>
      -- Something was opened, so there is a first tree.
      rw [hforest] at hkept
      exact absurd (List.map_eq_nil_iff.1 hkept.symm) hopened
  | cons t us =>
      rw [hforest] at hkept hroots
      exact SyntaxTree.grownBy_forestArena hkept hroots

/-- Two roots can be built, although only the tree of the first is valid. -/
example : (run {} [.leaf ⟨.file, ⟨0, 1⟩, none⟩, .leaf ⟨.file, ⟨1, 2⟩, none⟩]).build.bind
    (SyntaxTree.validate · 2) = .error (.unreachable 1) := rfl

end TreeBuilder

end Arborist
