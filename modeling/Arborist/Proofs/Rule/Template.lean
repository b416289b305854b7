import Arborist.Rule.Descriptor

/-!
# `Arborist.Proofs.Rule.Template`: templates and the messages they become

A template is text with names in braces. There are two readers of it. `Template.isBalanced` goes
through the characters and remembers whether a brace is open; `Template.fill` collects the
characters behind an opening brace until it closes and puts a value there. `Balanced` says of a text
which templates the first reader accepts, and `Layout` holds the parts that the second one sees.

`fill_assemble` says that both readers find the names at the same places: whatever the values are,
the filled template is made of the same parts, with something else in the place of each name. Values
are not read again, so braces in them mean nothing.
-/

set_option autoImplicit false

namespace Arborist.Template

/-! ### Balanced braces -/

/-- A character that is no brace. -/
def IsPlain (c : Char) : Prop := c ≠ '\x7b' ∧ c ≠ '\x7d'

/-- Text with names in braces, and no brace anywhere else. -/
inductive Balanced : List Char → Prop where
  | nil : Balanced []
  | char {c : Char} {cs : List Char} (hc : IsPlain c) (h : Balanced cs) : Balanced (c :: cs)
  | hole {name cs : List Char} (hname : ∀ c ∈ name, IsPlain c) (h : Balanced cs) :
      Balanced ('\x7b' :: (name ++ '\x7d' :: cs))

/-- The rest of a text behind an opening brace. -/
def Closes (cs : List Char) : Prop :=
  ∃ name rest, cs = name ++ '\x7d' :: rest ∧ (∀ c ∈ name, IsPlain c) ∧ Balanced rest

/-- Behind an opening brace comes the closing one or another character of the name. This is the step
of the test for balanced templates, inside of braces. -/
theorem closes_cons_iff {c : Char} {cs : List Char} :
    Closes (c :: cs) ↔ (c = '\x7d' ∧ Balanced cs) ∨ (IsPlain c ∧ Closes cs) := by
  constructor
  · rintro ⟨name, rest, heq, hname, hrest⟩
    cases name with
    -- The name is over, and the rest is a template again.
    | nil =>
        obtain ⟨rfl, rfl⟩ := List.cons.inj heq
        exact .inl ⟨rfl, hrest⟩
    | cons d name =>
        obtain ⟨rfl, rfl⟩ := List.cons.inj heq
        have hrestName : ∀ c ∈ name, IsPlain c := fun c hc => hname c (by simp [hc])
        exact .inr ⟨hname c (by simp), name, rest, rfl, hrestName, hrest⟩
  · rintro (⟨rfl, h⟩ | ⟨hc, name, rest, rfl, hname, hrest⟩)
    · exact ⟨[], cs, rfl, by simp, h⟩
    · exact ⟨c :: name, rest, rfl, List.forall_mem_cons.2 ⟨hc, hname⟩, hrest⟩

/-- Outside of braces comes an opening one or another character of the text. This is its step
outside of braces. -/
theorem balanced_cons_iff {c : Char} {cs : List Char} :
    Balanced (c :: cs) ↔ (c = '\x7b' ∧ Closes cs) ∨ (IsPlain c ∧ Balanced cs) := by
  constructor
  · intro h
    cases h with
    | char hc h => exact .inr ⟨hc, h⟩
    | hole hname h => exact .inl ⟨rfl, _, _, rfl, hname, h⟩
  · rintro (⟨rfl, name, rest, rfl, hname, hrest⟩ | ⟨hc, h⟩)
    · exact .hole hname hrest
    · exact .char hc h

/-- The scan for braces, outside of a pair and inside of one. Both have to be shown together, since
a brace leads from one to the other. -/
theorem balancedFrom_iff (cs : List Char) :
    (balancedFrom false cs = true ↔ Balanced cs) ∧ (balancedFrom true cs = true ↔ Closes cs) := by
  induction cs with
  | nil => exact ⟨⟨fun _ => .nil, fun _ => rfl⟩, by simp [balancedFrom, Closes]⟩
  | cons c cs ih =>
      rw [balanced_cons_iff, closes_cons_iff, ← ih.1, ← ih.2]
      by_cases hopen : c = '\x7b'
      · simp [balancedFrom, IsPlain, hopen]
      · by_cases hclose : c = '\x7d'
        · simp [balancedFrom, IsPlain, hclose]
        · simp [balancedFrom, IsPlain, hopen, hclose]

/-- The first reader accepts the balanced templates. -/
theorem isBalanced_iff {template : Template} :
    template.isBalanced = true ↔ Balanced template.toList :=
  (balancedFrom_iff template.toList).1

/-! ### The parts of a template -/

/-- A text without braces. -/
structure PlainText where
  text : String
  plain : ∀ c ∈ text.toList, IsPlain c

/-- A template in parts: text, and then any number of names in braces, each with the text behind
it. -/
inductive Layout where
  | last (text : PlainText)
  | hole (text name : PlainText) (rest : Layout)

/-- A name as it is written in a template. -/
def braced (name : String) : String := "\x7b" ++ name ++ "\x7d"

/-- The text for a name: the value of the first pair with this name, or the name as it is written if
there is none. -/
def valueFor (values : List (String × String)) (name : String) : String :=
  (values.lookup name).getD (braced name)

/-- The parts one after the other, with `inPlace` in the place of each name. -/
def Layout.assemble (inPlace : String → String) : Layout → String
  | .last text => text.text
  | .hole text name rest => text.text ++ inPlace name.text ++ rest.assemble inPlace

/-- A name in braces, character by character. -/
theorem toList_braced (name : String) :
    (braced name).toList = '\x7b' :: (name.toList ++ ['\x7d']) := by
  simp [braced]

/-- Plain text in front of a balanced text. -/
theorem Balanced.append {text cs : List Char} (htext : ∀ c ∈ text, IsPlain c) (h : Balanced cs) :
    Balanced (text ++ cs) := by
  induction text with
  | nil => exact h
  | cons c text ih =>
      have hc : IsPlain c := htext c (by simp)
      exact .char hc (ih fun d hd => htext d (by simp [hd]))

/-- Parts that are put together make a balanced template. The induction is on the parts; none of
them has a brace of its own. -/
theorem balanced_assemble (layout : Layout) : Balanced (layout.assemble braced).toList := by
  induction layout with
  | last text =>
      rw [Layout.assemble, ← List.append_nil text.text.toList]
      exact .append text.plain .nil
  | hole text name rest ih =>
      have hrest : Balanced ((braced name.text).toList ++ (rest.assemble braced).toList) := by
        rw [toList_braced, List.cons_append, List.append_assoc]
        exact .hole name.plain ih
      rw [Layout.assemble, String.append_assoc, String.toList_append, String.toList_append]
      exact .append text.plain hrest

/-- One more character in front of the first text. -/
def Layout.push (c : Char) (hc : IsPlain c) : Layout → Layout
  | .last text => .last ⟨.ofList (c :: text.text.toList), by simpa using ⟨hc, text.plain⟩⟩
  | .hole text name rest =>
      .hole ⟨.ofList (c :: text.text.toList), by simpa using ⟨hc, text.plain⟩⟩ name rest

/-- A character pushed onto the parts stands in front of the template. -/
theorem toList_assemble_push (inPlace : String → String) {c : Char} (hc : IsPlain c)
    (layout : Layout) :
    ((layout.push c hc).assemble inPlace).toList = c :: (layout.assemble inPlace).toList := by
  cases layout <;> simp [Layout.push, Layout.assemble]

/-- Every balanced text has parts, found in the order of its derivation: a character is pushed onto
the first text, and a name starts a new part. -/
theorem exists_layout_of_balanced {cs : List Char} (h : Balanced cs) :
    ∃ layout : Layout, (layout.assemble braced).toList = cs := by
  induction h with
  | nil => exact ⟨.last ⟨"", by simp⟩, rfl⟩
  | char hc _ ih =>
      obtain ⟨layout, hlayout⟩ := ih
      exact ⟨layout.push _ hc, by rw [toList_assemble_push, hlayout]⟩
  | @hole name cs hname _ ih =>
      obtain ⟨layout, hlayout⟩ := ih
      refine ⟨.hole ⟨"", by simp⟩ ⟨.ofList name, by simpa using hname⟩ layout, ?_⟩
      simp [Layout.assemble, toList_braced, hlayout]

/-- The templates that are accepted are those that have parts. So whatever is to be shown of an
accepted template can be shown for parts that are put together. -/
theorem isBalanced_iff_exists_layout {template : Template} :
    template.isBalanced = true ↔ ∃ layout : Layout, template = layout.assemble braced := by
  rw [isBalanced_iff]
  constructor
  · intro h
    obtain ⟨layout, hlayout⟩ := exists_layout_of_balanced h
    exact ⟨layout, String.toList_inj.1 hlayout.symm⟩
  · rintro ⟨layout, rfl⟩
    exact balanced_assemble layout

/-! ### Filling in -/

/-- The value for a name is that of the first pair with this name. Names are compared as lists of
characters, and pairs have theirs as text. -/
theorem valueOf?_eq_lookup (values : List (String × String)) (name : List Char) :
    valueOf? values name = values.lookup (String.ofList name) := by
  induction values with
  | nil => rfl
  | cons pair values ih =>
      obtain ⟨key, value⟩ := pair
      by_cases hname : key.toList = name
      · simp [valueOf?, ← hname]
      · have hother : (String.ofList name == key) = false := by
          simpa [← String.toList_inj] using Ne.symm hname
        rw [List.lookup_cons, hother, ← ih]
        simp [valueOf?, hname]

/-- What is put in the place of a name. -/
theorem toList_valueFor (values : List (String × String)) (name : List Char) :
    (valueFor values (.ofList name)).toList =
      match valueOf? values name with
      | some value => value.toList
      | none => '\x7b' :: name ++ ['\x7d'] := by
  rw [valueFor, valueOf?_eq_lookup]
  cases values.lookup (String.ofList name) <;> simp [toList_braced]

variable (values : List (String × String))

/-- Text outside of braces stays as it is, up to the first opening brace behind it. -/
theorem fillFrom_append {text : List Char} (htext : ∀ c ∈ text, IsPlain c) (cs : List Char) :
    fillFrom values none (text ++ cs) = text ++ fillFrom values none cs := by
  induction text with
  | nil => rfl
  | cons c text ih =>
      have hc : c ≠ '\x7b' := (htext c (by simp)).1
      rw [List.cons_append, fillFrom, if_neg hc, ih fun d hd => htext d (by simp [hd])]
      rfl

/-- Behind an opening brace the name is collected, last character first, up to the closing one. Then
its value is put in place of the name and the braces. -/
theorem fillFrom_name {name : List Char} (hname : ∀ c ∈ name, IsPlain c) (key cs : List Char) :
    fillFrom values (some key) (name ++ '\x7d' :: cs) =
      (valueFor values (.ofList (key.reverse ++ name))).toList ++ fillFrom values none cs := by
  induction name generalizing key with
  | nil =>
      rw [toList_valueFor, List.nil_append, List.append_nil, fillFrom]
      exact if_pos rfl
  | cons c name ih =>
      have hc : c ≠ '\x7d' := (hname c (by simp)).2
      rw [List.cons_append, fillFrom, if_neg hc, ih fun d hd => hname d (by simp [hd])]
      simp

/-- A name in braces is replaced by what stands for it, and filling in goes on behind it. -/
theorem fillFrom_braced (name : PlainText) (cs : List Char) :
    fillFrom values none ((braced name.text).toList ++ cs) =
      (valueFor values name.text).toList ++ fillFrom values none cs := by
  rw [toList_braced, List.cons_append, List.append_assoc, List.singleton_append, fillFrom,
    if_pos rfl, fillFrom_name values name.plain]
  simp

/-- The run of `fillFrom` over a template, one part after the other: text is copied, and each name
is replaced by its value. -/
theorem fillFrom_assemble (layout : Layout) :
    fillFrom values none (layout.assemble braced).toList =
      (layout.assemble (valueFor values)).toList := by
  induction layout with
  | last text =>
      have hend := fillFrom_append values text.plain []
      rwa [List.append_nil, fillFrom, List.append_nil] at hend
  | hole text name rest ih =>
      simp only [Layout.assemble, String.toList_append, List.append_assoc]
      rw [fillFrom_append values text.plain, fillFrom_braced, ih]

/-- A template with parts is filled in part by part. Whatever the values are, only what stands in
the place of the names changes. -/
theorem fill_assemble (layout : Layout) :
    fill (layout.assemble braced) values = layout.assemble (valueFor values) := by
  rw [fill, fillFrom_assemble, String.ofList_toList]

/-- Without values every character stays, also where braces do not match. A name that is being
collected comes back in its order, with its brace. -/
theorem fillFrom_nil (cs : List Char) :
    fillFrom [] none cs = cs ∧
      ∀ key, fillFrom [] (some key) cs = '\x7b' :: (key.reverse ++ cs) := by
  induction cs with
  | nil => simp [fillFrom]
  | cons c cs ih =>
      constructor
      · by_cases hopen : c = '\x7b'
        · simp [fillFrom, hopen, ih.2]
        · simp [fillFrom, hopen, ih.1]
      · -- There is no value for any name, so a closing brace gives back what was collected.
        intro key
        by_cases hclose : c = '\x7d'
        · simp [fillFrom, hclose, valueOf?, ih.1]
        · simp [fillFrom, hclose, ih.2]

/-- Templates and their messages. A template is accepted exactly if it consists of texts without
braces and, between them, names without braces that stand in braces. Filling it in leaves the texts
as they are and puts in the place of each name the first value that is given for it, character by
character as it is, or the name in its braces if no value is given. Without values any text at all
is filled in as itself. -/
theorem fill_replaces_names :
    (∀ template : Template,
      template.isBalanced = true ↔ ∃ layout : Layout, template = layout.assemble braced) ∧
    (∀ (layout : Layout) (values : List (String × String)),
      fill (layout.assemble braced) values =
        layout.assemble fun name => (values.lookup name).getD (braced name)) ∧
    ∀ template : Template, fill template [] = template := by
  refine ⟨fun template => isBalanced_iff_exists_layout, fun layout values => ?_, fun template => ?_⟩
  · exact fill_assemble values layout
  · rw [fill, (fillFrom_nil template.toList).1, String.ofList_toList]

/-- A value with braces of its own, a name without a value, and a pair that comes too late. -/
example :
    fill "é\x7ba\x7d\x7bb\x7d" [("a", "\x7bb\x7d"), ("a", "late")] = "é\x7bb\x7d\x7bb\x7d" := by
  decide +kernel

end Arborist.Template
