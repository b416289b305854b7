import Arborist.Proofs.Catalog
import Arborist.Rules.Preset

/-!
# `Arborist.Proofs.Rules.Preset`: every configuration has an engine

Settings change which nodes a rule looks at and what it makes of them. They never change a
descriptor (`map_descriptor_rules`), and under no settings does a rule use a slot twice for one kind
of node (`BuiltIn.sound`). So the rules of a preset always make a catalog, and `Engine.ofConfig` has
an engine for every configuration (`ofConfig_eq_ok`).
-/

set_option autoImplicit false

namespace Arborist

namespace Rules

/-- The rules that presets choose from, under any settings. -/
inductive BuiltIn : Rule → Prop where
  | unwrapExpect (settings : UnwrapExpect) : BuiltIn settings.rule
  | debugMacro : BuiltIn DebugMacro.rule
  | lengthComparison : BuiltIn LengthComparison.rule
  | docComment (settings : DocComment) : BuiltIn settings.rule
  | placeholder : BuiltIn Placeholder.rule

/-- Each rule has a sound descriptor and uses no slot twice for one kind of node, whatever its
settings are. -/
theorem BuiltIn.sound {rule : Rule} (h : BuiltIn rule) : rule.Sound := by
  cases h with
  | unwrapExpect settings =>
      exact ⟨(by decide : UnwrapExpect.descriptor.problem? = none), List.pairwise_singleton _ _⟩
  | debugMacro => exact ⟨by decide, by simp [DebugMacro.rule, Rule.SameSlot]⟩
  | lengthComparison => exact ⟨by decide, by simp [LengthComparison.rule, Rule.SameSlot]⟩
  | docComment settings =>
      refine ⟨(by decide : DocComment.descriptor.problem? = none), ?_⟩
      -- One slot for all kinds; the kinds are different ones.
      obtain ⟨functions, structs, enums⟩ := settings
      cases functions <;> cases structs <;> cases enums <;>
        simp [DocComment.rule, DocComment.kinds, Subscription.onEach, Rule.SameSlot]
  | placeholder => exact ⟨by decide, by simp [Placeholder.rule, Rule.SameSlot]⟩

end Rules

namespace Preset

/-- The rules of a preset are among those there are. -/
theorem builtIn_of_mem_rules {preset : Preset} {config : Config} {rule : Rule}
    (h : rule ∈ preset.rules config) : Rules.BuiltIn rule := by
  have hall : ∀ rule ∈ preset.rules config, Rules.BuiltIn rule := by
    cases preset <;> simp [rules, Rules.BuiltIn.unwrapExpect, Rules.BuiltIn.debugMacro,
      Rules.BuiltIn.lengthComparison, Rules.BuiltIn.docComment, Rules.BuiltIn.placeholder]
  exact hall rule h

/-- The descriptors of a preset's rules. -/
def descriptors : Preset → List Descriptor
  | .recommended => [Rules.UnwrapExpect.descriptor, Rules.DebugMacro.descriptor,
      Rules.LengthComparison.descriptor, Rules.Placeholder.descriptor]
  | .minimal => [Rules.UnwrapExpect.descriptor]
  | .strict | .all => [Rules.UnwrapExpect.descriptor, Rules.DebugMacro.descriptor,
      Rules.LengthComparison.descriptor, Rules.DocComment.descriptor, Rules.Placeholder.descriptor]

/-- A configuration does not change the descriptors of a preset's rules. -/
theorem map_descriptor_rules (preset : Preset) (config : Config) :
    (preset.rules config).map (·.descriptor) = preset.descriptors := by
  cases preset <;> rfl

/-- The rules of a preset differ in code and name. Their descriptors do not depend on the settings,
so this is a matter of four lists. -/
theorem rules_distinct (preset : Preset) (config : Config) :
    (preset.rules config).Pairwise Rule.Distinct := by
  have hdescriptors : preset.descriptors.Pairwise fun a b => a.code ≠ b.code ∧ a.name ≠ b.name := by
    cases preset <;> decide
  rw [← map_descriptor_rules preset config, List.pairwise_map] at hdescriptors
  exact hdescriptors

end Preset

/-- Every configuration has an engine, with the rules of its preset. -/
theorem Engine.ofConfig_eq_ok (config : Config) :
    Engine.ofConfig config = .ok ⟨⟨(Preset.ofConfig config).rules config⟩, config⟩ := by
  have hcatalog := Catalog.build_eq_ok_iff.2
    ⟨fun _ h => (Preset.builtIn_of_mem_rules h).sound,
      (Preset.ofConfig config).rules_distinct config, rfl⟩
  rw [ofConfig, hcatalog]
  rfl

end Arborist
