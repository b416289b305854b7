import Arborist.Rules.Preset

/-!
# `Arborist.Command.RuleList`: the table of rules and presets

The table has a row for every rule there is, whatever the configuration says, and a line for every
preset with the codes of its rules. Cells are padded to fixed widths; a cell that is too long moves
the rest of its row.
-/

set_option autoImplicit false

namespace Arborist.RuleList

/-- `text` with spaces behind it, up to a width. -/
def padEnd (width : Nat) (text : String) : String :=
  text ++ String.ofList (List.replicate (width - text.length) ' ')

/-- The widths of all columns but the last. -/
def columnWidths : List Nat := [7, 22, 8, 9, 7, 32]

/-- A row of the table; the last cell is as long as it is. -/
def row (cells : List String) (last : String) : String :=
  String.join ((columnWidths.zip cells).map fun (width, cell) => padEnd width cell ++ " ") ++
    last ++ "\n"

/-- The row of a rule. -/
def ruleRow (d : Descriptor) : String :=
  row [d.code, d.name, d.severity.name, d.impact.name, d.cost.name, d.applicability.render]
    d.description

/-- The line of a preset with the codes of its rules. -/
def presetLine (preset : Preset) : String :=
  let codes := String.intercalate ", " ((preset.rules {}).map (·.descriptor.code))
  "  " ++ padEnd 12 preset.name ++ " - " ++ codes ++ "\n"

/-- The whole text. -/
def text : String :=
  "Available rules:\n\n" ++
  row ["Code", "Name", "Severity", "Impact", "Cost", "Applies to"] "Description" ++
  String.ofList (List.replicate 120 '-') ++ "\n" ++
  String.join ((Preset.all.rules {}).map fun rule => ruleRow rule.descriptor) ++
  "\nPresets:\n" ++
  String.join (Preset.presets.map presetLine) ++
  "\nUse --rules to filter specific rules, e.g.:\n" ++
  "  treelint check --rules no-unwrap-expect,prefer-is-empty\n" ++
  "  treelint check --rules TL001,TL003\n"

end Arborist.RuleList
