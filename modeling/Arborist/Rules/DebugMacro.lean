import Arborist.Rule.Basic
import Arborist.Rules.CallText

/-!
# `Arborist.Rules.DebugMacro`: no debugging macros

An invocation is reported without the semicolon behind it, wherever it stands. A call that stands as
a statement is one node for the call and one for the statement, and both give the same range.
-/

set_option autoImplicit false

namespace Arborist.Rules.DebugMacro

def descriptor : Descriptor where
  code := "TL002"
  name := "no-debug-macro"
  description := "Forbids dbg!, println! and other debugging macros"
  message := "`\x7bmacro\x7d!` left in code"
  impact := .low

/-- The macros to report. -/
def macros : List String := ["dbg", "println", "print", "eprintln", "eprint"]

/-- The range without a semicolon at the end of its text and the white space around it. -/
def invocationRange (range : TextRange) (text : String) : TextRange :=
  let trimmed := Text.trimEnd text.toList
  let call := Text.trimEnd ((Text.dropEnd? [';'] trimmed).getD trimmed)
  ⟨range.start, range.start + Text.byteLength call⟩

def onInvocation (scene : Scene) : Reaction :=
  match scene.node.name with
  | none => .pass
  | some name =>
    let base := macroBase name
    if macros.contains base then
      .reportOne {
        range := invocationRange scene.node.range scene.text
        message := descriptor.message.fill [("macro", base)] }
    else .pass

/-- Replaces `dbg!(x)` by `x`, and deletes a statement. -/
def propose (file : SourceFile) (tree : SyntaxTree) (d : Diagnostic) : List Proposal :=
  match tree.nodeAt? d.range .macroCall with
  | some (_, call) =>
    if call.name.map macroBase = some "dbg" then
      match singleArgument? (file.text call.range).toList with
      | some argument => [{
          edits := [⟨call.range, String.ofList argument⟩]
          label := "unwrap `dbg!` call" }]
      | none => []
    else []
  | none =>
    match tree.nodes.toList.find? fun node =>
        node.kind = .macroStatement && node.range.start = d.range.start with
    | some statement => [{
        priority := -1
        edits := [⟨statement.range, ""⟩]
        label := "remove debug statement"
        safety := .risky }]
    | none => []

def rule : Rule where
  descriptor := descriptor
  subscriptions := [⟨.macroCall, "expression", onInvocation⟩,
    ⟨.macroStatement, "statement", onInvocation⟩]
  propose file tree d := some (propose file tree d)

end Arborist.Rules.DebugMacro
