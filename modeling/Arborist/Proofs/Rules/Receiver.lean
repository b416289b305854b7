import Arborist.Fix.Edit
import Arborist.Proofs.Rules.CallText
import Arborist.Proofs.Text.Bytes

/-!
# `Arborist.Proofs.Rules.Receiver`: where the receiver of a call ends

Two rules cut a call at the end of its receiver. `receiver?` finds this place from the right, one
part of the call after the other, and each cut takes off exactly one part with the white space
behind it. So the text it answers for is a receiver with the other parts behind it, and there is
only one way to read a text like that (`receiver?_eq_some_iff`), whatever the receiver ends in.
`receiverLength_iff_call` says so of the length in bytes, and what an edit from there on leaves.
-/

set_option autoImplicit false

namespace Arborist.Rules

open Text

/-- The text calls the method on the receiver without arguments. White space may stand behind each
of the parts, but it is not part of the receiver. -/
structure CallsOn (receiver method text : List Char) : Prop where
  nonempty : receiver ≠ []
  tidy : TidyEnd receiver
  parts : ∃ w₁ w₂ w₃ w₄ w₅, Blank w₁ ∧ Blank w₂ ∧ Blank w₃ ∧ Blank w₄ ∧ Blank w₅ ∧
    text = receiver ++ w₁ ++ ['.'] ++ w₂ ++ method ++ w₃ ++ ['('] ++ w₄ ++ [')'] ++ w₅

/-- The receiver is found exactly in texts that call the method on it. The reader cuts from the end,
with white space trimmed before each cut, so the white space is found in the order from right to
left. -/
theorem receiver?_eq_some_iff {text method receiver : List Char} (hne : method ≠ [])
    (hmethod : TidyEnd method) :
    receiver? text method = some receiver ↔ CallsOn receiver method text := by
  have hclosing : TidyEnd [')'] := by decide
  have hopening : TidyEnd ['('] := by decide
  have hdot : TidyEnd ['.'] := by decide
  simp only [receiver?, Option.bind_eq_bind, Option.bind_eq_some_iff,
    hclosing.dropEnd?_trimEnd_iff (by simp), hopening.dropEnd?_trimEnd_iff (by simp),
    hmethod.dropEnd?_trimEnd_iff hne, hdot.dropEnd?_trimEnd_iff (by simp)]
  constructor
  · -- From the end: the parentheses, the name and the dot, and at last the receiver.
    rintro ⟨_, ⟨w₅, h₅, rfl⟩, _, ⟨w₄, h₄, rfl⟩, _, ⟨w₃, h₃, rfl⟩, front, ⟨w₂, h₂, rfl⟩, h⟩
    split at h
    · cases h
    · rename_i hsome
      obtain ⟨htidy, w₁, h₁, rfl⟩ := trimEnd_eq_iff.1 (Option.some.inj h)
      refine ⟨?_, htidy, w₁, w₂, w₃, w₄, w₅, h₁, h₂, h₃, h₄, h₅, by simp⟩
      rw [Option.some.inj h] at hsome
      simpa using hsome
  · rintro ⟨hsome, htidy, w₁, w₂, w₃, w₄, w₅, h₁, h₂, h₃, h₄, h₅, rfl⟩
    refine ⟨_, ⟨w₅, h₅, List.append_assoc ..⟩, _, ⟨w₄, h₄, List.append_assoc ..⟩, _,
      ⟨w₃, h₃, List.append_assoc ..⟩, _, ⟨w₂, h₂, List.append_assoc ..⟩, ?_⟩
    rw [trimEnd_eq_iff.2 ⟨htidy, w₁, h₁, rfl⟩, if_neg (by simpa using hsome)]

/-- Replacing the rest of a part of the text behind its first characters. What is in front of the
part, its first characters and what is behind it stay. -/
theorem applyEdits_rest (front kept cut back : List Char) (replacement : String) :
    applyEdits (String.ofList (front ++ (kept ++ cut) ++ back))
        [⟨⟨byteLength front + byteLength kept, byteLength front + byteLength (kept ++ cut)⟩,
          replacement⟩] =
      .ok (String.ofList (front ++ kept ++ replacement.toList ++ back)) := by
  have hbefore : sliceChars (front ++ (kept ++ cut) ++ back) 0
      (byteLength front + byteLength kept) = some (front ++ kept) :=
    sliceChars_eq_some_iff.2 ⟨[], cut ++ back, by simp, rfl, by simp⟩
  have hcut : sliceChars (front ++ (kept ++ cut) ++ back) (byteLength front + byteLength kept)
      (byteLength front + byteLength (kept ++ cut)) = some cut :=
    sliceChars_eq_some_iff.2 ⟨front ++ kept, back, by simp, by simp, by simp [Nat.add_assoc]⟩
  have hbehind : dropBytes (front ++ (kept ++ cut) ++ back)
      (byteLength front + byteLength (kept ++ cut)) = some back :=
    dropBytes_eq_some_iff.2 ⟨front ++ (kept ++ cut), rfl, by simp⟩
  simp only [applyEdits, Edit.applyFrom, String.toList_ofList, Option.filter_none, Option.map_none,
    Option.getD_none, Option.map_some, Option.getD_some, hbefore, hcut, hbehind]
  rfl

/-- For a method name without white space, the length of a receiver is found exactly if the text
calls the method on a receiver of that many bytes. The length is then an offset between characters
with this receiver before it, and wherever the text stands in a file, an edit from there to the end
of the call keeps the receiver and nothing else of the call. -/
theorem receiverLength_iff_call (text method : String) (hne : method ≠ "")
    (hdark : ∀ c ∈ method.toList, isWhiteSpace c = false) (n : Nat) :
    (receiverLength? text method = some n ↔
      ∃ receiver, CallsOn receiver method.toList text.toList ∧ byteLength receiver = n) ∧
    (receiverLength? text method = some n → isBoundary text n = true) ∧
    ∀ receiver, CallsOn receiver method.toList text.toList → byteLength receiver = n →
      takeBytes text.toList n = some receiver ∧
      ∀ front back replacement : String,
        applyEdits (front ++ text ++ back)
            [⟨⟨byteLength front.toList + n, byteLength front.toList + byteLength text.toList⟩,
              replacement⟩] =
          .ok (front ++ String.ofList receiver ++ replacement ++ back) := by
  have htidy : TidyEnd method.toList := fun c hc => hdark c (List.mem_of_getLast? hc)
  have hiff : receiverLength? text method = some n ↔
      ∃ receiver, CallsOn receiver method.toList text.toList ∧ byteLength receiver = n := by
    rw [receiverLength?, Option.map_eq_some_iff]
    simp only [receiver?_eq_some_iff (by simpa using hne) htidy]
  -- A call begins with its receiver.
  have hsplit : ∀ receiver, CallsOn receiver method.toList text.toList →
      ∃ rest, text.toList = receiver ++ rest := by
    rintro receiver ⟨-, -, w₁, w₂, w₃, w₄, w₅, -, -, -, -, -, htext⟩
    exact ⟨_, htext.trans (by simp only [List.append_assoc]; rfl)⟩
  refine ⟨hiff, fun h => ?_, ?_⟩
  · obtain ⟨receiver, hcalls, hn⟩ := hiff.1 h
    obtain ⟨rest, hrest⟩ := hsplit receiver hcalls
    exact isBoundary_iff.2 ⟨receiver, rest, hrest, hn⟩
  · rintro receiver hcalls rfl
    obtain ⟨rest, hrest⟩ := hsplit receiver hcalls
    refine ⟨takeBytes_eq_some_iff.2 ⟨rest, hrest, rfl⟩, fun front back replacement => ?_⟩
    -- The texts are lists of characters for the lemma about edits.
    have htext : text = String.ofList (receiver ++ rest) := by rw [← hrest, String.ofList_toList]
    have hedit := applyEdits_rest front.toList receiver rest back.toList replacement
    simpa [htext, String.ofList_append, String.append_assoc] using hedit

/-- The receiver is itself a call of the method, and not all of its characters take one byte. The
outer call is the one that counts, and the length is in bytes. -/
theorem receiverLength_iff_call_repeated :
    let text := "é.len()\n  . len ( ) "
    "len" ≠ "" ∧ (∀ c ∈ "len".toList, isWhiteSpace c = false) ∧
      receiverLength? text "len" = some 8 ∧ isBoundary text 8 = true ∧
      applyEdits ("if " ++ text ++ "== 0") [⟨⟨3 + 8, 3 + 21⟩, ".is_empty() "⟩] =
        .ok "if é.len().is_empty() == 0" := by
  intro text
  have hdark : ∀ c ∈ "len".toList, isWhiteSpace c = false := by
    have hall : "len".toList.all (!isWhiteSpace ·) = true := by decide
    simpa using hall
  obtain ⟨hiff, hboundary, hcut⟩ := receiverLength_iff_call text "len" (by decide) hdark 8
  -- The inner call is a part of the receiver, and there is white space in all five places.
  have hcalls : CallsOn "é.len()".toList "len".toList text.toList :=
    ⟨by decide, by decide, "\n  ".toList, [' '], [' '], [' '], [' '], by decide, by decide,
      by decide, by decide, by decide, by decide +kernel⟩
  have hlength : receiverLength? text "len" = some 8 :=
    hiff.2 ⟨"é.len()".toList, hcalls, by decide +kernel⟩
  have hedit := (hcut "é.len()".toList hcalls (by decide +kernel)).2 "if " "== 0" ".is_empty() "
  rw [show byteLength "if ".toList = 3 by decide +kernel,
    show byteLength text.toList = 21 by decide +kernel] at hedit
  exact ⟨by decide, hdark, hlength, hboundary hlength, hedit.trans (congrArg _ (by decide +kernel))⟩

end Arborist.Rules
