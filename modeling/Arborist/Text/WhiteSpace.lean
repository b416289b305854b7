import Arborist.Text.CodePoints

/-!
# `Arborist.Text.WhiteSpace`: trimming and cutting

White space is the Unicode property `White_Space`. Trimming works on lists of characters, and so do
the cuts that the readers of directives, templates and invocations are made of: removing a known
beginning or end, and splitting at a character.
-/

set_option autoImplicit false

namespace Arborist.Text

/-- The code points with the property `White_Space`. -/
def whiteSpacePoints : CodePoints :=
  [(0x9, 0xD), (0x20, 0x20), (0x85, 0x85), (0xA0, 0xA0), (0x1680, 0x1680), (0x2000, 0x200A),
   (0x2028, 0x2029), (0x202F, 0x202F), (0x205F, 0x205F), (0x3000, 0x3000)]

def isWhiteSpace (c : Char) : Bool := whiteSpacePoints.has c

/-- `cs` without the longest run at its end that satisfies `p`. -/
def dropEndWhile (p : Char → Bool) (cs : List Char) : List Char :=
  (cs.reverse.dropWhile p).reverse

def trimStart (cs : List Char) : List Char := cs.dropWhile isWhiteSpace

def trimEnd (cs : List Char) : List Char := dropEndWhile isWhiteSpace cs

def trim (cs : List Char) : List Char := trimEnd (trimStart cs)

/-- `cs` without `beginning` at its front, if it starts with it. -/
def dropStart? : List Char → List Char → Option (List Char)
  | [], cs => some cs
  | b :: bs, c :: cs => if b = c then dropStart? bs cs else none
  | _ :: _, [] => none

/-- `cs` without `ending` at its back, if it ends with it. -/
def dropEnd? (ending cs : List Char) : Option (List Char) :=
  (dropStart? ending.reverse cs.reverse).map List.reverse

/-- `cs` without any number of times `ending` at its back; `fuel` bounds the number. -/
def dropEndTimes (ending : List Char) : (fuel : Nat) → List Char → List Char
  | 0, cs => cs
  | fuel + 1, cs =>
    match dropEnd? ending cs with
    | some rest => dropEndTimes ending fuel rest
    | none => cs

/-- `cs` without `ending` at its back, as often as it is there. -/
def dropEndAll (ending cs : List Char) : List Char := dropEndTimes ending cs.length cs

/-- `middle` occurs somewhere in the text. -/
def occursIn (middle : List Char) : List Char → Bool
  | [] => middle.isEmpty
  | c :: cs => (dropStart? middle (c :: cs)).isSome || occursIn middle cs

/-- The text without the occurrences of `middle`, looked for from left to right behind the next
`skip` characters, which are left out. -/
def removeFrom (middle : List Char) : (skip : Nat) → List Char → List Char
  | _, [] => []
  | skip + 1, _ :: cs => removeFrom middle skip cs
  | 0, c :: cs =>
    if (dropStart? middle (c :: cs)).isSome then removeFrom middle (middle.length - 1) cs
    else c :: removeFrom middle 0 cs

/-- The text without the occurrences of `middle`. -/
def removeAll (middle cs : List Char) : List Char := removeFrom middle 0 cs

/-- What stands before and after the first `sep`. -/
def splitFirst? (sep : Char) : List Char → Option (List Char × List Char)
  | [] => none
  | c :: cs =>
    if c = sep then some ([], cs)
    else (splitFirst? sep cs).map fun (before, after) => (c :: before, after)

/-- The pieces between the occurrences of `sep`; one more than there are occurrences. -/
def splitAll (sep : Char) : List Char → List (List Char)
  | [] => [[]]
  | c :: cs =>
    if c = sep then [] :: splitAll sep cs
    else match splitAll sep cs with
      | [] => [[c]]
      | piece :: pieces => (c :: piece) :: pieces

/-- The lines of `cs`. A line ends before its line feed and before one carriage return that stands
in front of it; after a final line feed there is no further line. -/
def lines (cs : List Char) : List (List Char) :=
  match (splitAll '\n' cs).reverse with
  | [] => []
  | last :: ended =>
    let ended := ended.reverse.map fun line => (dropEnd? ['\r'] line).getD line
    if last.isEmpty then ended else ended ++ [last]

end Arborist.Text
