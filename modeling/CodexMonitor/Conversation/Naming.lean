import CodexMonitor.Lib.Text

namespace CodexMonitor.Conversation

open Text

/-!
# Conversation — names of threads

`threadNaming.ts` and the rename texts of `threadReducer/common.ts`: a thread with a name that
nobody chose is named after its first message.
-/

def isDigit (c : Char) : Bool := '0' ≤ c && c ≤ '9'

def isHexDigit (c : Char) : Bool := isDigit c || ('a' ≤ c && c ≤ 'f') || ('A' ≤ c && c ≤ 'F')

/-! ### Texts for names -/

/-- What follows an image marker at the start of a text: `/^\[image(?: x\d+)?\]/i`. -/
def behindImage (text : Text) : Option Text :=
  if eqIgnoreAsciiCase (text.take 6) "[image".toList then
    match text.drop 6 with
    | ']' :: rest => some rest
    | ' ' :: x :: count =>
        match count.dropWhile isDigit with
        | ']' :: rest =>
            if (x = 'x' ∨ x = 'X') ∧ (count.head?.any isDigit) then some rest else none
        | _ => none
    | _ => none
  else none

/-- Every image marker becomes a blank; `turns` bounds the steps. -/
def replaceImages : Nat → Text → Text
  | 0, _ | _, [] => []
  | turns + 1, c :: cs =>
      match behindImage (c :: cs) with
      | some rest => ' ' :: replaceImages turns rest
      | none => c :: replaceImages turns cs

def isSkillChar (c : Char) : Bool :=
  isDigit c || ('a' ≤ c && c ≤ 'z') || ('A' ≤ c && c ≤ 'Z') || c = '_' || c = '-'

/-- What follows a skill at the start of a text: `/^\$[A-Za-z0-9_-]+(?=\s|$)/`. -/
def behindSkill (text : Text) : Option Text :=
  match text with
  | '$' :: rest =>
      let after := rest.dropWhile isSkillChar
      if rest.head?.any isSkillChar && after.head?.all isJsWhitespace then some after else none
  | _ => none

/-- Every skill, with the blank before it, becomes a blank. -/
def replaceSkills (atStart : Bool) : Nat → Text → Text
  | 0, _ | _, [] => []
  | turns + 1, c :: cs =>
      match if atStart then behindSkill (c :: cs) else none with
      | some rest => ' ' :: replaceSkills false turns rest
      | none =>
          match if isJsWhitespace c then behindSkill cs else none with
          | some rest => ' ' :: replaceSkills false turns rest
          | none => c :: replaceSkills false turns cs

/-- `replace(/\s+/g, " ")` -/
def collapseBlanks (inBlank : Bool) : Text → Text
  | [] => []
  | c :: cs =>
      if isJsWhitespace c then
        if inBlank then collapseBlanks true cs else ' ' :: collapseBlanks true cs
      else c :: collapseBlanks false cs

def extractRenameText (text : Text) : Text :=
  let withoutImages := replaceImages text.length text
  let withoutSkills := replaceSkills true withoutImages.length withoutImages
  (collapseBlanks false withoutSkills).jsTrim

/-! ### Names -/

/-- A name cut to 38 characters. -/
def cutName (name : Text) : Text :=
  if 38 < name.utf16Len then name.utf16Take 38 ++ "…".toList else name

def clampThreadName (name : Text) : Option Text :=
  let trimmed := (collapseBlanks false name).jsTrim
  if trimmed.isEmpty then none else some (cutName trimmed)

def isShortHex (name : Text) : Bool := 4 ≤ name.length && name.length ≤ 8 && name.all isHexDigit

def isUuidLike (name : Text) : Bool :=
  let parts := splitOn '-' name
  parts.map List.length = [8, 4, 4, 4, 12] && parts.all (·.all isHexDigit)

def looksAutoGeneratedThreadName (name : Text) : Bool :=
  let trimmed := name.jsTrim
  trimmed = "New Agent".toList || startsWith trimmed "Agent ".toList || isShortHex trimmed ||
    isUuidLike trimmed

end CodexMonitor.Conversation
