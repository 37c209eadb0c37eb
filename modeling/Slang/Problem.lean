import Slang.Token.Basic

/-!
# Problems of a source text

One constructor for each thing that can be wrong with a source text, and its wording. Problems do
not say where they occur; `Diagnostic` adds the place.
-/

namespace Slang

/-- The statements that end in a semicolon. -/
inductive Terminated where
  | expression | definition | print | throw | leave
  deriving Repr, DecidableEq

def Terminated.description : Terminated → String
  | expression => "expression"
  | definition => Keyword.declare.spelling ++ " definition"
  | print => Keyword.print.spelling ++ " statement"
  | throw => Keyword.throw.spelling ++ " statement"
  | leave => Keyword.leave.spelling ++ " statement"

inductive Problem where
  /-- A character that starts no token. -/
  | unexpectedCharacter (character : Char)
  | unclosedComment
  | unclosedString (quote : Char)
  /-- A token that cannot begin an expression. -/
  | unexpectedToken (kind : TokenKind)
  | unclosedGroup
  | unclosedCall
  | chooseWithoutEquals
  | chooseWithoutComma
  | chooseWithoutOrElse
  | orElseWithoutEquals
  /-- An assignment to something other than a variable. -/
  | assignmentTarget
  | unterminated (statement : Terminated)
  | declarationInBranch
  | declarationWithoutName
  | declarationWithoutBecome
  /-- The text ends where a branch needs its statement. -/
  | missingStatement
  | unopenedCondition
  | unclosedCondition
  | unopenedBody
  | unclosedBody
  | unopenedSwitch
  | unclosedSwitch
  | repeatedDefault
  | defaultWithoutColon
  | caseWithoutColon
  | declarationInArm
  | malformedRescue
  /-- Anything a host program has to say. -/
  | note (text : String)
  deriving Repr, DecidableEq

namespace Problem

def message : Problem → String
  | unexpectedCharacter character => "Unexpected character " ++ character.toString
  | unclosedComment => "Unterminated block comment"
  | unclosedString quote => "Expected closing quote " ++ quote.toString ++ " to string"
  | unexpectedToken kind => "Unexpected token " ++ kind.description
  | unclosedGroup => "Expected ) after parenthesis grouping"
  | unclosedCall => "Expected ) after function call"
  | chooseWithoutEquals => "Expected equals sign after wrizz (wrizz =)"
  | chooseWithoutComma => "Expected comma (, lrizz =) after wrizz expression"
  | chooseWithoutOrElse => "Expected lrizz (, lrizz =) after wrizz expression"
  | orElseWithoutEquals => "Expected equals sign after lrizz (lrizz =)"
  | assignmentTarget => "\"be\" token can only be applied to variables"
  | unterminated statement => "Expected ; after " ++ statement.description
  | declarationInBranch => "May not have variable definition in branch block"
  | declarationWithoutName => "Expected variable name after fanum_tax"
  | declarationWithoutBecome => "Expected be after fanum_tax definition"
  | missingStatement => "Expected statement before end of input"
  | unopenedCondition => "Expected ( to begin condition"
  | unclosedCondition => "Expected ) to close condition"
  | unopenedBody => "Expected \x7b to start body"
  | unclosedBody => "Expected \x7d to end body"
  | unopenedSwitch => "Expected \x7b to begin looksmaxxing statement"
  | unclosedSwitch => "Expected \x7d to end looksmaxxing statement"
  | repeatedDefault => "Default was already specified for this looksmaxxing statement"
  | defaultWithoutColon => "Expected : after what_the_sigma"
  | caseWithoutColon => "Expected colon to start aura body"
  | declarationInArm =>
    "Cannot declare variable in non-block scope of looksmaxxing aura statement"
  | malformedRescue => "Expected cringe (err) \x7b ... \x7d block after sus block"
  | note text => text

/-- The problems that are found before tokens are put together. -/
def isLexical : Problem → Bool
  | unexpectedCharacter _ | unclosedComment | unclosedString _ => true
  | _ => false

end Problem

end Slang
