/-!
# Fixed symbols of the language

Keywords, operators and punctuation marks, each with its one spelling.
-/

namespace Slang

/-- A reserved word, named for its job. -/
inductive Keyword where
  | declare | become
  | when | elseWhen | otherwise
  | loop
  | attempt | rescue | throw
  | switch | caseLabel | defaultLabel
  | leave
  | choose | orElse
  | same | differ
  | print
  deriving Repr, DecidableEq

namespace Keyword

def spelling : Keyword → String
  | declare => "fanum_tax"
  | become => "be"
  | when => "bet"
  | elseWhen => "delulu"
  | otherwise => "cap"
  | loop => "vibe_check"
  | attempt => "sus"
  | rescue => "cringe"
  | throw => "yeet"
  | switch => "looksmaxxing"
  | caseLabel => "aura"
  | defaultLabel => "what_the_sigma"
  | leave => "dip"
  | choose => "wrizz"
  | orElse => "lrizz"
  | same => "fr"
  | differ => "cappin"
  | print => "alpha"

def all : List Keyword :=
  [declare, become, when, elseWhen, otherwise, loop, attempt, rescue, throw, switch, caseLabel,
    defaultLabel, leave, choose, orElse, same, differ, print]

/-- The keyword a word spells. -/
def ofWord? (word : String) : Option Keyword :=
  all.find? fun keyword ↦ keyword.spelling == word

@[simp] theorem ofWord?_spelling (keyword : Keyword) : ofWord? keyword.spelling = some keyword := by
  cases keyword <;> decide

theorem spelling_of_ofWord? {word : String} {keyword : Keyword} (h : ofWord? word = some keyword) :
    keyword.spelling = word := by
  simpa using List.find?_some h

end Keyword

inductive Operator where
  | plus | minus | times | divide | equals | less | greater | lessOrEqual | greaterOrEqual
  deriving Repr, DecidableEq

def Operator.spelling : Operator → String
  | plus => "+"
  | minus => "-"
  | times => "*"
  | divide => "/"
  | equals => "="
  | less => "<"
  | greater => ">"
  | lessOrEqual => "<="
  | greaterOrEqual => ">="

/-- A punctuation mark. -/
inductive Mark where
  | comma | colon | semicolon | openParen | closeParen | openBrace | closeBrace
  deriving Repr, DecidableEq

def Mark.character : Mark → Char
  | comma => ','
  | colon => ':'
  | semicolon => ';'
  | openParen => '('
  | closeParen => ')'
  | openBrace => '\x7b'
  | closeBrace => '\x7d'

inductive Symbol where
  | keyword (word : Keyword)
  | operator (sign : Operator)
  | mark (sign : Mark)
  deriving Repr, DecidableEq

def Symbol.spelling : Symbol → String
  | keyword word => word.spelling
  | operator sign => sign.spelling
  | mark sign => sign.character.toString

end Slang
