import NetworkCa.Script.Syntax

namespace NetworkCa.Script

abbrev Parser := StateT (List Token) Option

namespace Parser

def peek : Parser (Option Token) := do return (← get).head?

def drop : Parser Unit := modify (·.drop 1)

def keywordOf : Token → Option String
  | .word _ [.text false s] => some (String.ofList s)
  | .operator s => some s
  | _ => none

def peekKeyword : Parser (Option String) := do return (← peek).bind keywordOf

def expect (keyword : String) : Parser Unit := do
  if (← peekKeyword) = some keyword then drop else failure

def isSeparator : Token → Bool
  | .newline => true
  | .operator s => s = ";" || s = "&"
  | _ => false

def skipSeparators : Parser Unit := modify (·.dropWhile isSeparator)

def skipNewlines : Parser Unit := modify (·.dropWhile (· == .newline))

def word : Parser Word := do
  match ← peek with
  | some (.word _ w) => drop; return w
  | _ => failure

def words : Nat → Parser (List Word)
  | 0 => return []
  | fuel + 1 => do
    match ← peek with
    | some (.word _ w) => drop; return w :: (← words fuel)
    | _ => return []

def assignment? : Word → Option (String × Word)
  | .text false s :: rest =>
    let name := s.takeWhile (· != '=')
    match name, s.dropWhile (· != '=') with
    | c :: cs, _ :: value =>
      if isNameStart c && cs.all isNameChar then
        some (String.ofList (c :: cs), if value.isEmpty then rest else .text false value :: rest)
      else none
    | _, _ => none
  | _ => none

structure Simple where
  assignments : List (String × Word) := []
  words : List Word := []
  redirections : List (Nat × Redirection) := []

def simpleParts (parts : Simple) : Nat → Parser Simple
  | 0 => return parts
  | fuel + 1 => do
    match ← peek with
    | some (.word _ w) =>
      drop
      match assignment? w with
      | some a =>
        if parts.words.isEmpty then
          simpleParts { parts with assignments := parts.assignments ++ [a] } fuel
        else simpleParts { parts with words := parts.words ++ [w] } fuel
      | none => simpleParts { parts with words := parts.words ++ [w] } fuel
    | some (.redirect stream append) =>
      drop
      let target ← word
      simpleParts
        { parts with redirections := parts.redirections ++ [(stream, .toFile append target)] } fuel
    | some (.duplicate stream target) =>
      drop
      simpleParts
        { parts with redirections := parts.redirections ++ [(stream, .toStream target)] } fuel
    | some .input =>
      drop
      let _ ← word
      simpleParts { parts with redirections := parts.redirections ++ [(0, .input)] } fuel
    | _ => return parts

def simple : Parser Statement := do
  let line := match ← peek with
    | some (.word line _) => line
    | _ => 0
  let before := (← get).length
  let parts ← simpleParts {} before
  if (← get).length = before then failure
  return .simple line parts.assignments parts.words parts.redirections

def patterns : Nat → Parser (List Word)
  | 0 => failure
  | fuel + 1 => do
    let w ← word
    match ← peekKeyword with
    | some "|" => drop; return w :: (← patterns fuel)
    | some ")" => drop; return [w]
    | _ => failure

def isEnd (keyword : Option String) : Bool :=
  match keyword with
  | some k => ["then", "elif", "else", "fi", "do", "done", "esac", ";;", ")", "\x7d"].contains k
  | none => false

mutual

def list : Nat → Parser Statement
  | 0 => failure
  | fuel + 1 => do
    skipSeparators
    if (← get).isEmpty || isEnd (← peekKeyword) then return .skip
    let first ← chain fuel
    return .sequence first (← list fuel)

def chain : Nat → Parser Statement
  | 0 => failure
  | fuel + 1 => do chainFrom (← statement fuel) fuel

def chainFrom (first : Statement) : Nat → Parser Statement
  | 0 => failure
  | fuel + 1 => do
    match ← peekKeyword with
    | some "&&" => drop; skipNewlines; chainFrom (.both first (← statement fuel)) fuel
    | some "||" => drop; skipNewlines; chainFrom (.either first (← statement fuel)) fuel
    | _ => return first

def statement : Nat → Parser Statement
  | 0 => failure
  | fuel + 1 => do
    match ← peekKeyword with
    | some "!" => drop; return .negate (← statement fuel)
    | some "if" => drop; conditional fuel
    | some "for" => drop; loop fuel
    | some "case" => drop; choice fuel
    | some "\x7b" => drop; let body ← list fuel; expect "\x7d"; return body
    | _ => simple

def conditional : Nat → Parser Statement
  | 0 => failure
  | fuel + 1 => do
    let test ← list fuel
    expect "then"
    let yes ← list fuel
    match ← peekKeyword with
    | some "elif" => drop; return .conditional test yes (← conditional fuel)
    | some "else" => drop; let no ← list fuel; expect "fi"; return .conditional test yes no
    | some "fi" => drop; return .conditional test yes .skip
    | _ => failure

def loop : Nat → Parser Statement
  | 0 => failure
  | fuel + 1 => do
    match ← word with
    | [.text false name] =>
      let items ← if (← peekKeyword) = some "in" then drop; some <$> words fuel else pure none
      skipSeparators
      expect "do"
      let body ← list fuel
      expect "done"
      return .each (String.ofList name) items body
    | _ => failure

def choice : Nat → Parser Statement
  | 0 => failure
  | fuel + 1 => do
    let subject ← word
    skipNewlines
    expect "in"
    arms subject fuel

def arms (subject : Word) : Nat → Parser Statement
  | 0 => failure
  | fuel + 1 => do
    skipNewlines
    match ← peekKeyword with
    | some "esac" => drop; return .skip
    | k =>
      if k = some "(" then drop
      let accepted ← patterns fuel
      let body ← list fuel
      if (← peekKeyword) = some ";;" then drop
      return .whenMatches subject accepted body (← arms subject fuel)

end

end Parser

def parse? (text : String) : Option Statement :=
  let s := text.toList
  let tokens := tokens 1 (s.length + 1) s
  match Parser.list (8 * tokens.length + 8) tokens with
  | some (statement, []) => some statement
  | _ => none

end NetworkCa.Script
