import NetworkCa.Text.Utf8

namespace NetworkCa.Script

/-- A piece of a word. Quotes keep blanks and pattern marks in it as they are. -/
inductive Fragment where
  | text (quoted : Bool) (s : List Char)
  | parameter (quoted : Bool) (name : String)
  deriving Repr, DecidableEq

abbrev Word := List Fragment

inductive Redirection where
  | toFile (append : Bool) (target : Word)
  | toStream (stream : Nat)
  | input
  deriving Repr, DecidableEq

inductive Statement where
  | skip
  | simple (line : Nat) (assignments : List (String × Word)) (words : List Word)
    (redirections : List (Nat × Redirection))
  | sequence (first second : Statement)
  | both (first second : Statement)
  | either (first second : Statement)
  | negate (s : Statement)
  | conditional (test yes no : Statement)
  /-- The body once for every field of some words, or for every argument. -/
  | each (name : String) (items : Option (List Word)) (body : Statement)
  | whenMatches (subject : Word) (patterns : List Word) (body otherwise : Statement)
  deriving Repr

inductive Token where
  | word (line : Nat) (w : Word)
  | operator (s : String)
  | newline
  | redirect (stream : Nat) (append : Bool)
  | duplicate (stream target : Nat)
  | input
  deriving Repr, DecidableEq

def isBlank (c : Char) : Bool := c = ' ' || c = '\t'

def isMeta (c : Char) : Bool :=
  isBlank c || c = '\n' || c = ';' || c = '&' || c = '|' || c = '<' || c = '>' || c = '(' || c = ')'

def isDigit (c : Char) : Bool := '0' ≤ c && c ≤ '9'

def isNameStart (c : Char) : Bool := c.isAlpha || c = '_'

def isNameChar (c : Char) : Bool := isNameStart c || isDigit c

def parameter? : List Char → Option (String × List Char)
  | [] => none
  | c :: rest =>
    if isNameStart c then
      some (String.ofList (c :: rest.takeWhile isNameChar), rest.dropWhile isNameChar)
    else if isDigit c || "*@#?$!".toList.contains c then some (c.toString, rest)
    else if c = '\x7b' then
      match rest.dropWhile (· != '\x7d') with
      | _ :: after => some (String.ofList (rest.takeWhile (· != '\x7d')), after)
      | [] => none
    else none

def consChar (quoted : Bool) (c : Char) : Word → Word
  | .text q s :: rest =>
    if q = quoted then .text q (c :: s) :: rest else .text quoted [c] :: .text q s :: rest
  | w => .text quoted [c] :: w

def readQuoted : Nat → List Char → Word × List Char
  | 0, s => ([], s)
  | _ + 1, [] => ([], [])
  | _ + 1, '"' :: rest => ([.text true []], rest)
  | fuel + 1, '\\' :: '\n' :: rest => readQuoted fuel rest
  | fuel + 1, '\\' :: c :: rest =>
    let (w, rest) := readQuoted fuel rest
    if c = '"' || c = '\\' || c = '$' || c.toNat = 0x60 then (consChar true c w, rest)
    else (consChar true '\\' (consChar true c w), rest)
  | fuel + 1, '$' :: rest =>
    match parameter? rest with
    | some (name, rest) =>
      let (w, rest) := readQuoted fuel rest
      (.parameter true name :: w, rest)
    | none =>
      let (w, rest) := readQuoted fuel rest
      (consChar true '$' w, rest)
  | fuel + 1, c :: rest =>
    let (w, rest) := readQuoted fuel rest
    (consChar true c w, rest)

def readWord : Nat → List Char → Word × List Char
  | 0, s => ([], s)
  | _ + 1, [] => ([], [])
  | fuel + 1, '\\' :: '\n' :: rest => readWord fuel rest
  | fuel + 1, '\\' :: c :: rest =>
    let (w, rest) := readWord fuel rest
    (consChar true c w, rest)
  | fuel + 1, '\'' :: rest =>
    let (w, after) := readWord fuel ((rest.dropWhile (· != '\'')).drop 1)
    (.text true (rest.takeWhile (· != '\'')) :: w, after)
  | fuel + 1, '"' :: rest =>
    let (q, rest) := readQuoted fuel rest
    let (w, rest) := readWord fuel rest
    (q ++ w, rest)
  | fuel + 1, '$' :: rest =>
    match parameter? rest with
    | some (name, rest) =>
      let (w, rest) := readWord fuel rest
      (.parameter false name :: w, rest)
    | none =>
      let (w, rest) := readWord fuel rest
      (consChar false '$' w, rest)
  | fuel + 1, c :: rest =>
    if isMeta c then ([], c :: rest)
    else
      let (w, rest) := readWord fuel rest
      (consChar false c w, rest)

def digitOf (c : Char) : Nat := c.toNat - 48

def readRedirection (stream : Nat) : List Char → Token × List Char
  | '>' :: rest => (.redirect stream true, rest)
  | '&' :: c :: rest =>
    if isDigit c then (.duplicate stream (digitOf c), rest)
    else (.redirect stream false, c :: rest)
  | rest => (.redirect stream false, rest)

def readToken (line : Nat) (s : List Char) : Token × List Char :=
  match s with
  | ';' :: ';' :: rest => (.operator ";;", rest)
  | '&' :: '&' :: rest => (.operator "&&", rest)
  | '|' :: '|' :: rest => (.operator "||", rest)
  | ';' :: rest => (.operator ";", rest)
  | '&' :: rest => (.operator "&", rest)
  | '|' :: rest => (.operator "|", rest)
  | '(' :: rest => (.operator "(", rest)
  | ')' :: rest => (.operator ")", rest)
  | '>' :: rest => readRedirection 1 rest
  | '<' :: rest => (.input, rest)
  | c :: '>' :: rest =>
    if isDigit c then readRedirection (digitOf c) rest
    else
      let (w, rest) := readWord (s.length + 1) s
      (.word line w, rest)
  | s =>
    let (w, rest) := readWord (s.length + 1) s
    (.word line w, rest)

def tokens (line : Nat) : Nat → List Char → List Token
  | 0, _ => []
  | fuel + 1, s =>
    match s.dropWhile isBlank with
    | [] => []
    | '\n' :: rest => .newline :: tokens (line + 1) fuel rest
    | '\\' :: '\n' :: rest => tokens (line + 1) fuel rest
    | '#' :: rest => tokens line fuel (rest.dropWhile (· != '\n'))
    | s =>
      let (token, rest) := readToken line s
      token :: tokens line fuel rest

end NetworkCa.Script
