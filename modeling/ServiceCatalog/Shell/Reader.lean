namespace ServiceCatalog.Shell

mutual

inductive Part where
  | text (s : List Char) (quoted : Bool)
  | param (name : String) (quoted : Bool)
  | output (c : Command) (quoted : Bool)

inductive Command where
  | skip
  | simple (assignments : List (String × List Part)) (words : List (List Part)) (silent : Bool)
  | both (first second : Command)
  | andThen (first second : Command)
  | orElse (first second : Command)
  | negate (c : Command)
  | loop (wanted : Bool) (condition body : Command)
  | branch (condition yes no : Command)
  | choose (word : List Part) (cases : List (List (List Part) × Command))

end

abbrev Word := List Part

def isNameStart (c : Char) : Bool := c.isAlpha || c == '_'

def isNameChar (c : Char) : Bool := c.isAlphanum || c == '_'

def isBreak (c : Char) : Bool := [' ', '\t', '\n', ';', '&', '|', '<', '>', '(', ')'].contains c

def skipBlanks : List Char → List Char
  | '\\' :: '\n' :: r => skipBlanks r
  | c :: r =>
    if c == ' ' || c == '\t' then skipBlanks r
    else if c == '#' then r.dropWhile (· != '\n')
    else c :: r
  | [] => []

def skipLines (fuel : Nat) (cs : List Char) : List Char :=
  match fuel, skipBlanks cs with
  | fuel + 1, '\n' :: r => skipLines fuel r
  | _, r => r

def reserved : List String :=
  ["then", "do", "done", "fi", "else", "elif", "esac", "\x7d"]

def plainWord (cs : List Char) : String × List Char :=
  let (w, r) := cs.span fun c => !isBreak c
  (String.ofList w, r)

def expect (word : String) (cs : List Char) : Option (List Char) :=
  let (w, r) := plainWord (skipLines cs.length cs)
  if w = word then some r else none

def startsWith (start : List Char) (cs : List Char) : Bool := start.isPrefixOf cs

def atEnd (cs : List Char) : Bool :=
  cs.isEmpty || startsWith [')'] cs || startsWith [';', ';'] cs || reserved.contains (plainWord cs).1

def assignment? : Word → Option (String × Word)
  | .text s false :: r =>
    let (name, rest) := s.span isNameChar
    match rest with
    | '=' :: value =>
      if name.head?.any isNameStart then
        some (String.ofList name, if value.isEmpty then r else .text value false :: r)
      else none
    | _ => none
  | _ => none

def redirection? (cs : List Char) : Option (Bool × List Char) :=
  let (digits, r) := cs.span Char.isDigit
  let output := digits.isEmpty || digits == ['1']
  match r with
  | '>' :: '>' :: r => some (output, r)
  | '>' :: '&' :: r => some (output, r)
  | '>' :: r => some (output, r)
  | '<' :: r => if digits.isEmpty || digits == ['0'] then some (false, r) else none
  | _ => none

mutual

def readWord : Nat → List Char → Option (Word × List Char)
  | 0, _ => none
  | fuel + 1, cs =>
    match cs with
    | [] => some ([], [])
    | '\x27' :: r =>
      match r.dropWhile (· != '\x27') with
      | [] => none
      | _ :: rest => do
        let (w, rest) ← readWord fuel rest
        return (.text (r.takeWhile (· != '\x27')) true :: w, rest)
    | '"' :: r => do
      let (parts, rest) ← readQuoted fuel r
      let (w, rest) ← readWord fuel rest
      return (.text [] true :: parts ++ w, rest)
    | '\\' :: '\n' :: r => readWord fuel r
    | '\\' :: c :: r => do
      let (w, rest) ← readWord fuel r
      return (.text [c] true :: w, rest)
    | '$' :: r => do
      let (part, rest) ← readParam fuel false r
      let (w, rest) ← readWord fuel rest
      return (part :: w, rest)
    | c :: r =>
      if isBreak c then some ([], c :: r)
      else
        let special (c : Char) : Bool := isBreak c || ['\x27', '"', '\\', '$'].contains c
        match readWord fuel (r.dropWhile fun c => !special c) with
        | some (w, rest) => some (.text (c :: r.takeWhile fun c => !special c) false :: w, rest)
        | none => none

def readQuoted : Nat → List Char → Option (Word × List Char)
  | 0, _ => none
  | fuel + 1, cs =>
    match cs with
    | [] => none
    | '"' :: r => some ([], r)
    | '\\' :: c :: r => do
      let (w, rest) ← readQuoted fuel r
      let text := if ['$', '"', '\\', '\x60'].contains c then [c] else if c == '\n' then [] else ['\\', c]
      return (.text text true :: w, rest)
    | '$' :: r => do
      let (part, rest) ← readParam fuel true r
      let (w, rest) ← readQuoted fuel rest
      return (part :: w, rest)
    | c :: r => do
      let (w, rest) ← readQuoted fuel r
      return (.text [c] true :: w, rest)

def readParam : Nat → Bool → List Char → Option (Part × List Char)
  | 0, _, _ => none
  | fuel + 1, quoted, cs =>
    match cs with
    | '{' :: r =>
      match r.dropWhile (· != '}') with
      | [] => none
      | _ :: rest => some (.param (String.ofList (r.takeWhile (· != '}'))) quoted, rest)
    | '(' :: r => do
      let (c, rest) ← readList fuel r
      match skipLines rest.length rest with
      | ')' :: rest => return (.output c quoted, rest)
      | _ => none
    | c :: r =>
      if isNameStart c then
        some (.param (String.ofList (c :: r.takeWhile isNameChar)) quoted, r.dropWhile isNameChar)
      else if c.isDigit || ['#', '@', '*', '?', '$', '!', '-'].contains c then
        some (.param (String.singleton c) quoted, r)
      else some (.text ['$'] quoted, cs)
    | [] => some (.text ['$'] quoted, [])

def readSimple : Nat → List (String × Word) → List Word → Bool → List Char →
    Option (Command × List Char)
  | 0, _, _, _, _ => none
  | fuel + 1, assignments, words, silent, cs =>
    let cs := skipBlanks cs
    match redirection? cs with
    | some (away, r) => do
      let (_, rest) ← readWord fuel (skipBlanks r)
      readSimple fuel assignments words (silent || away) rest
    | none => do
      let (w, rest) ← readWord fuel cs
      if w.isEmpty then return (.simple assignments words silent, rest)
      else match words.isEmpty, assignment? w with
        | true, some a => readSimple fuel (assignments ++ [a]) words silent rest
        | _, _ => readSimple fuel assignments (words ++ [w]) silent rest

def readBranches : Nat → Command → List Char → Option (Command × List Char)
  | 0, _, _ => none
  | fuel + 1, condition, cs => do
    let (yes, r) ← readList fuel (← expect "then" cs)
    let (w, rest) := plainWord (skipLines r.length r)
    match w with
    | "fi" => return (.branch condition yes .skip, rest)
    | "else" => do
      let (no, r) ← readList fuel rest
      return (.branch condition yes no, ← expect "fi" r)
    | "elif" => do
      let (next, r) ← readList fuel rest
      let (no, r) ← readBranches fuel next r
      return (.branch condition yes no, r)
    | _ => none

def readPatterns : Nat → List Char → Option (List Word × List Char)
  | 0, _ => none
  | fuel + 1, cs => do
    let (w, r) ← readWord fuel (skipBlanks cs)
    match skipBlanks r with
    | ')' :: r => return ([w], r)
    | '|' :: r => do
      let (ws, r) ← readPatterns fuel r
      return (w :: ws, r)
    | _ => none

def readCases : Nat → List Char → Option (List (List Word × Command) × List Char)
  | 0, _ => none
  | fuel + 1, cs =>
    let cs := skipLines cs.length cs
    let (w, rest) := plainWord cs
    if w = "esac" then some ([], rest)
    else do
      let (patterns, r) ← readPatterns fuel (if startsWith ['('] cs then cs.drop 1 else cs)
      let (c, r) ← readList fuel r
      let r := skipLines r.length r
      let (cases, r) ← readCases fuel (if startsWith [';', ';'] r then r.drop 2 else r)
      return ((patterns, c) :: cases, r)

def readCommand : Nat → List Char → Option (Command × List Char)
  | 0, _ => none
  | fuel + 1, cs =>
    let cs := skipBlanks cs
    let (w, rest) := plainWord cs
    match w with
    | "!" => do
      let (c, r) ← readCommand fuel rest
      return (.negate c, r)
    | "\x7b" => do
      let (c, r) ← readList fuel rest
      return (c, ← expect "\x7d" r)
    | "while" | "until" => do
      let (condition, r) ← readList fuel rest
      let (body, r) ← readList fuel (← expect "do" r)
      return (.loop (w == "while") condition body, ← expect "done" r)
    | "if" => do
      let (condition, r) ← readList fuel rest
      readBranches fuel condition r
    | "case" => do
      let (word, r) ← readWord fuel (skipBlanks rest)
      let (cases, r) ← readCases fuel (← expect "in" r)
      return (.choose word cases, r)
    | _ =>
      match cs with
      | '(' :: r => do
        let (c, r) ← readList fuel r
        match skipLines r.length r with
        | ')' :: r => return (c, r)
        | _ => none
      | _ => readSimple fuel [] [] false cs

def readChain : Nat → Command → List Char → Option (Command × List Char)
  | 0, _, _ => none
  | fuel + 1, first, cs =>
    match skipBlanks cs with
    | '&' :: '&' :: r => do
      let (c, r) ← readCommand fuel (skipLines r.length r)
      readChain fuel (.andThen first c) r
    | '|' :: '|' :: r => do
      let (c, r) ← readCommand fuel (skipLines r.length r)
      readChain fuel (.orElse first c) r
    | r => some (first, r)

def readList : Nat → List Char → Option (Command × List Char)
  | 0, _ => none
  | fuel + 1, cs =>
    let cs := skipLines cs.length cs
    if atEnd cs then some (.skip, cs)
    else do
      let (first, r) ← readCommand fuel cs
      let (c, r) ← readChain fuel first r
      let (more, r) ← match skipBlanks r with
        | ';' :: ';' :: _ => some (Command.skip, r)
        | ';' :: r | '\n' :: r | '&' :: r => readList fuel r
        | r => some (.skip, r)
      return (.both c more, r)

end

def readScript (text : String) : Option Command := do
  let cs := text.toList
  let (c, r) ← readList (8 * cs.length + 8) cs
  if (skipLines r.length r).isEmpty then return c else none

end ServiceCatalog.Shell
