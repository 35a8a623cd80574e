import ServiceCatalog.Text.Basic

/-!
The four quoted forms of a text: with or without escapes, in one line or in several. A body ends at
its closing quotes, and up to two more quotes may stand before those that close several lines.
-/

namespace ServiceCatalog

namespace Toml

abbrev Reading := Except (List Char)

def Reading.after (front : List Char) :
    Reading (List Char × List Char) → Reading (List Char × List Char)
  | .ok (cs, rest) => .ok (front ++ cs, rest)
  | .error left => .error left

def isPrintable (c : Char) : Bool := c == '\t' || (0x20 ≤ c.toNat && c.toNat != 0x7F)

def isSpace (c : Char) : Bool := c == ' ' || c == '\t'

def skipSpace (cs : List Char) : List Char := cs.dropWhile isSpace

def newline? : List Char → Option (List Char)
  | '\n' :: r => some r
  | '\r' :: '\n' :: r => some r
  | _ => none

def escaped? : Char → Option Char
  | 'b' => some '\x08'
  | 't' => some '\t'
  | 'n' => some '\n'
  | 'f' => some '\x0c'
  | 'r' => some '\r'
  | '"' => some '"'
  | '\\' => some '\\'
  | _ => none

def scalar? (digits : List Char) : Option Char := do
  let n ← digits.foldlM (fun n c => (hexValue? c).map (16 * n + ·)) 0
  if n < 0xD800 || (0xE000 ≤ n && n < 0x110000) then return Char.ofNat n else none

def basicBody : List Char → Reading (List Char × List Char)
  | [] => .error []
  | '"' :: r => .ok ([], r)
  | '\\' :: 'u' :: a :: b :: c :: d :: r =>
    match scalar? [a, b, c, d] with
    | some ch => (basicBody r).after [ch]
    | none => .error (a :: b :: c :: d :: r)
  | '\\' :: 'U' :: a :: b :: c :: d :: e :: f :: g :: h :: r =>
    match scalar? [a, b, c, d, e, f, g, h] with
    | some ch => (basicBody r).after [ch]
    | none => .error (a :: b :: c :: d :: e :: f :: g :: h :: r)
  | '\\' :: c :: r =>
    match escaped? c with
    | some ch => (basicBody r).after [ch]
    | none => .error r
  | c :: r => if isPrintable c && c != '\\' then (basicBody r).after [c] else .error (c :: r)

def literalBody : List Char → Reading (List Char × List Char)
  | [] => .error []
  | '\x27' :: r => .ok ([], r)
  | c :: r => if isPrintable c then (literalBody r).after [c] else .error (c :: r)

/-- The body of a text in triple double quotes. While `folding`, blanks and line ends are passed over,
as they are after a backslash at the end of a line. -/
def longBasicBody (folding : Bool) : List Char → Reading (List Char × List Char)
  | [] => .error []
  | '"' :: '"' :: '"' :: '"' :: '"' :: r => .ok (['"', '"'], r)
  | '"' :: '"' :: '"' :: '"' :: r => .ok (['"'], r)
  | '"' :: '"' :: '"' :: r => .ok ([], r)
  | '\r' :: '\n' :: r =>
    if folding then longBasicBody true r else (longBasicBody false r).after ['\n']
  | '\\' :: 'u' :: a :: b :: c :: d :: r =>
    match scalar? [a, b, c, d] with
    | some ch => (longBasicBody false r).after [ch]
    | none => .error (a :: b :: c :: d :: r)
  | '\\' :: 'U' :: a :: b :: c :: d :: e :: f :: g :: h :: r =>
    match scalar? [a, b, c, d, e, f, g, h] with
    | some ch => (longBasicBody false r).after [ch]
    | none => .error (a :: b :: c :: d :: e :: f :: g :: h :: r)
  | '\\' :: c :: r =>
    match escaped? c with
    | some ch => (longBasicBody false r).after [ch]
    | none =>
      if (newline? (skipSpace (c :: r))).isSome then longBasicBody true (c :: r) else .error r
  | c :: r =>
    if folding && (isSpace c || c == '\n') then longBasicBody true r
    else if c == '\n' || (isPrintable c && c != '\\') then (longBasicBody false r).after [c]
    else .error (c :: r)

def longLiteralBody : List Char → Reading (List Char × List Char)
  | [] => .error []
  | '\x27' :: '\x27' :: '\x27' :: '\x27' :: '\x27' :: r => .ok (['\x27', '\x27'], r)
  | '\x27' :: '\x27' :: '\x27' :: '\x27' :: r => .ok (['\x27'], r)
  | '\x27' :: '\x27' :: '\x27' :: r => .ok ([], r)
  | '\r' :: '\n' :: r => (longLiteralBody r).after ['\n']
  | c :: r =>
    if c == '\n' || isPrintable c then (longLiteralBody r).after [c] else .error (c :: r)

def trimNewline (cs : List Char) : List Char := (newline? cs).getD cs

def quoted? : List Char → Option (Reading (List Char × List Char))
  | '"' :: '"' :: '"' :: r => some (longBasicBody false (trimNewline r))
  | '\x27' :: '\x27' :: '\x27' :: r => some (longLiteralBody (trimNewline r))
  | '"' :: r => some (basicBody r)
  | '\x27' :: r => some (literalBody r)
  | _ => none

end Toml

end ServiceCatalog
