import ServiceCatalog.Toml.Reader

namespace ServiceCatalog

namespace Toml

def escape (long : Bool) (c : Char) : List Char :=
  match c with
  | '\x08' => ['\\', 'b']
  | '\t' => ['\\', 't']
  | '\n' => if long then ['\n'] else ['\\', 'n']
  | '\x0c' => ['\\', 'f']
  | '\r' => ['\\', 'r']
  | '"' => ['\\', '"']
  | '\\' => ['\\', '\\']
  | c =>
    if isPrintable c then [c]
    else ['\\', 'u', '0', '0', (hexDigit (c.toNat / 16)).toUpper, (hexDigit (c.toNat % 16)).toUpper]

def hasTripleQuote : List Char → Bool
  | '\x27' :: '\x27' :: '\x27' :: _ => true
  | _ :: r => hasTripleQuote r
  | [] => false

def isLiteral (cs : List Char) : Bool :=
  cs.any (fun c => c == '"' || c == '\\') && cs.all (fun c => c == '\n' || isPrintable c)
    && !hasTripleQuote cs && cs.getLast? != some '\x27'

def quote (cs : List Char) : List Char :=
  let long := cs.contains '\n'
  let quotes := if long then ['"', '"', '"'] else ['"']
  let start := if long then ['\n'] else []
  if isLiteral cs then
    let quotes := if long || cs.contains '\x27' then ['\x27', '\x27', '\x27'] else ['\x27']
    quotes ++ start ++ cs ++ quotes
  else quotes ++ start ++ cs.flatMap (escape long) ++ quotes

def Leaf.chars : Leaf → List Char
  | .text s => quote s.toList
  | .whole n => Digits.ofNat n

def Leaf.fits : Leaf → Bool
  | .text _ => true
  | .whole n => n < 0x8000000000000000

def line (key : String) (value : List Char) : List Char :=
  key.toList ++ [' ', '=', ' '] ++ value ++ ['\n']

/-- Writes fields with bare keys, one in each line, and reads documents. It has no words for what is wrong. -/
def codec : Codec where
  write? fields :=
    if fields.all (·.2.fits) then some (String.ofList (fields.flatMap fun f => line f.1 f.2.chars)) else none
  read s :=
    match Toml.read s.toList with
    | .ok t => .ok t
    | .error left => .error ⟨some left, ""⟩
  misfit _ _ := ""

end Toml

end ServiceCatalog
