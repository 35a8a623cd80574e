import ServiceCatalog.Decimal.Shortest
import ServiceCatalog.Json.Basic

namespace ServiceCatalog

namespace Json

def escape (c : Char) : List Char :=
  match c with
  | '"' => ['\\', '"']
  | '\\' => ['\\', '\\']
  | '\x08' => ['\\', 'b']
  | '\t' => ['\\', 't']
  | '\n' => ['\\', 'n']
  | '\x0c' => ['\\', 'f']
  | '\r' => ['\\', 'r']
  | c =>
    if c.toNat < 0x20 then ['\\', 'u', '0', '0', hexDigit (c.toNat / 16), hexDigit (c.toNat % 16)]
    else [c]

def quote (s : String) : List Char := '"' :: (s.toList.flatMap escape ++ ['"'])

mutual

def compactChars : Json → List Char
  | .null => "null".toList
  | .bool b => (if b then "true" else "false").toList
  | .int n => Digits.ofInt n
  | .float x => x.jsonText
  | .str s => quote s
  | .arr items => '[' :: (compactItems items ++ [']'])
  | .obj fields => '{' :: (compactFields fields ++ ['}'])
  | .illegible => "null".toList

def compactItems : List Json → List Char
  | [] => []
  | [j] => j.compactChars
  | j :: r => j.compactChars ++ ',' :: compactItems r

def compactFields : List (String × Json) → List Char
  | [] => []
  | [(k, j)] => quote k ++ ':' :: j.compactChars
  | (k, j) :: r => quote k ++ ':' :: (j.compactChars ++ ',' :: compactFields r)

end

def compact (j : Json) : String := String.ofList j.compactChars

def newline (level : Nat) : List Char := '\n' :: List.replicate (2 * level) ' '

mutual

def prettyChars (level : Nat) : Json → List Char
  | .arr [] => ['[', ']']
  | .obj [] => ['{', '}']
  | .arr items => '[' :: (prettyItems (level + 1) items ++ newline level ++ [']'])
  | .obj fields => '{' :: (prettyFields (level + 1) fields ++ newline level ++ ['}'])
  | .null => "null".toList
  | .bool b => (if b then "true" else "false").toList
  | .int n => Digits.ofInt n
  | .float x => x.jsonText
  | .str s => quote s
  | .illegible => "null".toList

def prettyItems (level : Nat) : List Json → List Char
  | [] => []
  | [j] => newline level ++ j.prettyChars level
  | j :: r => newline level ++ j.prettyChars level ++ ',' :: prettyItems level r

def prettyFields (level : Nat) : List (String × Json) → List Char
  | [] => []
  | [(k, j)] => newline level ++ quote k ++ ':' :: ' ' :: j.prettyChars level
  | (k, j) :: r =>
    newline level ++ quote k ++ ':' :: ' ' :: (j.prettyChars level ++ ',' :: prettyFields level r)

end

def pretty (j : Json) : String := String.ofList (j.prettyChars 0)

end Json

end ServiceCatalog
