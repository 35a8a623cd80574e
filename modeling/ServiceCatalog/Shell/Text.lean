import ServiceCatalog.Json.Reader
import ServiceCatalog.Text.Basic

namespace ServiceCatalog.Shell

def isFieldBlank (c : Char) : Bool := c == ' ' || c == '\t' || c == '\n'

def fields (cs : List Char) : List (List Char) :=
  (cs.foldr (fun c (acc : List (List Char)) =>
    if isFieldBlank c then [] :: acc
    else match acc with
      | [] => [[c]]
      | f :: r => (c :: f) :: r) [[]]).filter fun f => !f.isEmpty

inductive Glob where
  | char (c : Char)
  | any
  | one

def globs (text : List Char) (quoted : Bool) : List Glob :=
  text.map fun c =>
    if quoted then .char c
    else if c == '*' then .any
    else if c == '?' then .one
    else .char c

def globMatches : List Glob → List Char → Bool
  | [], cs => cs.isEmpty
  | .char c :: p, cs =>
    match cs with
    | d :: r => c == d && globMatches p r
    | [] => false
  | .one :: p, cs =>
    match cs with
    | _ :: r => globMatches p r
    | [] => false
  | .any :: p, [] => globMatches p []
  | .any :: p, c :: r => globMatches p (c :: r) || globMatches (.any :: p) r
termination_by p cs => (p.length, cs.length)

def octal : Nat → Nat → List Char → Nat × List Char
  | 0, v, cs => (v, cs)
  | n + 1, v, cs =>
    match cs with
    | c :: r => if '0' ≤ c ∧ c ≤ '7' then octal n (8 * v + (c.toNat - '0'.toNat)) r else (v, cs)
    | [] => (v, [])

def escapeOf : Char → Option Char
  | 'a' => some '\x07'
  | 'b' => some '\x08'
  | 'f' => some '\x0c'
  | 'n' => some '\n'
  | 'r' => some '\r'
  | 't' => some '\t'
  | 'v' => some '\x0b'
  | '\\' => some '\\'
  | _ => none

def readEscape : List Char → List Char × List Char
  | [] => (['\\'], [])
  | c :: r =>
    match escapeOf c with
    | some e => ([e], r)
    | none =>
      if '0' ≤ c ∧ c ≤ '7' then
        let (v, rest) := octal 3 0 (c :: r)
        ([Char.ofNat (v % 256)], rest)
      else (['\\', c], r)

def unescape (fuel : Nat) (cs : List Char) : List Char :=
  match fuel, cs with
  | fuel + 1, '\\' :: r =>
    let (e, rest) := readEscape r
    e ++ unescape fuel rest
  | fuel + 1, c :: r => c :: unescape fuel r
  | _, _ => []

def formatOnce (fuel : Nat) (format : List Char) (args : List (List Char)) :
    List Char × List (List Char) :=
  match fuel, format with
  | fuel + 1, '\\' :: r =>
    let (e, rest) := readEscape r
    let (out, left) := formatOnce fuel rest args
    (e ++ out, left)
  | fuel + 1, '%' :: c :: r =>
    if c == '%' then
      let (out, left) := formatOnce fuel r args
      ('%' :: out, left)
    else
      let arg := args.headD []
      let text := match c with
        | 'b' => unescape arg.length arg
        | 'c' => arg.take 1
        | 'd' | 'i' | 'u' => if arg.isEmpty then ['0'] else arg
        | _ => arg
      let (out, left) := formatOnce fuel r (args.drop 1)
      (text ++ out, left)
  | fuel + 1, c :: r =>
    let (out, left) := formatOnce fuel r args
    (c :: out, left)
  | _, _ => ([], args)

def formatAll (fuel : Nat) (format : List Char) (args : List (List Char)) : List Char :=
  let (out, left) := formatOnce format.length format args
  match fuel with
  | fuel + 1 =>
    if left.isEmpty || left.length = args.length then out else out ++ formatAll fuel format left
  | 0 => out

def splitAmong (cs : List Char) : Nat → List (List Char)
  | 0 => []
  | 1 => [((cs.dropWhile isFieldBlank).reverse.dropWhile isFieldBlank).reverse]
  | n + 1 =>
    let cs := cs.dropWhile isFieldBlank
    cs.takeWhile (fun c => !isFieldBlank c) :: splitAmong (cs.dropWhile fun c => !isFieldBlank c) n

def dropBackslashes : List Char → List Char
  | '\\' :: c :: r => c :: dropBackslashes r
  | '\\' :: [] => []
  | c :: r => c :: dropBackslashes r
  | [] => []

end ServiceCatalog.Shell
