import ServiceCatalog.Json.Reader
import ServiceCatalog.Text.Basic

namespace ServiceCatalog

structure Program (τ : Type) where
  start : String × Option τ
  step : τ → String → String × Option τ

namespace Program

/-- A program that answers line after line with texts given beforehand, or exits where there is none.
It is silent after the last. -/
def ofScript (script : List (Option (List String))) : Program (List (Option (List String))) where
  start := ("", some script)
  step
    | [], _ => ("", some [])
    | none :: _, _ => ("", none)
    | some lines :: r, _ => (String.join (lines.map (· ++ "\n")), some r)

end Program

namespace Message

def splitLines : List Char → List (List Char) × List Char
  | [] => ([], [])
  | '\n' :: r =>
    let (lines, rest) := splitLines r
    ([] :: lines, rest)
  | c :: r =>
    match splitLines r with
    | ([], rest) => ([], c :: rest)
    | (line :: lines, rest) => ((c :: line) :: lines, rest)

def ofLine? (line : List Char) : Option Value :=
  if line.all isBlank then none else Value.read? (String.ofList line)

def id? (m : Value) : Option Nat :=
  match m.tree.field? "id" with
  | some (.int n) => if 0 ≤ n then some n.toNat else none
  | _ => none

end Message

end ServiceCatalog
