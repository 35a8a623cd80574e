import ServiceCatalog.Wire.Basic

namespace ServiceCatalog

inductive TestStatus where
  | failed
  | running
  | successful
deriving DecidableEq

namespace TestStatus

def name : TestStatus → String
  | .failed => "Failed"
  | .running => "Running"
  | .successful => "Successful"

def ofName? : String → Option TestStatus
  | "Failed" => some .failed
  | "Running" => some .running
  | "Successful" => some .successful
  | _ => none

instance : Wire TestStatus where
  encode s := .str s.name
  decode := Wire.decodeName ofName?

end TestStatus

structure TestStep where
  name : String
  mandatory : Bool
  passed : Bool
  message : Option String
  errorLog : Option String
deriving DecidableEq

instance : Wire TestStep where
  encode s := .record [
    ("name", some (encode s.name)),
    ("mandatory", some (encode s.mandatory)),
    ("passed", some (encode s.passed)),
    ("message", s.message.map encode),
    ("errorLog", s.errorLog.map encode)]
  decode := readRecord do
    return {
      name := ← Fields.required "name"
      mandatory := ← Fields.required "mandatory"
      passed := ← Fields.required "passed"
      message := ← Fields.optional "message"
      errorLog := ← Fields.optional "errorLog" }

structure TestResult where
  lastUpdatedAt : Option Int64
  status : Option TestStatus
  steps : List TestStep
deriving DecidableEq

namespace TestResult

def failedStep? (r : TestResult) : Option TestStep :=
  r.steps.find? fun s => s.mandatory && !s.passed

def effectiveStatus (r : TestResult) : TestStatus :=
  r.status.getD (if r.failedStep?.isSome then .failed else .successful)

instance : Wire TestResult where
  encode r := .record [
    ("lastUpdatedAt", r.lastUpdatedAt.map encode),
    ("status", r.status.map encode),
    ("steps", some (encode r.steps))]
  decode := readRecord do
    return {
      lastUpdatedAt := ← Fields.optional "lastUpdatedAt"
      status := ← Fields.optional "status"
      steps := ← Fields.withDefault "steps" [] }

end TestResult

end ServiceCatalog
