import ServiceCatalog.Service.Basic
import ServiceCatalog.Service.Error

/-!
The records of a catalog: each service with the states it had before. A new state names the version it is
based on and is refused once that is no longer current.
-/

namespace ServiceCatalog

structure ServiceRecord where
  current : Service
  history : List Service
deriving BEq

namespace ServiceRecord

def id (r : ServiceRecord) : Uuid := r.current.id

def ofService (s : Service) : ServiceRecord := ⟨s, []⟩

def advance (r : ServiceRecord) (s : Service) : ServiceRecord := ⟨s, r.history ++ [r.current]⟩

instance : Wire ServiceRecord where
  encode r := .record [("current", some (encode r.current)), ("history", some (encode r.history))]
  decode := readRecord do
    return {
      current := ← Fields.required "current"
      history := ← Fields.withDefault "history" [] }

end ServiceRecord

def Filed (l : List ServiceRecord) : Prop := l.Pairwise fun a b => a.id.bits < b.id.bits

structure Records where
  list : List ServiceRecord
  filed : Filed list

inductive Write where
  | insert (s : Service)
  | replace (s : Service) (base : Version)
  | remove (id : Uuid)

namespace Records

def empty : Records := ⟨[], .nil⟩

instance : Inhabited Records := ⟨empty⟩

theorem ext {r t : Records} (h : r.list = t.list) : r = t := by
  cases r; cases t; cases h; rfl

def place (x : ServiceRecord) : List ServiceRecord → List ServiceRecord
  | [] => [x]
  | y :: r =>
    if x.id.bits < y.id.bits then x :: y :: r
    else if x.id = y.id then x :: r
    else y :: place x r

theorem mem_place {x y : ServiceRecord} {l : List ServiceRecord} (h : y ∈ place x l) :
    y = x ∨ y ∈ l := by
  induction l with
  | nil => simpa [place] using h
  | cons z r ih =>
    simp only [place] at h
    split at h
    · simpa using h
    · split at h
      · rcases List.mem_cons.1 h with h | h
        · exact .inl h
        · exact .inr (List.mem_cons_of_mem _ h)
      · rcases List.mem_cons.1 h with h | h
        · exact .inr (h ▸ List.mem_cons_self)
        · exact (ih h).imp id (List.mem_cons_of_mem _)

theorem filed_place {x : ServiceRecord} {l : List ServiceRecord} (h : Filed l) : Filed (place x l) := by
  induction l with
  | nil => exact List.pairwise_singleton _ _
  | cons y r ih =>
    obtain ⟨hy, hr⟩ := List.pairwise_cons.1 h
    simp only [place]
    split
    · next hx =>
      refine List.pairwise_cons.2 ⟨fun z hz => ?_, h⟩
      rcases List.mem_cons.1 hz with rfl | hz
      · exact hx
      · exact BitVec.lt_trans hx (hy z hz)
    · split
      · next hx => exact List.pairwise_cons.2 ⟨fun z hz => hx ▸ hy z hz, hr⟩
      · next hlt hne =>
        refine List.pairwise_cons.2 ⟨fun z hz => ?_, ih hr⟩
        rcases mem_place hz with rfl | hz
        · rcases Nat.lt_or_eq_of_le (Nat.not_lt.1 hlt) with h | h
          · exact h
          · exact absurd (congrArg Uuid.mk (BitVec.eq_of_toNat_eq h.symm)) hne
        · exact hy z hz

def put (r : Records) (x : ServiceRecord) : Records := ⟨place x r.list, filed_place r.filed⟩

def erase (r : Records) (id : Uuid) : Records := ⟨r.list.filter (·.id != id), r.filed.filter _⟩

def ofList (l : List ServiceRecord) : Records := l.foldl put empty

def find? (r : Records) (id : Uuid) : Option ServiceRecord := r.list.find? (·.id == id)

def sorted (r : Records) : List ServiceRecord :=
  r.list.mergeSort fun a b => a.current.qualifiedName ≤ b.current.qualifiedName

def get? (r : Records) (id : Uuid) : Option Service := (r.find? id).map (·.current)

def getNamed? (r : Records) (qualifiedName : String) : Option Service :=
  (r.list.find? (·.current.qualifiedName == qualifiedName)).map (·.current)

def services (r : Records) : List Service := r.sorted.map (·.current)

def nameTaken (r : Records) (name : String) (except : Option Uuid) : Bool :=
  r.list.any fun x => x.current.name == name && some x.id != except

def load (r : Records) (id : Uuid) : Outcome Service :=
  match r.get? id with
  | some s => .ok s
  | none => .error (.missing (.id id))

def history (r : Records) (id : Uuid) : Outcome (List Service) :=
  match r.find? id with
  | some x => .ok x.history
  | none => .error (.missing (.id id))

def insert (r : Records) (s : Service) : Outcome Records :=
  if (r.find? s.id).isSome then .error (.conflict (.idTaken s.id))
  else if r.nameTaken s.name none then .error (.conflict (.nameTaken s.name))
  else .ok (r.put (.ofService s))

def replace (r : Records) (s : Service) (base : Version) : Outcome Records :=
  if r.nameTaken s.name (some s.id) then .error (.conflict (.nameTaken s.name))
  else match r.find? s.id with
    | none => .error (.missing (.id s.id))
    | some x =>
      if x.current.version ≠ base then
        .error (.conflict (.staleUpdate s.id x.current.version base))
      else .ok (r.put (x.advance s))

def remove (r : Records) (id : Uuid) : Outcome Records :=
  if (r.find? id).isSome then .ok (r.erase id) else .error (.missing (.id id))

def write (r : Records) : Write → Outcome Records
  | .insert s => r.insert s
  | .replace s base => r.replace s base
  | .remove id => r.remove id

end Records

end ServiceCatalog
